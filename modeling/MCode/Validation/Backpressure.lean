import MCode.Validation.Closing

/-!
# Backpressure of the decoder

The queue holds what was accepted and not yet consumed, and never more than
its capacity: a pull asks for the free capacity, and nothing is enqueued
between a pull and its receipt.  The reducer waits for the consumer only if
there is something to consume, and for a receipt only if an action is
outstanding.
-/

namespace MCode.Validation.Backpressure

open MCode.Lib
open MCode.Validation
open MCode.Validation.DecoderReducer
open MCode.Validation.Closing

/-- The events that the consumer reports as taken. -/
def consumed (entry : Entry) : Nat :=
  match entry with
  | (.consumerReceipt count, .result (.ok _)) => count
  | _ => 0

/-- The consumer takes something. -/
def consumes (entry : Entry) : Bool :=
  match entry with
  | (.consumerReceipt _, .result (.ok _)) => true
  | _ => false

/-- What an action leaves outstanding. -/
def requested : DecoderAction → Option InFlight
  | .Pull limit => some (.Pull limit)
  | .ReadFrame => some .ReadFrame
  | .PushFrame _ => some .PushFrame
  | .PublishTerminal _ => some .PublishTerminal
  | _ => none

/-- The receipt that an outstanding action waits for. -/
def answers (flight : InFlight) (entry : Entry) : Bool :=
  match flight, entry with
  | .Pull _, (.pullReceipt _, _) => true
  | .ReadFrame, (.transportReceipt _, _) => true
  | .PushFrame, (.pushReceipt _, _) => true
  | .PublishTerminal, (.terminalPublished, .result (.ok _)) => true
  | _, _ => false

/-- An action was handed out, and its receipt has not come since. -/
def Outstanding (log : List Entry) (flight : InFlight) : Prop :=
  ∃ before action later, log = before ++ (.nextAction, .action action) :: later ∧
    requested action = some flight ∧ ∀ entry ∈ later, answers flight entry = false

theorem Outstanding.fresh (log : List Entry) {action : DecoderAction}
    {flight : InFlight} (h : requested action = some flight) :
    Outstanding (log ++ [(.nextAction, .action action)]) flight :=
  ⟨log, action, [], rfl, h, by simp⟩

theorem Outstanding.concat {log : List Entry} {flight : InFlight}
    (h : Outstanding log flight) {entry : Entry} (hentry : answers flight entry = false) :
    Outstanding (log ++ [entry]) flight := by
  obtain ⟨before, action, later, rfl, hrequested, hlater⟩ := h
  refine ⟨before, action, later ++ [entry], by simp, hrequested, fun e he => ?_⟩
  rcases List.mem_append.1 he with he | he
  · exact hlater e he
  · rw [List.mem_singleton.1 he]
    exact hentry

/-- What holds of a reducer behind any log. -/
structure Invariant (log : List Entry) (s : DecoderReducer) : Prop where
  bounded : s.queueLen ≤ QUEUE_CAPACITY
  room : ∀ limit, s.inFlight = some (.Pull limit) → limit ≤ s.freeCapacity
  conserved : (log.map fun entry => (added entry).length).sum =
    (log.map consumed).sum + s.queueLen
  outstanding : ∀ flight, s.inFlight = some flight → Outstanding log flight

theorem invariant_new (policy : DecoderPolicy) :
    Invariant [] (DecoderReducer.new policy) where
  bounded := Nat.zero_le _
  room := nofun
  conserved := rfl
  outstanding := nofun

/-- A change that leaves the queue and what is outstanding as they are. -/
theorem Invariant.same {log : List Entry} {s t : DecoderReducer} {entry : Entry}
    (h : Invariant log s) (hqueue : t.queueLen = s.queueLen)
    (hadded : added entry = []) (hconsumed : consumed entry = 0)
    (hflight : ∀ flight, t.inFlight = some flight →
      s.inFlight = some flight ∧ answers flight entry = false) :
    Invariant (log ++ [entry]) t where
  bounded := by
    rw [hqueue]
    exact h.bounded
  room := fun limit hlimit => by
    unfold freeCapacity
    rw [hqueue]
    exact h.room limit (hflight _ hlimit).1
  conserved := by
    have hlog := h.conserved
    simp only [List.map_append, List.sum_append, List.map_cons, List.map_nil, List.sum_cons,
      List.sum_nil, hadded, hconsumed, List.length_nil, hqueue]
    omega
  outstanding := fun flight hf =>
    (h.outstanding flight (hflight flight hf).1).concat (hflight flight hf).2

/-- A change that hands out an action. -/
theorem Invariant.request {log : List Entry} {s t : DecoderReducer}
    {action : DecoderAction} {flight : InFlight} (h : Invariant log s)
    (hqueue : t.queueLen = s.queueLen) (hflight : t.inFlight = some flight)
    (hrequested : requested action = some flight)
    (hroom : ∀ limit, flight = .Pull limit → limit ≤ s.freeCapacity) :
    Invariant (log ++ [(.nextAction, .action action)]) t where
  bounded := by
    rw [hqueue]
    exact h.bounded
  room := fun limit hlimit => by
    rw [hflight] at hlimit
    unfold freeCapacity
    rw [hqueue]
    exact hroom limit (Option.some.inj hlimit)
  conserved := by
    have hlog := h.conserved
    simp only [List.map_append, List.sum_append, List.map_cons, List.map_nil, List.sum_cons,
      List.sum_nil, hqueue]
    exact hlog
  outstanding := fun other hother => by
    rw [hflight] at hother
    cases hother
    exact Outstanding.fresh log hrequested

/-- A batch fills at most the capacity that was free at its pull. -/
theorem Invariant.enqueue {log : List Entry} {s t : DecoderReducer} {call : Call}
    {receipt : DecoderReceipt} {batch : EventBatch} {limit : Nat} (h : Invariant log s)
    (houtstanding : s.inFlight = some (.Pull limit))
    (haccepted : batch.accepted.length ≤ limit)
    (hqueue : t.queueLen = s.queueLen + batch.accepted.length)
    (hflight : t.inFlight = none) (hreceipt : receipt.acceptedEvents = batch.accepted) :
    Invariant (log ++ [(call, .receipt receipt)]) t where
  bounded := by
    have hroom := h.room limit houtstanding
    have hbounded := h.bounded
    unfold freeCapacity at hroom
    omega
  room := fun limit hlimit => by
    rw [hflight] at hlimit
    cases hlimit
  conserved := by
    have hlog := h.conserved
    have hconsumed : consumed (call, .receipt receipt) = 0 := by
      cases call <;> rfl
    simp only [List.map_append, List.sum_append, List.map_cons, List.map_nil, List.sum_cons,
      List.sum_nil, hconsumed, hqueue]
    have hadded : added (call, .receipt receipt) = batch.accepted := hreceipt
    rw [hadded]
    omega
  outstanding := fun flight hf => by
    rw [hflight] at hf
    cases hf

theorem Invariant.step {policy : DecoderPolicy} {log : List Entry} {s t : DecoderReducer}
    {c : Call} {answer : Answer} (hclosing : Closing.Invariant policy log s)
    (h : Invariant log s) (hc : Change s c answer t) :
    Invariant (log ++ [(c, answer)]) t := by
  cases hc with
  | wait | await | done | refuse =>
      refine h.same rfl rfl rfl fun flight hf => ⟨hf, ?_⟩
      cases flight <;> rfl
  | stable call isReceipt isClosed =>
      refine h.same rfl rfl (by cases c <;> rfl) fun flight hf => ⟨hf, ?_⟩
      rcases hclosing.closed isClosed with hnone | hpublish
      · rw [hnone] at hf
        cases hf
      · rw [hpublish] at hf
        cases hf
        cases c <;> rfl
  | push frame opened idle pending => exact h.request rfl rfl rfl nofun
  | read needed idle unread empty => exact h.request rfl rfl rfl nofun
  | publish terminal isClosed empty idle unpublished stored =>
      exact h.request rfl rfl rfl nofun
  | exhausted opened empty unpublished => exact h.request rfl rfl rfl nofun
  | pull draining idle unread consumed free left =>
      refine h.request rfl rfl rfl fun limit hlimit => ?_
      cases hlimit
      exact Nat.le_refl _
  | exhaustedWait opened queued => exact h.same rfl rfl rfl nofun
  | exhaustedClosed opened published => exact h.same rfl rfl rfl nofun
  | close call receipt isReceipt opened cause =>
      exact h.same rfl rfl (by cases c <;> rfl) nofun
  | enqueue events limit afterEnd batch next draining outstanding accepted models running =>
      exact h.enqueue outstanding accepted.accepted_le rfl rfl rfl
  | finish events limit afterEnd batch next terminal draining outstanding accepted models
      ended =>
      exact h.enqueue outstanding accepted.accepted_le rfl rfl rfl
  | needHead | needBody | frame | pushedHead | pushedData | pushedEnd =>
      exact h.same rfl rfl rfl nofun
  | consume count positive queued =>
      refine ⟨?_, fun limit hlimit => ?_, ?_, fun flight hf => ?_⟩
      · have hbounded := h.bounded
        dsimp only
        omega
      · have hroom := h.room limit hlimit
        unfold freeCapacity at hroom ⊢
        dsimp only
        omega
      · have hlog := h.conserved
        have hadded : added (.consumerReceipt count, .result (.ok ())) = [] := rfl
        have hconsumed : consumed (.consumerReceipt count, .result (.ok ())) = count := rfl
        simp only [List.map_append, List.sum_append, List.map_cons, List.map_nil,
          List.sum_cons, List.sum_nil, hadded, hconsumed, List.length_nil]
        omega
      · refine (h.outstanding flight hf).concat ?_
        cases flight <;> rfl
  | unpublished t unchanged =>
      rcases unchanged with rfl | ⟨-, -, rfl⟩
      · refine h.same rfl rfl rfl fun flight hf => ⟨hf, ?_⟩
        cases flight <;> rfl
      · exact h.same rfl rfl rfl nofun
  | published isClosed unpublished outstanding => exact h.same rfl rfl rfl nofun

theorem invariant_reached (policy : DecoderPolicy) (calls : List Call) :
    Invariant (history policy calls) (reached policy calls) :=
  (Mealy.log_induction
    (I := fun log s => Closing.Invariant policy log s ∧ Invariant log s)
    ⟨Closing.invariant_new policy, invariant_new policy⟩
    (fun _ s c h => ⟨h.1.step (s.call_change c), h.2.step h.1 (s.call_change c)⟩) calls).2

/-! ## Between a batch and the consumer -/

/-- No pull is due: a batch waits for the consumer, or the reducer is closed. -/
def Held (s : DecoderReducer) : Prop :=
  s.awaitingConsumer = true ∧ s.queueLen ≠ 0 ∨ s.state = .Closed

theorem held_added {s t : DecoderReducer} {c : Call} {answer : Answer}
    (hc : Change s c answer t) (hadded : added (c, answer) ≠ []) : Held t := by
  cases hc with
  | enqueue events limit afterEnd batch next draining outstanding accepted models running =>
      have hne : batch.accepted ≠ [] := hadded
      have hlength := List.length_pos_iff.2 hne
      refine Or.inl ⟨?_, ?_⟩
      · simpa [enqueued] using hne
      · show s.queueLen + batch.accepted.length ≠ 0
        omega
  | finish => exact Or.inr rfl
  | _ => exact absurd rfl hadded

theorem Held.step {s t : DecoderReducer} {c : Call} {answer : Answer} (h : Held s)
    (hc : Change s c answer t) (hconsumes : consumes (c, answer) = false) :
    Held t ∧ ∀ limit, answer ≠ .action (.Pull limit) := by
  rcases h with ⟨hawaiting, hqueue⟩ | hclosed
  · cases hc with
    | pull draining idle unread consumed => exact absurd (consumed hawaiting) hqueue
    | consume => cases hconsumes
    | enqueue events limit afterEnd batch next draining outstanding accepted models running =>
        refine ⟨held_added (.enqueue events limit afterEnd batch next draining outstanding
          accepted models running) ?_, nofun⟩
        show batch.accepted ≠ []
        rcases accepted.split with ⟨-, heq, -⟩ | ⟨first, last, -, -, -, -, hterminal, -⟩
        · rw [heq]
          exact accepted.nonempty
        · rw [running] at hterminal
          cases hterminal
    | unpublished t unchanged =>
        rcases unchanged with rfl | ⟨-, -, rfl⟩
        · exact ⟨Or.inl ⟨hawaiting, hqueue⟩, nofun⟩
        · exact ⟨Or.inl ⟨hawaiting, hqueue⟩, nofun⟩
    | exhaustedWait | exhausted | exhaustedClosed | close | finish => exact ⟨Or.inr rfl, nofun⟩
    | _ => exact ⟨Or.inl ⟨hawaiting, hqueue⟩, nofun⟩
  · obtain ⟨hstate, -, -, hasks, -⟩ := closed_step hclosed hc
    refine ⟨Or.inr hstate, ?_⟩
    rintro limit rfl
    cases hasks

/-- Behind a batch there is no pull before the consumer takes something. -/
theorem no_pull_before_consumer {s : DecoderReducer} (h : Held s) (calls : List Call)
    (hlog : ∀ entry ∈ Mealy.log call s calls, consumes entry = false) (c : Call) :
    Held (Mealy.after call s calls) ∧
      (consumes (c, ((Mealy.after call s calls).call c).1) = false → ∀ limit,
        ((Mealy.after call s calls).call c).1 ≠ .action (.Pull limit)) := by
  induction calls generalizing s with
  | nil => exact ⟨h, fun hc => (h.step (s.call_change c) hc).2⟩
  | cons d calls ih =>
      have hentry := hlog _ List.mem_cons_self
      exact ih (h.step (s.call_change d) hentry).1 fun entry hmem =>
        hlog entry (List.mem_cons_of_mem _ hmem)

/-! ## The actions -/

theorem pull_step {s t : DecoderReducer} {c : Call} {answer : Answer} {limit : Nat}
    (hanswer : answer = .action (.Pull limit)) (hc : Change s c answer t) :
    limit = s.freeCapacity ∧ s.freeCapacity ≠ 0 := by
  cases hc with
  | pull draining idle unread consumed free left =>
      cases hanswer
      exact ⟨rfl, free⟩
  | _ => cases hanswer

theorem read_step {s t : DecoderReducer} {c : Call} {answer : Answer}
    (hanswer : answer = .action .ReadFrame) (hc : Change s c answer t) : s.queueLen = 0 := by
  cases hc with
  | read needed idle unread empty => exact empty
  | _ => cases hanswer

theorem wait_step {s t : DecoderReducer} {c : Call} {answer : Answer}
    (hanswer : answer = .action .WaitForConsumer) (hc : Change s c answer t) :
    s.queueLen ≠ 0 := by
  cases hc with
  | wait queued => exact queued
  | exhaustedWait opened queued => exact queued
  | _ => cases hanswer

theorem await_step {s t : DecoderReducer} {c : Call} {answer : Answer}
    (hanswer : answer = .action .AwaitReceipt) (hc : Change s c answer t) :
    s.inFlight.isSome := by
  cases hc with
  | await outstanding => exact outstanding
  | _ => cases hanswer

/-- Every reducer, behind any calls: the queue is bounded and holds what was
accepted and not consumed; a pull asks for the free capacity, a read finds the
queue empty, a batch is followed by no pull before the consumer has taken
something, and nothing is waited for that cannot come. -/
theorem decoder_backpressure (policy : DecoderPolicy) (calls : List Call) :
    (reached policy calls).queueLen ≤ 16 ∧
    ((history policy calls).map fun entry => (added entry).length).sum =
      ((history policy calls).map consumed).sum + (reached policy calls).queueLen ∧
    (∀ c limit, ((reached policy calls).call c).1 = .action (.Pull limit) →
      limit = 16 - (reached policy calls).queueLen ∧ 1 ≤ limit ∧ limit ≤ 16) ∧
    (∀ c, ((reached policy calls).call c).1 = .action .ReadFrame →
      (reached policy calls).queueLen = 0) ∧
    (∀ before entry middle c limit rest,
      history policy calls =
        before ++ entry :: (middle ++ (c, .action (.Pull limit)) :: rest) →
      added entry ≠ [] → ∃ receipt ∈ middle, consumes receipt = true) ∧
    (((reached policy calls).call .nextAction).1 = .action .WaitForConsumer →
      0 < (reached policy calls).queueLen) ∧
    (((reached policy calls).call .nextAction).1 = .action .AwaitReceipt →
      ∃ flight, (reached policy calls).inFlight = some flight ∧
        Outstanding (history policy calls) flight) := by
  have h := invariant_reached policy calls
  have hbounded := h.bounded
  refine ⟨hbounded, h.conserved, fun c limit hanswer => ?_, fun c hanswer => ?_, ?_,
    fun hanswer => ?_, fun hanswer => ?_⟩
  · obtain ⟨hlimit, hfree⟩ := pull_step hanswer ((reached policy calls).call_change c)
    unfold freeCapacity QUEUE_CAPACITY at hlimit hfree
    omega
  · exact read_step hanswer ((reached policy calls).call_change c)
  · intro before entry middle c limit rest hsplit hadded
    obtain ⟨d, answer⟩ := entry
    obtain ⟨first, second, -, -, hanswer, hrest⟩ := Mealy.log_split hsplit
    obtain ⟨third, fourth, -, hmiddle, hpull, -⟩ := Mealy.log_split hrest.symm
    by_contra hnone
    have hall : ∀ receipt ∈ middle, consumes receipt = false := by
      intro receipt hreceipt
      by_contra hyes
      exact hnone ⟨receipt, hreceipt, by simpa using hyes⟩
    have hchange := (Mealy.after call (DecoderReducer.new policy) first).call_change d
    rw [← hanswer] at hchange
    rw [hmiddle] at hall
    have hheld := no_pull_before_consumer (held_added hchange hadded) third hall c
    rw [← hpull] at hheld
    exact hheld.2 (by cases c <;> rfl) limit rfl
  · have hqueue := wait_step hanswer ((reached policy calls).call_change .nextAction)
    omega
  · have hflight := await_step hanswer ((reached policy calls).call_change .nextAction)
    obtain ⟨flight, hsome⟩ := Option.isSome_iff_exists.1 hflight
    exact ⟨flight, hsome, h.outstanding flight hsome⟩

end MCode.Validation.Backpressure
