import MCode.Validation.Closing
import MCode.Validation.Reduction

/-!
# What a decoder delivers

Whatever the guest, the transport and the consumer do: the events that a decoder takes
into its queue over a whole run are the beginning of a response, and so is the last batch
of the guest behind them, with its terminal.
-/

namespace MCode.Validation.Delivered

open MCode.Lib
open MCode.Validation.DecoderReducer
open MCode.Validation.Closing
open MCode.Validation.Reduction

/-- A response without its terminal. -/
theorem grammar_concat {policy : DecoderPolicy} {events : List NormalizedEvent}
    {last : NormalizedEvent} (hlast : isTerminal last = true)
    (h : Grammar policy (events ++ [last])) : Grammar policy events := by
  obtain ⟨hcount, blocks, terminal, hparsed⟩ := h
  rw [List.length_append] at hcount
  have hsplit := hparsed.split
  cases terminal with
  | none =>
      rw [Option.toList_none, List.append_nil] at hsplit
      have hmem : last ∈ blockEvents 0 blocks := hsplit ▸ List.mem_concat_self
      rw [blockEvents_nonterminal 0 blocks last hmem] at hlast
      cases hlast
  | some stored =>
      obtain ⟨rfl, -⟩ := List.append_inj' hsplit rfl
      have hcharged := hparsed.charged
      rw [List.map_append, List.sum_append] at hcharged
      exact ⟨by omega, blocks, none, (List.append_nil _).symm, hparsed.arranged, nofun,
        fun event hevent => hparsed.valid event (List.mem_append_left _ hevent), by omega⟩

/-- The response of a failed request has no event but its terminal. -/
theorem reduceBatch_failed {s next : EventReducer} {events : List NormalizedEvent} {limit : Nat}
    {afterEnd : Bool} {batch : EventBatch}
    (h : s.reduceBatch events limit afterEnd false = .ok (batch, next)) :
    batch.accepted = [] ∧ batch.terminal ≠ none := by
  unfold EventReducer.reduceBatch at h
  rw [bind_eq_ok] at h
  obtain ⟨-, -, h⟩ := h
  rw [bind_eq_ok] at h
  obtain ⟨-, -, h⟩ := h
  simp only [Bool.not_false, if_true] at h
  unfold EventReducer.reduceErrorBatch at h
  grind [bind_eq_ok]

/-- A call that closes the reducer, or finds it closed. -/
def Refuses (receipt : DecoderReceipt) (t : DecoderReducer) : Prop :=
  receipt.acceptedEvents = [] ∧ t.state = .Closed ∧
    (receipt.transitioned = true → ∃ record ∈ receipt.close, record.cause ≠ .GuestTerminal)

/-- A call whose events the event reducer accepts. -/
def Takes (s : DecoderReducer) (events : List NormalizedEvent) (receipt : DecoderReceipt)
    (t : DecoderReducer) : Prop :=
  ∃ limit afterEnd batch next,
    s.events.reduceBatch events limit afterEnd s.successful = .ok (batch, next) ∧
    s.DrainsBody afterEnd ∧ receipt.acceptedEvents = batch.accepted ∧
    (t.state = .Closed ∨ batch.terminal = none ∧ t = s.enqueued next batch)

theorem acceptEvents_takes {s : DecoderReducer} (events : List NormalizedEvent) (limit : Nat)
    {afterEnd : Bool} (hdrains : s.DrainsBody afterEnd) :
    let result := { s with inFlight := none }.acceptEvents events limit afterEnd
    Refuses result.1 result.2 ∨ Takes s events result.1 result.2 := by
  dsimp only
  unfold acceptEvents
  split
  · rename_i error _
    cases error <;> exact Or.inl ⟨rfl, rfl, fun _ => ⟨_, rfl, nofun⟩⟩
  · rename_i batch next hreduced
    right
    unfold enqueueAndMaybeClose
    split
    · exact ⟨limit, afterEnd, batch, next, hreduced, hdrains, rfl, Or.inl rfl⟩
    · rename_i hterminal
      exact ⟨limit, afterEnd, batch, next, hreduced, hdrains, rfl, Or.inr ⟨hterminal, rfl⟩⟩

theorem pull_takes (s : DecoderReducer) (events : List NormalizedEvent) :
    let result := s.pullReceipt (.ok (.Events events))
    Refuses result.1 result.2 ∨ Takes s events result.1 result.2 := by
  dsimp only
  unfold pullReceipt
  split
  · rename_i hclosed
    have hstate : s.state = .Closed := by simpa using hclosed
    exact Or.inl ⟨rfl, hstate, nofun⟩
  · have hprotocol (taken : DecoderReducer) :
        Refuses taken.protocolClose.1 taken.protocolClose.2 :=
      ⟨rfl, rfl, fun _ => ⟨_, rfl, nofun⟩⟩
    dsimp only
    split
    · split
      · rename_i hpull
        cases hpull
      · rename_i hpull
        cases hpull
      · rename_i hstate hpull
        cases hpull
        exact acceptEvents_takes events _ hstate
      · rename_i hstate hpull
        cases hpull
        exact acceptEvents_takes events _ hstate
      · exact Or.inl (hprotocol _)
    · exact Or.inl (hprotocol _)

/-! ## Runs -/

/-- What the reducer of an open decoder has behind it. -/
def Reduced (policy : DecoderPolicy) (events : List NormalizedEvent) (s : DecoderReducer) : Prop :=
  ∃ batches : List Batch, events = batches.flatMap (·.events) ∧
    (s.successful = false → batches = []) ∧
    ∀ more, reduceBatches (EventReducer.new policy) (batches ++ more) =
      reduceBatches s.events more

/-- `events` is what was taken so far. -/
structure Invariant (policy : DecoderPolicy) (events : List NormalizedEvent)
    (s : DecoderReducer) : Prop where
  unread : s.state = .InitialPull ∨ s.state = .NeedHead → s.status = none
  reduced : s.state ≠ .Closed → Reduced policy events s
  delivered : Grammar policy events

section

variable {policy : DecoderPolicy} {events taken : List NormalizedEvent} {s t : DecoderReducer}

theorem Invariant.closed (h : Grammar policy events) (hclosed : t.state = .Closed) :
    Invariant policy events t := by
  refine ⟨?_, fun hopen => absurd hclosed hopen, h⟩
  rw [hclosed]
  exact nofun

/-- The status is read once, before any event. -/
theorem Invariant.move (h : Invariant policy events s) (hopen : s.state ≠ .Closed)
    (hevents : t.events = s.events) (hstatus : t.status = s.status ∨ s.status = none)
    (hunread : t.state = .InitialPull ∨ t.state = .NeedHead → t.status = none) :
    Invariant policy events t := by
  obtain ⟨batches, hsame, hfailed, hall⟩ := h.reduced hopen
  refine ⟨hunread, fun _ => ⟨batches, hsame, fun hunsuccessful => ?_, ?_⟩, h.delivered⟩
  · apply hfailed
    unfold successful at hunsuccessful ⊢
    cases hstatus with
    | inl hstatus => rw [← hstatus]; exact hunsuccessful
    | inr hnone => rw [hnone]; rfl
  · rw [hevents]
    exact hall

theorem Invariant.same (h : Invariant policy events s) (hstate : t.state = s.state)
    (hevents : t.events = s.events) (hstatus : t.status = s.status) :
    Invariant policy events t := by
  by_cases hopen : s.state = .Closed
  · exact .closed h.delivered (hstate.trans hopen)
  · apply h.move hopen hevents (Or.inl hstatus)
    rw [hstate, hstatus]
    exact h.unread

/-- A batch of a successful response goes on with what was taken before. -/
theorem Reduced.grammar {limit : Nat} {afterEnd : Bool} {result : EventBatch × EventReducer}
    (h : Reduced policy events s)
    (htaken : s.events.reduceBatch taken limit afterEnd true = .ok result) :
    Grammar policy (events ++ taken) := by
  obtain ⟨batches, rfl, -, hall⟩ := h
  have hok := (reduceBatches_ok policy (batches ++ [⟨taken, limit, afterEnd⟩])).1
    ⟨result.2, by rw [hall, reduceBatches, htaken]; rfl⟩
  rw [List.flatMap_append, List.flatMap_singleton] at hok
  exact hok.2

theorem Invariant.take {receipt : DecoderReceipt} (h : Invariant policy events s)
    (htakes : Takes s taken receipt t) : Invariant policy (events ++ receipt.acceptedEvents) t := by
  obtain ⟨limit, afterEnd, batch, next, hreduced, hdrains, haccepted, hnext⟩ := htakes
  have hopen : s.state ≠ .Closed := by
    rw [hdrains]
    cases afterEnd <;> nofun
  rw [haccepted]
  cases hstatus : s.successful with
  | false =>
      rw [hstatus] at hreduced
      obtain ⟨hnone, hterminal⟩ := reduceBatch_failed hreduced
      rw [hnone, List.append_nil]
      exact .closed h.delivered (hnext.resolve_right fun hnext => hterminal hnext.1)
  | true =>
      rw [hstatus] at hreduced
      have hgrammar := (h.reduced hopen).grammar hreduced
      obtain ⟨hnone, heq, -⟩ | ⟨first, last, -, rfl, hlast, -, hterminal, rfl⟩ :=
        (EventReducer.reduceBatch_accepted hreduced).1.split
      · rw [heq]
        obtain hclosed | ⟨-, rfl⟩ := hnext
        · exact .closed hgrammar hclosed
        · obtain ⟨batches, rfl, -, hall⟩ := h.reduced hopen
          have hstate : (s.enqueued next batch).state = _ := hdrains
          have hsuccessful : (s.enqueued next batch).successful = true := hstatus
          refine ⟨fun hunread => ?_, fun _ => ⟨batches ++ [⟨taken, limit, afterEnd⟩], ?_,
            fun hfailed => ?_, fun more => ?_⟩, hgrammar⟩
          · rw [hstate] at hunread
            cases afterEnd <;> simp at hunread
          · rw [List.flatMap_append, List.flatMap_singleton]
          · rw [hsuccessful] at hfailed
            cases hfailed
          · rw [List.append_assoc, hall]
            show reduceBatches _ (_ :: more) = _
            rw [reduceBatches, hreduced]
            rfl
      · rw [← List.append_assoc] at hgrammar
        refine .closed (grammar_concat hlast hgrammar) (hnext.resolve_right fun hnext => ?_)
        rw [hnext.1] at hterminal
        cases hterminal

theorem Invariant.quiet {entry : Entry} (h : Invariant policy events t) (hnone : added entry = []) :
    Invariant policy (events ++ added entry) t := by
  rw [hnone, List.append_nil]
  exact h

theorem Invariant.step {c : Call} (h : Invariant policy events s) :
    Invariant policy (events ++ added (c, (s.call c).1)) (s.call c).2 := by
  by_cases hpull : ∃ taken, c = .pullReceipt (.ok (.Events taken))
  · obtain ⟨taken, rfl⟩ := hpull
    cases pull_takes s taken with
    | inl hrefused => exact .quiet (.closed h.delivered hrefused.2.1) hrefused.1
    | inr htakes => exact h.take htakes
  · have hchange := s.call_change c
    generalize (s.call c).1 = answer at hchange ⊢
    generalize (s.call c).2 = t at hchange ⊢
    cases hchange with
    | enqueue taken | finish taken => exact absurd ⟨taken, rfl⟩ hpull
    | exhaustedWait | exhausted | exhaustedClosed | close =>
        exact .quiet (.closed h.delivered rfl) rfl
    | needHead limit initial =>
        have hnone := h.unread (Or.inl initial)
        exact .quiet (h.move (by rw [initial]; nofun) rfl (Or.inl rfl) fun _ => hnone) rfl
    | pushedHead head needed =>
        have hnone := h.unread (Or.inr needed)
        exact .quiet (h.move (by rw [needed]; nofun) rfl (Or.inr hnone) nofun) rfl
    | needBody limit here | pushedData data here | pushedEnd here =>
        exact .quiet (h.move (by rw [here]; nofun) rfl (Or.inl rfl) nofun) rfl
    | unpublished t unchanged =>
        apply Invariant.quiet _ rfl
        rcases unchanged with rfl | ⟨-, -, rfl⟩ <;> exact h.same rfl rfl rfl
    | _ => exact .quiet (h.same rfl rfl rfl) rfl

end

theorem invariant_reached (policy : DecoderPolicy) (calls : List Call) :
    Invariant policy ((history policy calls).flatMap added) (reached policy calls) := by
  refine Mealy.log_induction (I := fun log s => Invariant policy (log.flatMap added) s) ?_ ?_ calls
  · have hgrammar := ((reduceBatches_ok policy []).1 ⟨_, rfl⟩).2
    exact ⟨fun _ => rfl, fun _ => ⟨[], rfl, fun _ => rfl, fun _ => rfl⟩, hgrammar⟩
  · intro log s c h
    rw [List.flatMap_append, List.flatMap_singleton]
    exact h.step

end MCode.Validation.Delivered
