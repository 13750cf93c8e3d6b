import MCode.Provider.Senders

/-!
# What `next` returns

Until a terminal is seen, the results of `next` and the queue are together
exactly the events that entered the channel.  A terminal is the next of these
events, or it is synthesized: when the token is cancelled and the queue is
found empty, or when the queue is empty and no sender is left.
-/

namespace MCode.Provider.Delivery

open MCode.Lib
open MCode.Lib.Terminal
open MCode.Core
open MCode.Provider
open MCode.Provider.Stream

/-- Where the terminal behind the events `delivered` comes from, in a run
`history` from `initial` to `s`. -/
inductive Origin (serde : SerdeJson) (encode : StreamEvent → Option Nat)
    (initial : Channel) (history : List Label) (s : Channel)
    (delivered : List StreamEvent) : StreamEvent → Prop
  /-- It was sent. -/
  | sent (terminal : StreamEvent) (next : delivered ++ [terminal] <+: s.events) :
      Origin serde encode initial history s delivered terminal
  /-- Every sender is gone, and all they sent was delivered. -/
  | ended (dead : s.Dead) (complete : s.events = delivered) :
      Origin serde encode initial history s delivered (endedTerminal serde)
  /-- At some step of the run the token was cancelled and the queue empty. -/
  | cancelled (before after : List Label) (label : Label) (u : Channel)
      (split : history = before ++ label :: after)
      (reached : Machine.run (Channel.step serde encode) initial before = some u)
      (token : u.cancelled = true) (empty : u.queue = [])
      (complete : u.events = delivered) :
      Origin serde encode initial history s delivered cancelledTerminal

/-- The results of `next`: events in the order they entered, then at most one
terminal, and `None` behind it. -/
def Delivers (serde : SerdeJson) (encode : StreamEvent → Option Nat)
    (initial : Channel) (history : List Label) (s : Channel) : Prop :=
  ∃ delivered : List StreamEvent,
    delivered.any StreamEvent.isTerminal = false ∧ delivered <+: s.events ∧
    (s.results = delivered.map some ∨
      ∃ terminal nones, terminal.isTerminal = true ∧
        Origin serde encode initial history s delivered terminal ∧
        s.results = delivered.map some ++
          some terminal :: List.replicate nones none)

/-- What is known at a place of `next` before a terminal is seen. -/
def Reads (s : Channel) : Prop :=
  match s.consumer with
  | .finishing _ => False
  | .rechecking => s.cancelled = true
  | .closing => s.Dead ∧ s.queue = []
  | _ => True

/-- What was returned at a place of the consumer once a terminal is seen. -/
def Rests (s : Channel) (delivered : List StreamEvent) (terminal : StreamEvent) :
    Prop :=
  match s.consumer with
  | .finishing event => event = terminal ∧ s.results = delivered.map some
  | .idle | .dropping | .gone =>
      ∃ nones, s.results = delivered.map some ++
        some terminal :: List.replicate nones none
  | _ => False

inductive Phase (serde : SerdeJson) (encode : StreamEvent → Option Nat)
    (initial : Channel) (history : List Label) (s : Channel) : Prop
  | reading (delivered : List StreamEvent) (unseen : s.terminalSeen = false)
      (plain : delivered.any StreamEvent.isTerminal = false)
      (results : s.results = delivered.map some)
      (events : s.events = delivered ++ s.queue) (place : Reads s)
  | ended (delivered : List StreamEvent) (terminal : StreamEvent)
      (seen : s.terminalSeen = true)
      (plain : delivered.any StreamEvent.isTerminal = false)
      (isTerminal : terminal.isTerminal = true)
      (entered : delivered <+: s.events)
      (origin : Origin serde encode initial history s delivered terminal)
      (place : Rests s delivered terminal)

variable {serde : SerdeJson} {encode : StreamEvent → Option Nat}
  {initial : Channel} {history : List Label} {s s' : Channel} {label : Label}

theorem phase_channel (cancelled : Bool) :
    Phase serde encode (Channel.channel cancelled) [] (Channel.channel cancelled) :=
  .reading [] rfl rfl rfl rfl trivial

theorem Phase.delivers (h : Phase serde encode initial history s) :
    Delivers serde encode initial history s := by
  cases h with
  | reading delivered unseen plain results events place =>
      exact ⟨delivered, plain, ⟨s.queue, events.symm⟩, Or.inl results⟩
  | ended delivered terminal seen plain isTerminal entered origin place =>
      refine ⟨delivered, plain, entered, ?_⟩
      unfold Rests at place
      split at place
      · exact Or.inl place.2
      · obtain ⟨nones, hresults⟩ := place
        exact Or.inr ⟨terminal, nones, isTerminal, origin, hresults⟩
      · obtain ⟨nones, hresults⟩ := place
        exact Or.inr ⟨terminal, nones, isTerminal, origin, hresults⟩
      · obtain ⟨nones, hresults⟩ := place
        exact Or.inr ⟨terminal, nones, isTerminal, origin, hresults⟩
      · cases place

/-! ## Steps of the producer side -/

/-- A terminal keeps its origin when the log grows, which it does not once
every sender is gone. -/
theorem Origin.grow {delivered more : List StreamEvent} {terminal : StreamEvent}
    (h : Origin serde encode initial history s delivered terminal) (label : Label)
    (hevents : s'.events = s.events ++ more)
    (hdead : s.Dead → s'.Dead ∧ more = []) :
    Origin serde encode initial (history ++ [label]) s' delivered terminal := by
  cases h with
  | sent terminal next =>
      refine .sent _ (next.trans ?_)
      rw [hevents]
      exact List.prefix_append ..
  | ended dead complete =>
      obtain ⟨hdead', rfl⟩ := hdead dead
      exact .ended hdead' (by rw [hevents, complete, List.append_nil])
  | cancelled before after l u split reached token empty complete =>
      exact .cancelled before (after ++ [label]) l u (by rw [split]; simp) reached
        token empty complete

theorem Phase.produce (h : Phase serde encode initial history s) (label : Label)
    (hstep : Produces s s') :
    Phase serde encode initial (history ++ [label]) s' := by
  obtain ⟨more, hqueue, hevents, hdead⟩ := hstep.grows
  cases h with
  | reading delivered unseen plain results events place =>
      refine .reading delivered (hstep.terminalSeen.trans unseen) plain
        (hstep.results.trans results) ?_ ?_
      · rw [hevents, hqueue, events, List.append_assoc]
      · unfold Reads at place ⊢
        rw [hstep.consumer]
        split at place
        · cases place
        · exact hstep.cancelled place
        · obtain ⟨hdead', rfl⟩ := hdead place.1
          exact ⟨hdead', by rw [hqueue, place.2]; rfl⟩
        · trivial
  | ended delivered terminal seen plain isTerminal entered origin place =>
      refine .ended delivered terminal (hstep.terminalSeen.trans seen) plain
        isTerminal ?_ (origin.grow label hevents hdead) ?_
      · rw [hevents]
        exact entered.trans (List.prefix_append ..)
      · unfold Rests at place ⊢
        rw [hstep.consumer, hstep.results]
        exact place

/-! ## Steps of the consumer -/

/-- `accept` delivers the first event of the queue. -/
theorem phase_accept {delivered rest : List StreamEvent} {event : StreamEvent}
    (unseen : s.terminalSeen = false)
    (plain : delivered.any StreamEvent.isTerminal = false)
    (results : s.results = delivered.map some)
    (events : s.events = delivered ++ event :: rest) :
    Phase serde encode initial history (s.accept event rest) := by
  unfold Channel.accept
  split
  · rename_i hterminal
    refine .ended delivered event rfl plain hterminal ⟨event :: rest, events.symm⟩
      (.sent event ⟨rest, ?_⟩) ⟨rfl, results⟩
    rw [List.append_assoc]
    exact events.symm
  · rename_i hterminal
    refine .reading (delivered ++ [event]) unseen ?_ ?_ ?_ trivial
    · simp [plain, hterminal]
    · simp [results]
    · show s.events = delivered ++ [event] ++ rest
      rw [events, List.append_assoc]
      rfl

theorem tryRecv_event {event : StreamEvent} {rest : List StreamEvent}
    (h : s.tryRecv = .event event rest) : s.queue = event :: rest := by
  unfold Channel.tryRecv at h
  split at h
  · rename_i hqueue
    cases h
    exact hqueue
  · split at h <;> cases h

theorem tryRecv_disconnected (h : s.tryRecv = .disconnected) :
    s.Dead ∧ s.queue = [] := by
  unfold Channel.tryRecv at h
  split at h
  · cases h
  · rename_i hqueue
    split at h
    · cases h
    · rename_i hdead
      refine ⟨fun alive hmem => ?_, hqueue⟩
      simp only [List.any_eq_true, id_eq, not_exists, not_and, Bool.not_eq_true] at hdead
      exact hdead alive hmem

theorem tryRecv_queue_nil (h : ∀ event rest, s.tryRecv ≠ .event event rest) :
    s.queue = [] := by
  unfold Channel.tryRecv at h
  split at h
  · exact absurd rfl (h _ _)
  · rename_i hqueue
    exact hqueue

/-- The synthesized terminal ends the stream. -/
theorem phase_synthesize {delivered : List StreamEvent} {terminal : StreamEvent}
    (plain : delivered.any StreamEvent.isTerminal = false)
    (isTerminal : terminal.isTerminal = true)
    (results : s.results = delivered.map some)
    (entered : delivered <+: s.events)
    (origin : Origin serde encode initial history s delivered terminal) :
    Phase serde encode initial history (s.synthesize terminal) := by
  refine .ended delivered terminal rfl plain isTerminal entered ?_ ⟨rfl, results⟩
  cases origin with
  | sent terminal next => exact .sent terminal next
  | ended dead complete => exact .ended dead complete
  | cancelled before after l u split reached token empty complete =>
      exact .cancelled before after l u split reached token empty complete

/-- A step of the consumer before a terminal is seen. -/
theorem phase_reading {delivered : List StreamEvent}
    (unseen : s.terminalSeen = false)
    (plain : delivered.any StreamEvent.isTerminal = false)
    (results : s.results = delivered.map some)
    (events : s.events = delivered ++ s.queue) (place : Reads s)
    (hrun : Machine.run (Channel.step serde encode) initial history = some s)
    (hstep : s.consume serde s.consumer label = some s') :
    Phase serde encode initial (history ++ [label]) s' := by
  have hentered : delivered <+: s.events := ⟨s.queue, events.symm⟩
  have hempty : s.queue = [] → s.events = delivered := by
    intro hnil
    rw [events, hnil, List.append_nil]
  unfold Channel.consume at hstep
  split at hstep
  · rw [if_neg (by rw [unseen]; nofun)] at hstep
    split at hstep <;> cases hstep
    · rename_i hrecv
      exact phase_accept unseen plain results (tryRecv_event hrecv ▸ events)
    · rename_i hrecv
      exact .reading delivered unseen plain results events (tryRecv_disconnected hrecv)
    · exact .reading delivered unseen plain results events trivial
  · split at hstep
    · cases hstep
      exact .reading delivered unseen plain results events trivial
    · split at hstep <;> cases hstep
      · rename_i hrecv
        exact phase_accept unseen plain results (tryRecv_event hrecv ▸ events)
      · rename_i hrecv
        exact .reading delivered unseen plain results events
          (tryRecv_disconnected hrecv)
      · exact .reading delivered unseen plain results events trivial
  · cases hstep
    refine .reading delivered unseen plain results events ?_
    unfold Reads
    dsimp only
    by_cases hcancelled : s.cancelled = true
    · rw [if_pos hcancelled]
      exact hcancelled
    · rw [if_neg hcancelled]
      trivial
  · rename_i hplace
    have hcancelled : s.cancelled = true := by
      unfold Reads at place
      rw [hplace] at place
      exact place
    split at hstep <;> cases hstep
    · rename_i hrecv
      exact phase_accept unseen plain results (tryRecv_event hrecv ▸ events)
    · rename_i hrecv
      have hnil := tryRecv_queue_nil hrecv
      exact phase_synthesize plain rfl results hentered
        (.cancelled history [] .recheck s rfl hrun hcancelled hnil (hempty hnil))
  · rename_i hplace
    have hclosed : s.Dead ∧ s.queue = [] := by
      unfold Reads at place
      rw [hplace] at place
      exact place
    cases hstep
    by_cases hcancelled : s.cancelled = true
    · rw [if_pos hcancelled]
      exact phase_synthesize plain rfl results hentered
        (.cancelled history [] _ s rfl hrun hcancelled hclosed.2 (hempty hclosed.2))
    · rw [if_neg hcancelled]
      exact phase_synthesize plain rfl results hentered
        (.ended hclosed.1 (hempty hclosed.2))
  · rename_i hplace
    unfold Reads at place
    rw [hplace] at place
    cases place
  · cases hstep
    exact .reading delivered unseen plain results events trivial
  · cases hstep
    exact .reading delivered unseen plain results events trivial
  · cases hstep
    exact .reading delivered unseen plain results events trivial
  · cases hstep

/-- A step of the consumer once a terminal is seen. -/
theorem phase_ended {delivered : List StreamEvent} {terminal : StreamEvent}
    (seen : s.terminalSeen = true)
    (plain : delivered.any StreamEvent.isTerminal = false)
    (isTerminal : terminal.isTerminal = true) (entered : delivered <+: s.events)
    (origin : Origin serde encode initial history s delivered terminal)
    (place : Rests s delivered terminal)
    (hstep : s.consume serde s.consumer label = some s') :
    Phase serde encode initial (history ++ [label]) s' := by
  obtain ⟨-, hhandles, -, -, haccepted⟩ := consume_frame hstep
  have hevents : s'.events = s.events := by
    unfold Channel.events
    rw [haccepted]
  have horigin : Origin serde encode initial (history ++ [label]) s' delivered
      terminal := by
    refine origin.grow label
      (show s'.events = s.events ++ [] by rw [hevents, List.append_nil]) ?_
    intro hdead
    refine ⟨?_, rfl⟩
    unfold Channel.Dead
    rw [hhandles]
    exact hdead
  have hgrown : delivered <+: s'.events := by
    rw [hevents]
    exact entered
  suffices hplace : s'.terminalSeen = true ∧ Rests s' delivered terminal from
    .ended delivered terminal hplace.1 plain isTerminal hgrown horigin hplace.2
  unfold Rests at place
  unfold Channel.consume at hstep
  split at hstep
  · rename_i hidle
    rw [hidle] at place
    obtain ⟨nones, hresults⟩ := place
    rw [if_pos seen] at hstep
    cases hstep
    refine ⟨seen, ?_⟩
    unfold Rests
    dsimp only
    rw [hidle]
    refine ⟨nones + 1, ?_⟩
    rw [hresults, List.replicate_succ']
    simp
  · rename_i hpolling
    rw [hpolling] at place
    cases place
  · rename_i hpolling
    rw [hpolling] at place
    cases place
  · rename_i hrechecking
    rw [hrechecking] at place
    cases place
  · rename_i hclosing
    rw [hclosing] at place
    cases place
  · rename_i event hfinishing
    rw [hfinishing] at place
    obtain ⟨rfl, hresults⟩ := place
    cases hstep
    exact ⟨seen, 0, by rw [hresults]; rfl⟩
  · rename_i hpolling
    rw [hpolling] at place
    cases place
  · rename_i hidle
    rw [hidle] at place
    cases hstep
    exact ⟨seen, place⟩
  · rename_i hdropping
    rw [hdropping] at place
    cases hstep
    exact ⟨seen, place⟩
  · cases hstep

theorem Phase.step (hinv : SenderInv serde encode s)
    (h : Phase serde encode initial history s)
    (hrun : Machine.run (Channel.step serde encode) initial history = some s)
    (hstep : s.step serde encode label = some s') :
    Phase serde encode initial (history ++ [label]) s' := by
  by_cases hlabel : label.ofProducer = true
  · exact h.produce label (producer_step hinv hlabel hstep)
  · have hconsume := step_consume (by simpa using hlabel) hstep
    cases h with
    | reading delivered unseen plain results events place =>
        exact phase_reading unseen plain results events place hrun hconsume
    | ended delivered terminal seen plain isTerminal entered origin place =>
        exact phase_ended seen plain isTerminal entered origin place hconsume

/-! ## The stream as a whole -/

/-- The encoding of the event is too large, or there is none. -/
def Oversized (encode : StreamEvent → Option Nat) (event : StreamEvent) : Prop :=
  ∀ length, encode event = some length → MAX_EVENT_ENCODED_BYTES < length

theorem oversized_admitted {event : StreamEvent} (h : Oversized encode event) :
    ∃ message, admitted serde encode event = protocolTerminal serde message := by
  unfold admitted
  split
  · rename_i length hlength
    rw [if_neg (Nat.not_le.2 (h length hlength))]
    exact ⟨_, rfl⟩
  · exact ⟨_, rfl⟩

/-- What the calls of `send` have put into the channel. -/
structure Sends (serde : SerdeJson) (encode : StreamEvent → Option Nat)
    (s : Channel) : Prop where
  /-- Nothing is accepted behind a terminal. -/
  single : SingleTerminal StreamEvent.isTerminal s.events
  claimed : s.terminalClaimed = s.events.any StreamEvent.isTerminal
  /-- A call accepts an event exactly if it returns `true`. -/
  entered : ∀ a ∈ s.accepted, ∃ call, s.calls[a.call]? = some call ∧
    call.stage = .returned true ∧ a.event = admitted serde encode call.sent
  returned : ∀ i call, s.calls[i]? = some call → call.stage = .returned true →
    ∃ a ∈ s.accepted, a.call = i
  oversized : ∀ a ∈ s.accepted, ∀ call, s.calls[a.call]? = some call →
    Oversized encode call.sent → ∃ message, a.event = protocolTerminal serde message
  dropped : ∀ i call, s.calls[i]? = some call → call.stage = .dropped →
    ∀ a ∈ s.accepted, a.call ≠ i

theorem sends_of_inv (hinv : SenderInv serde encode s) : Sends serde encode s where
  single := hinv.single
  claimed := hinv.claimed
  entered := hinv.entered
  returned := fun i call hcall => (hinv.calls i call hcall).entered
  oversized := by
    intro a ha call hcall hsize
    obtain ⟨other, hother, -, hevent⟩ := hinv.entered a ha
    rw [hcall] at hother
    cases hother
    rw [hevent]
    exact oversized_admitted hsize
  dropped := by
    rintro i call hcall hdropped a ha rfl
    obtain ⟨other, hother, hstage, -⟩ := hinv.entered a ha
    rw [hcall] at hother
    cases hother
    rw [hdropped] at hstage
    cases hstage

/-- **The provider event stream.**  Over every interleaving of any number of
senders and calls of `send`, of their drops, of the cancellation and of
`next`: the results of `next` are accepted events in order, then one terminal
that was accepted or is synthesized as `Origin` says, then `None`.  Nothing is
accepted behind a terminal, an event that is too large only as a protocol
terminal, and from a dropped call nothing. -/
theorem event_stream_single_terminal (serde : SerdeJson)
    (encode : StreamEvent → Option Nat) (cancelled : Bool) (labels : List Label)
    (s : Channel)
    (h : Machine.run (Channel.step serde encode) (Channel.channel cancelled) labels =
      some s) :
    Delivers serde encode (Channel.channel cancelled) labels s ∧
      Sends serde encode s := by
  have hboth : SenderInv serde encode s ∧
      Phase serde encode (Channel.channel cancelled) labels s := by
    refine Machine.run_history
      (I := fun history s => SenderInv serde encode s ∧
        Phase serde encode (Channel.channel cancelled) history s)
      ⟨senderInv_channel cancelled, phase_channel cancelled⟩ ?_ h
    rintro history u label v hrun ⟨hinv, hphase⟩ hstep
    exact ⟨hinv.step hstep, hphase.step hinv hrun hstep⟩
  exact ⟨hboth.2.delivers, sends_of_inv hboth.1⟩

/-- One event, and then a cancellation. -/
private def oneEvent : List Label :=
  [.send 0 (.TextDelta "hi"), .sendStep 0, .sendStep 0, .sendStep 0, .sendStep 0,
    .cancel, .next, .next, .poll false, .pollCancel, .recheck, .finish, .next]

theorem event_stream_single_terminal_cancelled :
    ∃ s, Machine.run (Channel.step ⟨fun _ => none, fun _ => ""⟩ fun _ => some 20)
        (Channel.channel false) oneEvent = some s ∧
      s.results = [some (.TextDelta "hi"), some cancelledTerminal, none] ∧
      Delivers ⟨fun _ => none, fun _ => ""⟩ (fun _ => some 20)
        (Channel.channel false) oneEvent s :=
  ⟨_, rfl, rfl, (event_stream_single_terminal ⟨fun _ => none, fun _ => ""⟩
    (fun _ => some 20) false oneEvent _ rfl).1⟩

end MCode.Provider.Delivery
