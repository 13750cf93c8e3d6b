import MCode.Agent.ToolCalls

/-!
# Dispatches that are held open

The loop of `dispatch_tool_call` (`mcode-agent/src/turn.rs`) ends when `recv`
returns `None`, not at the terminal item, and `recv` returns `None` when every
`ToolStream` of the channel has been dropped.  Behind `execute` and the
dispatcher's claim these are the clones that the tool has kept.

So a dispatch ends where no clone is left when both the terminal has been
received and `execute` is done.  A clone that outlives them keeps the dispatcher
waiting on a channel on which nothing can come any more.
-/

namespace MCode.Agent.ToolCalls

open MCode.Lib MCode.Lib.Machine
open MCode.Core
open MCode.Tools

/-- `execute` is done, its terminal is received and the channel is empty, but
`recv` does not return. -/
structure Dispatch.HeldOpen (d : Dispatch) : Prop where
  selecting : d.phase = .selecting
  executed : d.execResult.isSome = true
  received : d.streamedTerminal.isSome = true
  empty : d.stream.queue = []
  waits : d.hasSender = true

/-- The terminal is received after `execute`, or claimed after it has been
received, only when the clones are dropped. -/
def ClonesDropped (d : Dispatch) : Act → Prop
  | .recv => d.execResult.isSome = true →
      (∃ result ∈ d.stream.queue.head?, result.isTerminal = true) → d.clones = 0
  | .claim => d.streamedTerminal.isSome = true → d.clones = 0
  | _ => True

/-! ## The channel -/

/-- The terminal is the last item of the channel, and nothing follows it. -/
inductive Tail (d : Dispatch) : Prop where
  | running (terminated : d.stream.terminated = false) (streamed : d.streamedTerminal = none)
      (progress : ∀ item ∈ d.stream.queue, item.isTerminal = false)
  | closed (terminated : d.stream.terminated = true) (streamed : d.streamedTerminal = none)
      (front : List ToolStreamItem) (result : ToolResult)
      (queue : d.stream.queue = front ++ [.Terminal result])
      (progress : ∀ item ∈ front, item.isTerminal = false)
  | drained (terminated : d.stream.terminated = true)
      (streamed : d.streamedTerminal.isSome = true) (queue : d.stream.queue = [])

/-- Behind its claim the dispatcher has no sender of its own, and the one that
`execute` had is gone. -/
structure Senders (d : Dispatch) : Prop where
  executed : d.execResult.isSome = true → d.producer = false ∧ d.terminalPusher = false
  claiming : ∀ result, d.phase = .claiming result → d.producer = false

theorem Tail.drained_of {d : Dispatch} (h : Tail d) (hstreamed : d.streamedTerminal.isSome = true) :
    d.stream.terminated = true ∧ d.stream.queue = [] := by
  cases h with
  | running _ streamed | closed _ streamed =>
      rw [streamed] at hstreamed
      cases hstreamed
  | drained terminated _ queue => exact ⟨terminated, queue⟩

theorem Tail.congr {d d' : Dispatch} (h : Tail d) (hstream : d'.stream = d.stream)
    (hstreamed : d'.streamedTerminal = d.streamedTerminal) : Tail d' := by
  cases h with
  | running terminated streamed progress =>
      exact .running (hstream ▸ terminated) (hstreamed ▸ streamed) (hstream ▸ progress)
  | closed terminated streamed front result queue progress =>
      exact .closed (hstream ▸ terminated) (hstreamed ▸ streamed) front result (hstream ▸ queue)
        progress
  | drained terminated streamed queue =>
      exact .drained (hstream ▸ terminated) (hstreamed ▸ streamed) (hstream ▸ queue)

theorem Tail.send {d : Dispatch} (h : Tail d) (hreceiving : d.stream.receiving = true)
    (sender : Sender) (item : ToolStreamItem) : Tail (d.send sender item).1 := by
  cases hterminated : d.stream.terminated with
  | true => rwa [Dispatch.send_terminated hterminated]
  | false =>
      cases h with
      | closed terminated | drained terminated =>
          rw [hterminated] at terminated
          cases terminated
      | running _ streamed progress =>
          rw [Dispatch.send_open hterminated hreceiving]
          cases item with
          | Progress sent =>
              refine .running rfl streamed fun item hitem => ?_
              cases List.mem_append.1 hitem with
              | inl hold => exact progress item hold
              | inr hnew => rw [List.mem_singleton.1 hnew]; rfl
          | Terminal result => exact .closed rfl streamed d.stream.queue result rfl progress

/-- Receiving the head of the channel. -/
theorem Tail.recv {d : Dispatch} (h : Tail d) {item : ToolStreamItem}
    {queue : List ToolStreamItem} (head : d.stream.queue = item :: queue) :
    d.streamedTerminal = none ∧
      (item.isTerminal = true → d.stream.terminated = true ∧ queue = []) ∧
      (item.isTerminal = false →
        Tail { d with stream := { d.stream with queue := queue } }) := by
  cases h with
  | running terminated streamed progress =>
      rw [head] at progress
      have hitem := progress item (List.mem_cons_self ..)
      refine ⟨streamed, fun hterminal => ?_, fun _ => .running terminated streamed
        fun other hother => progress other (List.mem_cons_of_mem _ hother)⟩
      rw [hitem] at hterminal
      cases hterminal
  | closed terminated streamed front result hqueue progress =>
      rw [head] at hqueue
      cases front with
      | nil =>
          cases hqueue
          exact ⟨streamed, fun _ => ⟨terminated, rfl⟩, nofun⟩
      | cons first front =>
          cases hqueue
          have hfirst := progress item (List.mem_cons_self ..)
          refine ⟨streamed, fun hterminal => ?_, fun _ => .closed terminated streamed front result
            rfl fun other hother => progress other (List.mem_cons_of_mem _ hother)⟩
          rw [hfirst] at hterminal
          cases hterminal
  | drained _ _ hqueue =>
      rw [head] at hqueue
      cases hqueue

/-- What a run keeps: the channel and the senders. -/
structure Steady (call : ToolCall) (o : Observed) : Prop where
  consistent : Consistent call o
  tail : Tail o.dispatch
  senders : Senders o.dispatch

theorem steady_start (call : ToolCall) : Steady call Observed.start where
  consistent := consistent_start call
  tail := .running rfl rfl nofun
  senders := ⟨nofun, nofun⟩

theorem push_stream (d : Dispatch) (result : ToolResult) :
    (d.push result).1.stream =
      if d.terminalPusher then (d.send .dispatcher (.Terminal result)).1.stream else d.stream := by
  unfold Dispatch.push
  split <;> rfl

theorem push_locals (d : Dispatch) (result : ToolResult) :
    (d.push result).1.producer = d.producer ∧ (d.push result).1.clones = d.clones ∧
      (d.push result).1.terminalPusher = false ∧
      (d.push result).1.streamedTerminal = d.streamedTerminal := by
  unfold Dispatch.push
  split <;> exact ⟨rfl, rfl, rfl, rfl⟩

theorem Tail.push {d : Dispatch} (h : Tail d)
    (hreceiving : d.terminalPusher = true → d.stream.receiving = true) (result : ToolResult) :
    Tail (d.push result).1 := by
  cases hpusher : d.terminalPusher with
  | true =>
      have hsent := h.send (hreceiving hpusher) .dispatcher (.Terminal result)
      refine hsent.congr ?_ (push_locals d result).2.2.2
      rw [push_stream, if_pos hpusher]
  | false =>
      refine h.congr ?_ (push_locals d result).2.2.2
      rw [push_stream, if_neg (by simp [hpusher])]

theorem Steady.step {call : ToolCall} {o o' : Observed} {act : Act} (h : Steady call o)
    (hstep : o.step call act = some o') : Steady call o' := by
  refine ⟨h.consistent.step hstep, ?_, ?_⟩ <;>
    obtain ⟨next, hnext, rfl⟩ := Option.map_eq_some_iff.1 hstep
  · cases Dispatch.step_next hnext with
    | clone holds => exact h.tail.congr rfl rfl
    | dropClone some => exact h.tail.congr rfl rfl
    | send item holds =>
        exact h.tail.send (h.consistent.receiving (Dispatch.hasSender_of_toolHolds holds)) .tool item
    | execute completion => exact h.tail.congr rfl rfl
    | claim result claiming =>
        have hpushed := h.tail.push
          (fun hpusher => h.consistent.receiving (by simp [Dispatch.hasSender, hpusher])) result
        exact hpushed.congr rfl rfl
    | recvProgress progress queue selecting head => exact (h.tail.recv head).2.2 rfl
    | recvTerminal result queue selecting head =>
        obtain ⟨-, hterminal, -⟩ := h.tail.recv head
        obtain ⟨hterminated, hqueue⟩ := hterminal rfl
        exact .drained hterminated rfl hqueue
    | leave selecting empty dropped => exact h.tail.congr rfl rfl
    | complete leaving =>
        cases h.tail with
        | running terminated streamed progress => exact .running terminated streamed progress
        | closed terminated streamed front result queue progress =>
            exact .closed terminated streamed front result queue progress
        | drained terminated streamed queue => exact .drained terminated streamed queue
  · cases Dispatch.step_next hnext with
    | clone holds => exact ⟨h.senders.executed, h.senders.claiming⟩
    | dropClone some => exact ⟨h.senders.executed, h.senders.claiming⟩
    | send item holds => exact ⟨h.senders.executed, h.senders.claiming⟩
    | execute completion selecting producer pending =>
        refine ⟨fun hexecuted => ?_, fun _ _ => rfl⟩
        change o.dispatch.execResult.isSome = true at hexecuted
        rw [pending] at hexecuted
        cases hexecuted
    | claim result claiming =>
        obtain ⟨hproducer, -, hpusher, -⟩ := push_locals o.dispatch result
        refine ⟨fun _ => ⟨hproducer.trans (h.senders.claiming result claiming), hpusher⟩, ?_⟩
        intro other hother
        cases hother
    | recvProgress progress queue selecting head => exact ⟨h.senders.executed, h.senders.claiming⟩
    | recvTerminal result queue selecting head => exact ⟨h.senders.executed, h.senders.claiming⟩
    | leave selecting empty dropped => exact ⟨h.senders.executed, fun _ hother => by cases hother⟩
    | complete leaving => exact ⟨h.senders.executed, fun _ hother => by cases hother⟩

/-! ## One step -/

/-- Behind `execute` the clones are all the senders that are left. -/
theorem Senders.hasSender {d : Dispatch} (h : Senders d) (hexecuted : d.execResult.isSome = true) :
    d.hasSender = true ↔ 0 < d.clones := by
  obtain ⟨hproducer, hpusher⟩ := h.executed hexecuted
  simp [Dispatch.hasSender, Dispatch.toolHolds, hproducer, hpusher]

/-- A step leads to a dispatch that is held open where it leaves a clone behind the
terminal and `execute`, and only there. -/
theorem Steady.heldOpen {call : ToolCall} {o o' : Observed} {act : Act} (h : Steady call o)
    (hnot : ¬ o.dispatch.HeldOpen) (hstep : o.step call act = some o') :
    ¬ o'.dispatch.HeldOpen ↔ ClonesDropped o.dispatch act := by
  have hsteady := h.step hstep
  obtain ⟨next, hnext, rfl⟩ := Option.map_eq_some_iff.1 hstep
  cases Dispatch.step_next hnext with
  | clone holds =>
      refine iff_of_true (fun hheld => hnot ?_) trivial
      exact ⟨hheld.selecting, hheld.executed, hheld.received, hheld.empty,
        Dispatch.hasSender_of_toolHolds holds⟩
  | dropClone some =>
      refine iff_of_true (fun hheld => hnot ?_) trivial
      exact ⟨hheld.selecting, hheld.executed, hheld.received, hheld.empty,
        (h.senders.hasSender hheld.executed).2 some⟩
  | send item holds =>
      refine iff_of_true (fun hheld => hnot ?_) trivial
      exact ⟨hheld.selecting, hheld.executed, hheld.received,
        (h.tail.drained_of hheld.received).2, Dispatch.hasSender_of_toolHolds holds⟩
  | execute completion =>
      exact iff_of_true (fun hheld => nomatch hheld.selecting) trivial
  | claim result claiming =>
      obtain ⟨-, hclones, -, hstreamed⟩ := push_locals o.dispatch result
      have hsender := hsteady.senders.hasSender rfl
      change _ ↔ 0 < (o.dispatch.push result).1.clones at hsender
      rw [hclones] at hsender
      constructor
      · intro hnext hreceived
        by_contra hleft
        have hdrained := hsteady.tail.drained_of (hstreamed ▸ hreceived)
        exact hnext ⟨rfl, rfl, hstreamed ▸ hreceived, hdrained.2,
          hsender.2 (Nat.pos_of_ne_zero hleft)⟩
      · intro hdropped hheld
        have hzero := hdropped (hstreamed ▸ hheld.received)
        exact absurd (hsender.1 hheld.waits) (by omega)
  | recvProgress progress queue selecting head =>
      refine iff_of_true (fun hheld => ?_) fun _ hterminal => ?_
      · have hnone := (h.tail.recv head).1
        have hreceived : o.dispatch.streamedTerminal.isSome = true := hheld.received
        rw [hnone] at hreceived
        cases hreceived
      · obtain ⟨item, hitem, hterminal⟩ := hterminal
        rw [head] at hitem
        cases hitem
        cases hterminal
  | recvTerminal result queue selecting head =>
      have hqueue := ((h.tail.recv head).2.1 rfl).2
      constructor
      · intro hnext hexecuted _
        by_contra hleft
        exact hnext ⟨selecting, hexecuted, rfl, hqueue,
          (hsteady.senders.hasSender hexecuted).2 (Nat.pos_of_ne_zero hleft)⟩
      · intro hdropped hheld
        have hzero := hdropped hheld.executed ⟨_, by rw [head]; rfl, rfl⟩
        have hpos := (hsteady.senders.hasSender hheld.executed).1 hheld.waits
        exact absurd (show 0 < o.dispatch.clones from hpos) (by omega)
  | leave selecting empty dropped =>
      exact iff_of_true (fun hheld => nomatch hheld.selecting) trivial
  | complete leaving =>
      exact iff_of_true (fun hheld => nomatch hheld.selecting) trivial

/-! ## Runs -/

/-- The clones are dropped in time where no state of the run is held open. -/
theorem along_iff_not_heldOpen {call : ToolCall} {acts : List Act} {o : Observed}
    (hrun : run (Observed.step call) Observed.start acts = some o) :
    Along (Observed.step call) (fun o act => ClonesDropped o.dispatch act) Observed.start acts ↔
      ∀ before after u, acts = before ++ after →
        run (Observed.step call) Observed.start before = some u → ¬ u.dispatch.HeldOpen :=
  along_iff_good (I := Steady call) (fun _ _ _ h hstep => h.step hstep)
    (fun _ _ _ h hnot hstep => h.heldOpen hnot hstep) (steady_start call)
    (fun hheld => nomatch hheld.executed) hrun

/-- Once `execute` is done and the terminal has been received, the dispatcher
leaves its loop and produces the result, in every run in which no clone of the
stream is left at the later of the two. -/
theorem dispatch_not_held (call : ToolCall) (acts : List Act) (o : Observed)
    (hrun : run (Observed.step call) Observed.start acts = some o)
    (hdropped : Along (Observed.step call) (fun o act => ClonesDropped o.dispatch act)
      Observed.start acts) :
    ¬ o.dispatch.HeldOpen ∧
    (o.dispatch.phase = .selecting → o.dispatch.execResult.isSome = true →
      o.dispatch.streamedTerminal.isSome = true →
      ∃ left done, o.step call .leave = some left ∧ left.step call .complete = some done ∧
        done.dispatch.phase = .finished (messageOf call o.dispatch.result)) := by
  have hnot : ¬ o.dispatch.HeldOpen :=
    (along_iff_not_heldOpen hrun).1 hdropped acts [] o (by simp) hrun
  refine ⟨hnot, fun hselecting hexecuted hreceived => ?_⟩
  have hsteady : Steady call o := Reaches.preserves (fun _ _ _ h hstep => h.step hstep)
    ⟨acts, hrun⟩ (steady_start call)
  have hempty := (hsteady.tail.drained_of hreceived).2
  have hsender : o.dispatch.hasSender = false := by
    cases hwaits : o.dispatch.hasSender with
    | false => rfl
    | true => exact absurd ⟨hselecting, hexecuted, hreceived, hempty, hwaits⟩ hnot
  have hleave : o.dispatch.step call .leave =
      some ({ o.dispatch with phase := .leaving }, Effect.none) := by
    simp only [Dispatch.step, hselecting, hempty, hsender, Bool.false_eq_true, if_false]
  exact ⟨_, _, by rw [Observed.step, hleave]; rfl, rfl, rfl⟩

/-- A tool that keeps a clone of its stream. -/
def keepsClone : List Act :=
  [.clone, .execute (.ready (.ok ⟨[], false, none⟩) none), .claim, .recv]

/-- The dispatcher of such a tool has nothing to receive and nothing else to do,
and it leaves when the clone is dropped. -/
theorem clone_holds_dispatch :
    ∃ o, run (Observed.step ⟨"c1", "read", .null⟩) Observed.start keepsClone = some o ∧
      o.dispatch.HeldOpen ∧
      (∀ act ∈ [Act.claim, .recv, .leave, .complete],
        (o.step ⟨"c1", "read", .null⟩ act).isNone = true) ∧
      (run (Observed.step ⟨"c1", "read", .null⟩) o [.dropClone, .leave, .complete]).isSome = true :=
  ⟨_, rfl, ⟨rfl, rfl, rfl, rfl, rfl⟩, by simp; exact ⟨rfl, rfl, rfl, rfl⟩, rfl⟩

/-- A tool that drops its clone before the terminal is received. -/
def dropsClone : List Act :=
  [.clone, .execute (.ready (.ok ⟨[], false, none⟩) none), .claim, .dropClone, .recv]

theorem dispatch_not_held_dropped :
    ∃ o, run (Observed.step ⟨"c1", "read", .null⟩) Observed.start dropsClone = some o ∧
      ¬ o.dispatch.HeldOpen := by
  have hdropped : Along (Observed.step ⟨"c1", "read", .null⟩)
      (fun o act => ClonesDropped o.dispatch act) Observed.start dropsClone :=
    Along.cons trivial rfl (Along.cons trivial rfl (Along.cons (fun h => nomatch h) rfl
      (Along.cons trivial rfl (Along.cons (fun _ _ => rfl) rfl (Along.nil _)))))
  exact ⟨_, rfl, (dispatch_not_held ⟨"c1", "read", .null⟩ dropsClone _ rfl hdropped).1⟩

end MCode.Agent.ToolCalls
