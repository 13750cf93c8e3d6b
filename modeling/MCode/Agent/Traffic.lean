import MCode.Lib.Lanes
import MCode.Agent.Steps

/-!
# The queues of an agent as lanes

A message handed to `steer` or `follow_up` waits in its queue, is drained into
the local `pending` of `double_loop` and enters the history from there.  So an
agent is a mailbox with two lanes, and every step of the loop and of its
handles is a move of that mailbox: only the two drains of the loop drain, only
`clear_queues` clears, and a queue is only drained while nothing is pending.
-/

namespace MCode.Agent.Traffic

open MCode.Lib
open MCode.Lib.Lanes
open MCode.Core
open MCode.Provider
open MCode.Agent.ToolCalls
open MCode.Agent.Loop

/-- The queued message that an entry of the history was. -/
def queuedEntry : Entry → Option Queued
  | .queued q => some q
  | _ => none

/-- The queued messages that have entered the history, in order. -/
def entered (s : State) : List Queued := s.history.filterMap queuedEntry

def queue (s : State) : Lane → List Queued
  | .steer => s.steerQueue
  | .followUp => s.followupQueue

def mailbox (s : State) : Mailbox Lane Queued :=
  { queue := queue s
    pending := s.pending
    entered := entered s
    dropped := s.dropped
    journal := s.journal }

/-- What a step does to the queues: `drain_steer` runs at loop entry and
behind a response, `drain_followup` where the agent would stop. -/
def act (s : State) : Label → Option (Lanes.Act Lane Queued)
  | .steer message => some (.post ⟨.steer, s.journal.length, message⟩)
  | .followUp message => some (.post ⟨.followUp, s.journal.length, message⟩)
  | .clearSteer => some (.clear .steer)
  | .clearFollowup => some (.clear .followUp)
  | .advance =>
      match s.pc with
      | .entry => some (.drain .steer)
      | .boundary _ => some (.drain .steer)
      | .wouldStop => some (.drain .followUp)
      | _ => none
  | _ => none

/-- The step does to the mailbox what its label and place say. -/
def AgentMoves (s : State) (label : Label) (s' : State) : Prop :=
  Moves Queued.lane Queued.ticket (mailbox s) (act s label) (mailbox s')

/-- The places at which `prompt` touches neither queue nor pending. -/
def still : Pc → Bool
  | .entry => false
  | .injecting => false
  | .boundary _ => false
  | .wouldStop => false
  | _ => true

theorem act_eq_none {s : State} {label : Label} (hlabel : label.ofTurn = true)
    (hstill : still s.pc = true) : act s label = none := by
  unfold act
  split
  · cases hlabel
  · cases hlabel
  · cases hlabel
  · cases hlabel
  · split
    · rename_i hpc
      rw [hpc] at hstill
      cases hstill
    · rename_i hpc
      rw [hpc] at hstill
      cases hstill
    · rename_i hpc
      rw [hpc] at hstill
      cases hstill
    · rfl
  · rfl

/-- Messages are pending only in the loop that injects them. -/
def Settled (s : State) : Prop := s.pc ≠ .injecting → s.pending = []

/-! ## The mailbox of the next state -/

@[simp] theorem entered_push (s : State) (entry : Entry) :
    entered (s.push entry) = entered s ++ (queuedEntry entry).toList := by
  unfold entered State.push
  rw [List.filterMap_append]
  cases entry <;> rfl

theorem mailbox_push {s : State} {entry : Entry} (h : queuedEntry entry = none) :
    mailbox (s.push entry) = mailbox s := by
  unfold mailbox
  rw [entered_push, h]
  simp only [Option.toList_none, List.append_nil]
  rfl

theorem mailbox_failCall (s : State) (call : ToolCall) (reason : String) :
    mailbox (s.failCall call reason) = mailbox s :=
  mailbox_push (s := (s.emit (.ToolStarted call.id call.name)).emit
    (.ToolCompleted call.id (completedError call reason))) rfl

/-- A move to the mailbox that the next state has, lane by lane. -/
theorem move_to {s s' : State} {label : Label} {m : Mailbox Lane Queued}
    (hmove : Moves Queued.lane Queued.ticket (mailbox s) (act s label) m)
    (hqueue : ∀ lane, queue s' lane = m.queue lane)
    (hrest : mailbox s' = { m with queue := queue s' }) :
    AgentMoves s label s' := by
  have hm : mailbox s' = m := by
    rw [hrest, funext hqueue]
  unfold AgentMoves
  rw [hm]
  exact hmove

/-- A step that leaves the mailbox as it is. -/
theorem stays {s s' : State} {label : Label} (hact : act s label = none)
    (hmailbox : mailbox s' = mailbox s) : AgentMoves s label s' := by
  unfold AgentMoves
  rw [hmailbox, hact]
  exact Moves.stay

/-- A step of the turn at a place that does not touch the mailbox. -/
theorem quiet {s s' : State} {label : Label} (h : Settled s)
    (hstill : still s.pc = true) (hlabel : label.ofTurn = true)
    (hmailbox : mailbox s' = mailbox s) : Settled s' ∧ AgentMoves s label s' := by
  have hpending : s'.pending = s.pending := congrArg Mailbox.pending hmailbox
  refine ⟨fun _ => hpending.trans (h ?_), stays (act_eq_none hlabel hstill) hmailbox⟩
  intro hpc
  rw [hpc] at hstill
  cases hstill

/-- A drain of the queue of `lane`. -/
theorem drained {s s' : State} {label : Label} (lane : Lane) (h : Settled s)
    (hact : act s label = some (.drain lane)) (hne : s.pc ≠ .injecting)
    (hqueue : ∀ other, queue s' other = Function.update (queue s) lane
      (drainQueue s.queueMode (queue s lane)).2 other)
    (hpending : s'.pending = (drainQueue s.queueMode (queue s lane)).1)
    (hrest : mailbox s' =
      { mailbox s with queue := queue s', pending := s'.pending }) :
    AgentMoves s label s' := by
  have hmove : Moves Queued.lane Queued.ticket (mailbox s) _ _ :=
    Moves.drain lane (h hne) _ _ (drainQueue_append s.queueMode (queue s lane)).symm
  rw [← hact] at hmove
  refine move_to hmove hqueue ?_
  rw [hrest, hpending]

/-- Every step is a move of the mailbox. -/
theorem moves {serde : SerdeJson} {s s' : State} {label : Label}
    (h : Settled s) (hstep : s.step serde label = some s') :
    Settled s' ∧ AgentMoves s label s' := by
  cases State.step_next hstep with
  | steer message =>
      refine ⟨h, move_to (Moves.post (Queued.mk .steer s.journal.length message) rfl) ?_ rfl⟩
      rintro (_ | _) <;> rfl
  | followUp message =>
      refine ⟨h, move_to (Moves.post (Queued.mk .followUp s.journal.length message) rfl)
        ?_ rfl⟩
      rintro (_ | _) <;> rfl
  | clearSteer =>
      refine ⟨h, move_to (Moves.clear Lane.steer) ?_ rfl⟩
      rintro (_ | _) <;> rfl
  | clearFollowup clearing =>
      refine ⟨h, move_to (Moves.clear Lane.followUp) ?_ rfl⟩
      rintro (_ | _) <;> rfl
  | abort cancelled => exact ⟨h, stays rfl rfl⟩
  | cancel running => exact ⟨h, stays rfl rfl⟩
  | setQueueMode mode idle => exact ⟨h, stays rfl rfl⟩
  | prompt message cancelled idle => exact ⟨fun _ => h (by rw [idle]; nofun), stays rfl rfl⟩
  | start message here =>
      exact quiet h (by rw [here]; rfl) rfl (mailbox_push (s := s) rfl)
  | drainEntry here =>
      have hne : s.pc ≠ .injecting := by rw [here]; nofun
      refine ⟨fun hinjecting => absurd rfl hinjecting, ?_⟩
      refine drained .steer h (by simp [act, here]) hne ?_ rfl rfl
      rintro (_ | _) <;> rfl
  | inject q pending here next =>
      refine ⟨fun hinjecting => absurd here hinjecting, ?_⟩
      have hact : act s .advance = none := by simp [act, here]
      refine move_to (hact ▸ Moves.enter q pending next) (by rintro (_ | _) <;> rfl) ?_
      have hentered := entered_push s (.queued q)
      simp only [queuedEntry, Option.toList_some] at hentered
      unfold mailbox
      dsimp only
      rw [← hentered]
      rfl
  | injectEnd here empty => exact ⟨fun _ => empty, stays (by simp [act, here]) rfl⟩
  | checkAbort here cancelled =>
      refine quiet h ?_ rfl rfl
      revert here
      cases s.pc <;> simp [Pc.checksToken, still]
  | request here => exact quiet h (by rw [here]; rfl) rfl rfl
  | requestChecked request here => exact quiet h (by rw [here]; rfl) rfl rfl
  | send request here => exact quiet h (by rw [here]; rfl) rfl rfl
  | fail label error here response own =>
      refine quiet h ?_ own rfl
      rcases here with here | here | here | ⟨request, here⟩ <;> rw [here] <;> rfl
  | truncatedEnd here => exact quiet h (by rw [here]; rfl) rfl rfl
  | truncate call calls here =>
      exact quiet h (by rw [here]; rfl) rfl (mailbox_failCall s call _)
  | dispatchEnd here => exact quiet h (by rw [here]; rfl) rfl rfl
  | dispatchAbort call calls here => exact quiet h (by rw [here]; rfl) rfl rfl
  | dispatch call calls here => exact quiet h (by rw [here]; rfl) rfl rfl
  | cancelEnd here => exact quiet h (by rw [here]; rfl) rfl rfl
  | cancelCall call calls here =>
      exact quiet h (by rw [here]; rfl) rfl (mailbox_failCall s call _)
  | answer call message calls here =>
      exact quiet h (by rw [here]; rfl) rfl (mailbox_push (s := s) rfl)
  | drainBoundary hasToolCalls here =>
      have hne : s.pc ≠ .injecting := by rw [here]; nofun
      have hempty : s.pending = [] := h hne
      refine ⟨fun hinjecting => ?_, ?_⟩
      · dsimp only at hinjecting ⊢
        by_contra hpending
        simp [hpending] at hinjecting
      · refine drained .steer h (by simp [act, here]) hne ?_ ?_ rfl
        · rintro (_ | _) <;> rfl
        · simp [hempty, queue]
  | stop here empty =>
      have hne : s.pc ≠ .injecting := by rw [here]; nofun
      refine ⟨fun _ => h hne, ?_⟩
      refine drained .followUp h (by simp [act, here]) hne ?_ ?_ rfl
      · rintro (_ | _) <;> rfl
      · exact (h hne).trans empty.symm
  | drainFollowup here some =>
      have hne : s.pc ≠ .injecting := by rw [here]; nofun
      refine ⟨fun hinjecting => absurd rfl hinjecting, ?_⟩
      refine drained .followUp h (by simp [act, here]) hne ?_ ?_ rfl
      · rintro (_ | _) <;> rfl
      · simp [h hne, queue]
  | finish result here => exact quiet h (by rw [here]; rfl) rfl rfl
  | valid encoded request here => exact quiet h (by rw [here]; rfl) rfl rfl
  | opened here => exact quiet h (by rw [here]; rfl) rfl rfl
  | providerAbort label here response own =>
      refine quiet h ?_ own rfl
      rcases here with here | here <;> rw [here] <;> rfl
  | delta event delta here => exact quiet h (by rw [here]; rfl) rfl rfl
  | done message here =>
      exact quiet h (by rw [here]; rfl) rfl (mailbox_push (s := s) rfl)
  | streamEnd here => exact quiet h (by rw [here]; rfl) rfl rfl
  | bindFail binding call calls reason here =>
      exact quiet h (by rw [here]; rfl) rfl rfl
  | bound binding call calls here => exact quiet h (by rw [here]; rfl) rfl rfl
  | tool act call calls dispatch next here =>
      exact quiet h (by rw [here]; rfl) rfl rfl

/-- A drain runs where the loop has it. -/
theorem act_drain {s : State} {label : Label} {lane : Lane}
    (h : act s label = some (.drain lane)) :
    label = .advance ∧
      (lane = .steer ∧ (s.pc = .entry ∨ ∃ hasToolCalls, s.pc = .boundary hasToolCalls) ∨
        lane = .followUp ∧ s.pc = .wouldStop) := by
  unfold act at h
  split at h
  · cases h
  · cases h
  · cases h
  · cases h
  · refine ⟨rfl, ?_⟩
    split at h
    · rename_i hpc
      cases h
      exact Or.inl ⟨rfl, Or.inl hpc⟩
    · rename_i hasToolCalls hpc
      cases h
      exact Or.inl ⟨rfl, Or.inr ⟨hasToolCalls, hpc⟩⟩
    · rename_i hpc
      cases h
      exact Or.inr ⟨rfl, hpc⟩
    · cases h
  · cases h

/-- A drain makes pending what `drain_queue` takes. -/
theorem drain_pending {serde : SerdeJson} {s s' : State} {label : Label}
    {lane : Lane} (h : Settled s) (hact : act s label = some (.drain lane))
    (hstep : s.step serde label = some s') :
    s'.pending = (drainQueue s.queueMode (queue s lane)).1 := by
  obtain ⟨rfl, ⟨rfl, hpc | ⟨hasToolCalls, hpc⟩⟩ | ⟨rfl, hpc⟩⟩ := act_drain hact
  · simp only [State.step, State.advance, hpc, Option.some.injEq] at hstep
    subst hstep
    rfl
  · have hpending : s.pending = [] := h (by simp [hpc])
    simp only [State.step, State.advance, hpc, hpending, Option.some.injEq] at hstep
    subst hstep
    rfl
  · have hpending : s.pending = [] := h (by simp [hpc])
    simp only [State.step, State.advance, hpc, hpending] at hstep
    split at hstep
    · rename_i hempty
      cases hstep
      exact (List.isEmpty_iff.1 hempty).symm
    · cases hstep
      rfl

/-! ## The invariant of the queues -/

/-- The mailbox of an agent in a reachable state. -/
structure Invariant (s : State) : Prop where
  settled : Settled s
  kept : Kept Queued.lane Queued.ticket (mailbox s)

theorem invariant_new : Invariant State.new where
  settled := fun _ => rfl
  kept :=
    { tickets := rfl
      lanes := by rintro (_ | _) a ha <;> simp [mailbox, queue, State.new] at ha
      placed := by rintro (_ | _) <;> exact List.Perm.refl _
      ordered := by rintro (_ | _) <;> exact List.Sublist.refl _ }

theorem Invariant.step {serde : SerdeJson} {s s' : State} {label : Label}
    (h : Invariant s) (hstep : s.step serde label = some s') : Invariant s' := by
  obtain ⟨hsettled, hmove⟩ := moves h.settled hstep
  exact ⟨hsettled, h.kept.step hmove⟩

theorem Invariant.reaches {serde : SerdeJson} {s s' : State} (h : Invariant s)
    (hreach : Machine.Reaches (State.step serde) s s') : Invariant s' :=
  hreach.preserves (fun _ _ _ hs hstep => hs.step hstep) h

end MCode.Agent.Traffic
