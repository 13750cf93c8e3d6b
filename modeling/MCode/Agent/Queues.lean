import MCode.Agent.Traffic

/-!
# Conservation and priority of queued messages

Whatever the handles, the turns and the provider do, no queued message is
lost or duplicated, and the messages of one queue enter the history in the
order they were queued.

A steer message is meant to be ahead of any follow-up.  The loop drains the
steer queue behind a response and then, in a separate step, the follow-up
queue.  A steer message that is queued between the two is overtaken by the
follow-ups drained there, and only such a message is.
-/

namespace MCode.Agent.Queues

open MCode.Lib
open MCode.Lib.Lanes
open MCode.Core
open MCode.Provider
open MCode.Agent.ToolCalls
open MCode.Agent.Loop
open MCode.Agent.Traffic

/-- The message that a call of `steer` or `follow_up` queues. -/
def queuedBy : Label → Option (Lane × Message)
  | .steer message => some (.steer, message)
  | .followUp message => some (.followUp, message)
  | _ => none

/-- Every message queued by the calls in `labels` is in exactly one place: in
the history, dropped by `clear_queues`, or in its queue. -/
structure Conserved (labels : List Label) (s : State) : Prop where
  calls : s.journal.map (fun q => (q.lane, q.message)) =
    labels.filterMap queuedBy
  numbered : s.journal.map Queued.ticket = List.range s.journal.length
  lanes : ∀ lane, ∀ q ∈ queue s lane, q.lane = lane
  placed : (entered s ++ s.dropped ++ s.steerQueue ++ s.followupQueue).Perm
    s.journal

/-- The messages of each queue entered in the order they were queued. -/
def InOrder (s : State) : Prop :=
  ∀ lane, (inLane Queued.lane lane (entered s)).Sublist s.journal

/-- No follow-up that this step takes enters the history of `s` before a
steer message that is in its queue at this step. -/
def Prioritizes (s : State) (u : State) (label : Label) : Prop :=
  act u label = some (.drain .followUp) →
    ∀ f ∈ (drainQueue u.queueMode u.followupQueue).1, ∀ q ∈ u.steerQueue,
      ¬ Overtakes f q (entered s)

/-- The step takes follow-ups only while no steer message is queued. -/
def WaitsForSteers (u : State) (label : Label) : Prop :=
  act u label = some (.drain .followUp) →
    u.steerQueue = [] ∨ u.followupQueue = []

/-! ## Conservation -/

theorem posted_act (s : State) (label : Label) :
    ((act s label).bind Lanes.Act.posted).map (fun q => (q.lane, q.message)) =
      queuedBy label := by
  cases label with
  | advance =>
      unfold act
      dsimp only
      split <;> rfl
  | _ => rfl

/-- The journal is the calls of `steer` and `follow_up`. -/
theorem journal_calls {serde : SerdeJson} {labels : List Label} {s : State}
    (h : Machine.run (State.step serde) State.new labels = some s) :
    s.journal.map (fun q => (q.lane, q.message)) =
      labels.filterMap queuedBy := by
  refine Machine.run_history
    (I := fun history s =>
      s.journal.map (fun q => (q.lane, q.message)) = history.filterMap queuedBy)
    rfl ?_ h
  intro history u label v hrun hu hstep
  have hinv : Invariant u := invariant_new.reaches ⟨history, hrun⟩
  have hjournal : v.journal = _ := (moves hinv.settled hstep).2.journal
  rw [hjournal, List.map_append, List.filterMap_append]
  refine congrArg₂ _ hu ?_
  rw [List.filterMap_cons, List.filterMap_nil, ← posted_act u label]
  cases (act u label).bind Lanes.Act.posted <;> rfl

/-- Both lanes together. -/
theorem filter_lanes_perm (items : List Queued) :
    (inLane Queued.lane .steer items ++ inLane Queued.lane .followUp items).Perm
      items := by
  have hother : inLane Queued.lane .followUp items =
      items.filter (fun q => !decide (q.lane = .steer)) := by
    refine List.filter_congr fun q _ => ?_
    cases q.lane <;> rfl
  rw [hother]
  exact List.filter_append_perm _ items

theorem conserved {serde : SerdeJson} {labels : List Label} {s : State}
    (h : Machine.run (State.step serde) State.new labels = some s)
    (hidle : s.pc = .idle) : Conserved labels s := by
  have hinv : Invariant s := invariant_new.reaches ⟨labels, h⟩
  have hpending : s.pending = [] := hinv.settled (by rw [hidle]; nofun)
  refine ⟨journal_calls h, hinv.kept.tickets, hinv.kept.lanes, ?_⟩
  have htaken : (mailbox s).taken = entered s := by
    show entered s ++ s.pending = entered s
    rw [hpending, List.append_nil]
  classical
  rw [List.perm_iff_count]
  intro q
  have hsteer := (hinv.kept.placed .steer).count_eq q
  have hfollow := (hinv.kept.placed .followUp).count_eq q
  have hentered := (filter_lanes_perm (entered s)).count_eq q
  have hdropped := (filter_lanes_perm s.dropped).count_eq q
  have hjournal := (filter_lanes_perm s.journal).count_eq q
  unfold Mailbox.stream at hsteer hfollow
  rw [htaken] at hsteer hfollow
  simp only [mailbox, queue, List.count_append] at *
  omega

theorem in_order {serde : SerdeJson} {labels : List Label} {s : State}
    (h : Machine.run (State.step serde) State.new labels = some s) :
    InOrder s :=
  fun lane => (invariant_new.reaches ⟨labels, h⟩ : Invariant s).kept.entered_sublist lane

/-! ## Priority -/

/-- A follow-up taken while a steer message is queued overtakes it. -/
theorem overtaking_drain {serde : SerdeJson} {u v : State} {label : Label}
    (hinv : Invariant u) (hact : act u label = some (.drain .followUp))
    (hstep : u.step serde label = some v) {f q : Queued}
    (hf : f ∈ (drainQueue u.queueMode u.followupQueue).1)
    (hq : q ∈ u.steerQueue) : Overtaking f q (mailbox v) := by
  have hmove := (moves hinv.settled hstep).2
  have hgrown : u.steerQueue <+: v.steerQueue :=
    hmove.queue_grows (k := .steer) (by simp [hact]) (by simp [hact])
  refine Or.inl ⟨?_, fun htaken => ?_⟩
  · show f ∈ v.pending
    rw [drain_pending hinv.settled hact hstep]
    exact hf
  · exact (hinv.step hstep).kept.apart htaken (k := .steer) (hgrown.subset hq)

/-- It has overtaken it when no turn runs any more. -/
theorem Overtaking.done {serde : SerdeJson} {u s : State} {labels : List Label}
    {f q : Queued} (hinv : Invariant u) (h : Overtaking f q (mailbox u))
    (hrun : Machine.run (State.step serde) u labels = some s)
    (hidle : s.pc = .idle) : Overtakes f q (entered s) := by
  have hboth : Invariant s ∧ Overtaking f q (mailbox s) :=
    Machine.Reaches.preserves
      (I := fun s => Invariant s ∧ Overtaking f q (mailbox s))
      (fun u label v hu hstep =>
        ⟨hu.1.step hstep, hu.2.step (moves hu.1.settled hstep).2⟩)
      ⟨labels, hrun⟩ ⟨hinv, h⟩
  obtain ⟨hs, ⟨hpending, -⟩ | hovertakes⟩ := hboth
  · have hempty : s.pending = [] := hs.settled (by rw [hidle]; nofun)
    simp [mailbox, hempty] at hpending
  · exact hovertakes

/-! ## The gap between the two drains -/

/-- No steer message is queued between the drain of the steer queue behind a
response and the drain of the follow-up queue. -/
def GapClosed (u : State) (label : Label) : Prop :=
  u.pc = .wouldStop → ∀ message, label ≠ .steer message

theorem steerQueue_boundary {s : State} {hasToolCalls : Bool}
    (h : (if hasToolCalls ||
        !(s.pending ++ (drainQueue s.queueMode s.steerQueue).1).isEmpty
      then Pc.injecting else .wouldStop) = .wouldStop) :
    (drainQueue s.queueMode s.steerQueue).2 = [] := by
  split at h
  · cases h
  · rename_i hstop
    simp only [Bool.or_eq_true, Bool.not_eq_true', List.isEmpty_eq_false_iff,
      not_or, not_not, List.append_eq_nil_iff] at hstop
    have htaken := hstop.2.2
    cases hqueue : s.steerQueue with
    | nil => cases s.queueMode <;> rfl
    | cons q rest =>
        have hq := mem_drainQueue_head s.queueMode q rest
        rw [← hqueue, htaken] at hq
        cases hq

/-- Where the agent would stop, the steer queue is empty. -/
theorem steerQueue_wouldStop {serde : SerdeJson} {s s' : State} {label : Label}
    (h : s.pc = .wouldStop → s.steerQueue = []) (hgap : GapClosed s label)
    (hstep : s.step serde label = some s') :
    s'.pc = .wouldStop → s'.steerQueue = [] := by
  cases State.step_next hstep with
  | steer message => exact fun hpc => absurd rfl (hgap hpc message)
  | clearSteer => exact fun _ => rfl
  | followUp | clearFollowup | abort | cancel | setQueueMode => exact h
  | inject q pending here | injectEnd here | delta event delta here =>
      intro hpc
      first
        | cases hpc
        | exact absurd (here.symm.trans hpc) (by nofun)
  | drainBoundary hasToolCalls here => exact steerQueue_boundary
  | done message here =>
      intro hpc
      unfold afterResponse at hpc
      dsimp only at hpc
      split at hpc
      · cases hpc
      · split at hpc <;> cases hpc
  | tool act call calls dispatch next here =>
      intro hpc
      unfold State.tool at hpc
      dsimp only at hpc
      split at hpc <;> cases hpc
  | _ => exact fun hpc => by cases hpc

/-- **Priority without a late steer.**  In every run in which no steer message comes into
the gap, no follow-up that is taken enters the history before a steer message that is queued
then. -/
theorem prioritizes_of_gap_closed (serde : SerdeJson) (labels : List Label) (s : State)
    (hgap : Machine.Along (State.step serde) GapClosed State.new labels) :
    Machine.Along (State.step serde) (Prioritizes s) State.new labels := by
  intro before label after u hsplit hu hact f hf q hq
  rw [hsplit] at hgap
  have hempty : u.pc = .wouldStop → u.steerQueue = [] :=
    Machine.run_preserves_along (fun _ _ _ hs hl hstep => steerQueue_wouldStop hs hl hstep)
      hgap.append_left (fun _ => rfl) hu
  obtain ⟨-, ⟨hlane, -⟩ | ⟨-, hpc⟩⟩ := act_drain hact
  · cases hlane
  · rw [hempty hpc] at hq
    cases hq

/-- **Conservation and priority.**  Over every interleaving of calls of
handles with every sequence of `prompt` runs: the messages of one queue enter
the history in order, and while no turn runs every queued message is in
exactly one place.  Follow-ups enter behind the steer messages queued when
they were taken if each drain of follow-ups finds the steer queue empty, and
then only. -/
theorem queued_messages_conserved (serde : SerdeJson) (labels : List Label)
    (s : State) (h : Machine.run (State.step serde) State.new labels = some s) :
    InOrder s ∧
    (s.pc = .idle → Conserved labels s) ∧
    (Machine.Along (State.step serde) WaitsForSteers State.new labels →
      Machine.Along (State.step serde) (Prioritizes s) State.new labels) ∧
    (s.pc = .idle →
      Machine.Along (State.step serde) (Prioritizes s) State.new labels →
      Machine.Along (State.step serde) WaitsForSteers State.new labels) := by
  refine ⟨in_order h, conserved h, ?_, ?_⟩
  · intro hwaits before label after u hsplit hu hact f hf q hq
    rcases hwaits before label after u hsplit hu hact with hempty | hempty
    · rw [hempty] at hq
      cases hq
    · rw [hempty] at hf
      have : f ∈ ([] : List Queued) := mem_drainQueue (Or.inl hf)
      cases this
  · intro hidle hprior before label after u hsplit hu hact
    cases hsteers : u.steerQueue with
    | nil => exact Or.inl rfl
    | cons q steers =>
        cases hfollows : u.followupQueue with
        | nil => exact Or.inr rfl
        | cons f follows =>
            exfalso
            have hf : f ∈ (drainQueue u.queueMode u.followupQueue).1 := by
              rw [hfollows]
              exact mem_drainQueue_head ..
            have hq : q ∈ u.steerQueue := by
              rw [hsteers]
              exact List.mem_cons_self
            have hinv : Invariant u := invariant_new.reaches ⟨before, hu⟩
            rw [hsplit] at h
            obtain ⟨u', hu', hrest⟩ := Machine.run_append_some h
            obtain rfl : u' = u := by rw [hu] at hu'; exact (Option.some.inj hu').symm
            obtain ⟨v, hstep, hafter⟩ := Machine.run_cons_some hrest
            refine hprior before label after _ hsplit hu hact f hf q hq ?_
            exact Overtaking.done (hinv.step hstep)
              (overtaking_drain hinv hact hstep hf hq) hafter hidle

private def overtakenSteer : Message := .User ⟨[.Text ⟨"stop"⟩]⟩

private def nudge : Message := .User ⟨[.Text ⟨"report"⟩]⟩

private def response : List Label :=
  [.advance, .advance, .advance, .validate (some 2), .advance, .opened (.ok ()),
    .next (some (.Done ⟨[], none, .Stop⟩))]

/-- A steer message arrives between the two drains behind a response. -/
private def lateSteer : List Label :=
  [.prompt (.User ⟨[.Text ⟨"go"⟩]⟩) false, .followUp nudge, .advance, .advance] ++
    response ++ [.advance, .steer overtakenSteer, .advance, .advance] ++
    response ++ [.advance, .advance] ++ response ++ [.advance, .advance, .advance]

/-- The follow-up enters before the steer message that was queued already. -/
theorem late_steer_overtaken :
    ∃ s, Machine.run (State.step ⟨fun _ => none, fun _ => ""⟩) State.new
        lateSteer = some s ∧ s.pc = .idle ∧
      entered s = [⟨.followUp, 0, nudge⟩, ⟨.steer, 1, overtakenSteer⟩] ∧
      ¬ Machine.Along (State.step ⟨fun _ => none, fun _ => ""⟩) (Prioritizes s)
        State.new lateSteer := by
  refine ⟨_, rfl, rfl, rfl, fun h => ?_⟩
  refine h (lateSteer.take 13) .advance (lateSteer.drop 14) _ rfl rfl rfl
    ⟨.followUp, 0, nudge⟩ List.mem_cons_self ⟨.steer, 1, overtakenSteer⟩
    List.mem_cons_self ⟨[], _, rfl, ?_⟩
  exact List.not_mem_nil

theorem queued_messages_conserved_late_steer :
    ∃ s, Machine.run (State.step ⟨fun _ => none, fun _ => ""⟩) State.new
        lateSteer = some s ∧ InOrder s ∧ Conserved lateSteer s :=
  have h := queued_messages_conserved ⟨fun _ => none, fun _ => ""⟩ lateSteer _ rfl
  ⟨_, rfl, h.1, h.2.1 rfl⟩

/-- A steer message behind a follow-up that is queued, not in the gap. -/
private def earlySteer : List Label :=
  .prompt (.User ⟨[.Text ⟨"go"⟩]⟩) false :: .followUp nudge :: .steer overtakenSteer ::
    ([.advance, .advance, .advance] ++ response ++ [.advance, .advance, .advance])

theorem prioritizes_of_gap_closed_early :
    ∃ s, Machine.run (State.step ⟨fun _ => none, fun _ => ""⟩) State.new earlySteer = some s ∧
      Machine.Along (State.step ⟨fun _ => none, fun _ => ""⟩) (Prioritizes s) State.new
        earlySteer := by
  refine ⟨_, rfl, prioritizes_of_gap_closed _ _ _ (.cons (fun _ _ => nofun) rfl
    (.cons (fun _ _ => nofun) rfl (.cons (fun hpc => nomatch hpc) rfl ?_)))⟩
  intro before label after u hsplit _ _ message heq
  have hin : label ∈ before ++ label :: after := by simp
  rw [← hsplit, heq] at hin
  simp [response] at hin

end MCode.Agent.Queues
