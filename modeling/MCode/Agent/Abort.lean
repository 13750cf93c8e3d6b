import MCode.Agent.Traffic

/-!
# What an abort does to queued messages

A cancelled turn ends at its next check of the token.  Between some places of
the loop and that check a queue is drained, and what was queued when the turn
was cancelled then goes into the history of the aborted turn.

`drainsNext` lists these places: before the drain at loop entry, behind the
dispatch of the last call of a response, and behind a response that leaves no
call to dispatch.
-/

namespace MCode.Agent.Abort

open MCode.Lib
open MCode.Lib.Lanes
open MCode.Core
open MCode.Provider
open MCode.Agent.ToolCalls
open MCode.Agent.Loop
open MCode.Agent.Traffic

/-- What was queued in `s` is queued in `t`, in order, and not in the
history. -/
def Survives (s t : State) : Prop :=
  ∀ lane, queue s lane <+: queue t lane ∧
    ∀ q ∈ queue s lane, q ∉ entered t

/-- The step drains no queue that had a message in `s`. -/
def Spares (s : State) (u : State) (label : Label) : Prop :=
  ∀ lane, act u label = some (.drain lane) → queue s lane = []

/-- The step drains no queue. -/
def NoDrain (u : State) (label : Label) : Prop :=
  ∀ lane, act u label ≠ some (.drain lane)

/-- The places from which a queue is drained before the token is checked. -/
def drainsNext : Pc → Bool
  | .starting _ => true
  | .entry => true
  | .truncating _ => true
  | .dispatching [] => true
  | .binding _ [] => true
  | .executing _ [] _ => true
  | .answered _ _ [] => true
  | .boundary _ => true
  | .wouldStop => true
  | _ => false

/-- A response that leaves no call to dispatch. -/
def lateResponse : Label → Bool
  | .next (some (.Done message)) => drainsNext (afterResponse message)
  | _ => false

/-- The calls that belong to no aborted turn: the next `prompt`, and
`clear_queues`. -/
def outside : Label → Bool
  | .prompt _ _ => true
  | .clearSteer => true
  | .clearFollowup => true
  | _ => false

/-! ## One queue after the cancellation -/

theorem act_ne_clear {s : State} {label : Label} (h : outside label = false)
    (lane : Lane) : act s label ≠ some (.clear lane) := by
  intro hact
  cases label with
  | clearSteer => cases h
  | clearFollowup => cases h
  | advance =>
      unfold act at hact
      dsimp only at hact
      split at hact <;> cases hact
  | _ => cases hact

/-- The first message of a drained queue is taken. -/
theorem head_taken {serde : SerdeJson} {u v : State} {label : Label} {lane : Lane}
    {q : Queued} (hinv : Invariant u) (hact : act u label = some (.drain lane))
    (hstep : u.step serde label = some v) (hq : (queue u lane).head? = some q) :
    q ∈ (mailbox v).taken := by
  refine List.mem_append_right _ ?_
  show q ∈ v.pending
  rw [drain_pending hinv.settled hact hstep]
  obtain ⟨rest, hqueue⟩ := List.head?_eq_some_iff.1 hq
  rw [hqueue]
  exact mem_drainQueue_head ..

/-- A queue that is not drained keeps what it had. -/
theorem queue_kept {serde : SerdeJson} {s t : State} {labels : List Label}
    {lane : Lane} (hinv : Invariant s)
    (hlabels : ∀ label ∈ labels, outside label = false)
    (hdrain : Machine.Along (State.step serde)
      (fun u label => act u label ≠ some (.drain lane)) s labels)
    (hrun : Machine.run (State.step serde) s labels = some t) :
    queue s lane <+: queue t lane := by
  refine (Machine.run_preserves_along
    (I := fun u => Invariant u ∧ queue s lane <+: queue u lane) ?_
    ((Machine.along_of_labels hlabels).and hdrain)
    ⟨hinv, List.prefix_rfl⟩ hrun).2
  rintro u label v ⟨hu, hgrown⟩ ⟨hlabel, hact⟩ hstep
  refine ⟨hu.step hstep, hgrown.trans ?_⟩
  exact (moves hu.settled hstep).2.queue_grows hact (act_ne_clear hlabel lane)

/-- The first message of a queue that is drained is taken. -/
theorem taken_of_drain {serde : SerdeJson} {s u t : State}
    {before after : List Label} {label : Label} {lane : Lane} {q : Queued}
    (hinv : Invariant s)
    (hlabels : ∀ l ∈ before, outside l = false)
    (hq : (queue s lane).head? = some q)
    (hbefore : Machine.run (State.step serde) s before = some u)
    (hact : act u label = some (.drain lane))
    (hafter : Machine.run (State.step serde) u (label :: after) = some t) :
    q ∈ (mailbox t).taken := by
  obtain ⟨hu, hhead⟩ : Invariant u ∧
      ((queue u lane).head? = some q ∨ q ∈ (mailbox u).taken) := by
    refine Machine.run_preserves
      (I := fun u => Invariant u ∧
        ((queue u lane).head? = some q ∨ q ∈ (mailbox u).taken))
      ?_ hlabels ⟨hinv, Or.inl hq⟩ hbefore
    rintro v l w ⟨hv, hhead⟩ hl hstep
    exact ⟨hv.step hstep,
      (moves hv.settled hstep).2.head_stays (act_ne_clear hl lane) hhead⟩
  obtain ⟨v, hstep, hrest⟩ := Machine.run_cons_some hafter
  have htaken : q ∈ (mailbox v).taken := by
    rcases hhead with hhead | htaken
    · exact head_taken hu hact hstep hhead
    · exact (moves hu.settled hstep).2.taken_grows.subset htaken
  have hboth : Invariant t ∧ q ∈ (mailbox t).taken := by
    have hreach : Machine.Reaches (State.step serde) v t := ⟨after, hrest⟩
    refine hreach.preserves (I := fun t => Invariant t ∧ q ∈ (mailbox t).taken) ?_
      ⟨hu.step hstep, htaken⟩
    rintro w l x ⟨hw, hmem⟩ hx
    exact ⟨hw.step hx, (moves hw.settled hx).2.taken_grows.subset hmem⟩
  exact hboth.2

/-- Queued messages survive exactly if no queue that has one is drained. -/
theorem survives_iff {serde : SerdeJson} {s t : State} {labels : List Label}
    (hinv : Invariant s) (hlabels : ∀ label ∈ labels, outside label = false)
    (hrun : Machine.run (State.step serde) s labels = some t) :
    Survives s t ↔ Machine.Along (State.step serde) (Spares s) s labels := by
  have ht : Invariant t := hinv.reaches ⟨labels, hrun⟩
  constructor
  · intro hsurvives before label after u hsplit hu lane hact
    cases hqueue : queue s lane with
    | nil => rfl
    | cons q rest =>
        exfalso
        subst hsplit
        obtain ⟨u', hu', hrest⟩ := Machine.run_append_some hrun
        obtain rfl : u' = u := by rw [hu] at hu'; exact (Option.some.inj hu').symm
        have htaken : q ∈ (mailbox t).taken :=
          taken_of_drain hinv (fun l hl => hlabels l (List.mem_append_left _ hl))
            (by rw [hqueue]; rfl) hu hact hrest
        have hq : q ∈ queue t lane :=
          (hsurvives lane).1.subset (by rw [hqueue]; exact List.mem_cons_self)
        exact ht.kept.apart htaken hq
  · intro hspares lane
    have hkept : queue s lane <+: queue t lane := by
      by_cases hempty : queue s lane = []
      · rw [hempty]
        exact List.nil_prefix
      · refine queue_kept hinv hlabels ?_ hrun
        intro before label after u hsplit hu hact
        exact hempty (hspares before label after u hsplit hu lane hact)
    refine ⟨hkept, fun q hq hentered => ?_⟩
    exact ht.kept.apart (List.mem_append_left _ hentered) (hkept.subset hq)

/-! ## Where a drain comes before the check -/

/-- A cancelled turn that is at no such place comes to none, unless a
response completes late. -/
theorem checked_step {serde : SerdeJson} {s s' : State} {label : Label}
    (hcancelled : s.cancelled = true) (hpc : drainsNext s.pc = false)
    (hlabel : outside label = false) (hlate : lateResponse label = false)
    (hstep : s.step serde label = some s') :
    s'.cancelled = true ∧ drainsNext s'.pc = false := by
  cases State.step_next hstep with
  | steer | followUp => exact ⟨hcancelled, hpc⟩
  | prompt | clearSteer | clearFollowup => cases hlabel
  | abort cancelled =>
      refine ⟨?_, hpc⟩
      simp only [State.step, Option.some.injEq] at hstep
      split at hstep
      · rw [← hstep]
      · rw [← hstep]
        exact hcancelled
  | cancel => exact ⟨rfl, hpc⟩
  | setQueueMode | inject | delta => exact ⟨hcancelled, hpc⟩
  | start message here | drainEntry here | truncatedEnd here
  | truncate call calls here | dispatchEnd here | drainBoundary calls here
  | stop here | drainFollowup here =>
      rw [here] at hpc
      cases hpc
  | dispatch call calls here going =>
      rw [hcancelled] at going
      cases going
  | answer call message calls here | bindFail binding call calls reason here
  | bound binding call calls here =>
      refine ⟨hcancelled, ?_⟩
      rw [here] at hpc
      cases calls with
      | nil => cases hpc
      | cons next calls => rfl
  | tool act call calls dispatch next here =>
      refine ⟨hcancelled, ?_⟩
      rw [here] at hpc
      unfold State.tool
      dsimp only
      cases calls with
      | nil => cases hpc
      | cons _ _ => split <;> rfl
  | done message here => exact ⟨hcancelled, hlate⟩
  | _ => exact ⟨hcancelled, rfl⟩

/-- A turn at such a place stays at one until it drains. -/
theorem unchecked_step {serde : SerdeJson} {s s' : State} {label : Label}
    (hpc : drainsNext s.pc = true) (hdrain : NoDrain s label)
    (hstep : s.step serde label = some s') : drainsNext s'.pc = true := by
  cases State.step_next hstep with
  | steer | followUp | clearSteer | clearFollowup | abort | cancel => exact hpc
  | start | truncatedEnd | dispatchEnd | truncate => rfl
  | setQueueMode | inject | delta => exact hpc
  | drainEntry here =>
      exact absurd (by simp [act, here]) (hdrain .steer)
  | drainBoundary hasToolCalls here =>
      exact absurd (by simp [act, here]) (hdrain .steer)
  | stop here | drainFollowup here =>
      exact absurd (by simp [act, here]) (hdrain .followUp)
  | answer call message calls here | bindFail binding call calls reason here
  | bound binding call calls here =>
      rw [here] at hpc
      cases calls with
      | nil => rfl
      | cons next calls => cases hpc
  | tool act call calls dispatch next here =>
      rw [here] at hpc
      unfold State.tool
      dsimp only
      cases calls with
      | nil => split <;> rfl
      | cons _ _ => cases hpc
  | checkAbort here =>
      revert hpc here
      cases s.pc <;> simp [Pc.checksToken, drainsNext]
  | fail label error here =>
      rcases here with here | here | here | ⟨request, here⟩ <;> rw [here] at hpc <;>
        cases hpc
  | providerAbort label here =>
      rcases here with here | here <;> rw [here] at hpc <;> cases hpc
  | prompt message cancelled here | injectEnd here | request here
  | requestChecked request here | send request here
  | dispatchAbort call calls here | dispatch call calls here | cancelEnd here
  | cancelCall call calls here | finish result here | valid encoded request here
  | opened here | done message here | streamEnd here =>
      rw [here] at hpc
      cases hpc

/-- A turn at such a place does not end without a drain. -/
theorem drain_before_end {serde : SerdeJson} {s t : State} {labels : List Label}
    (hpc : drainsNext s.pc = true)
    (hrun : Machine.run (State.step serde) s labels = some t)
    (hidle : t.pc = .idle) :
    ¬ Machine.Along (State.step serde) NoDrain s labels := by
  intro hdrain
  have ht : drainsNext t.pc = true :=
    Machine.run_preserves_along (I := fun s => drainsNext s.pc = true)
      (fun _ _ _ hs hl hstep => unchecked_step hs hl hstep) hdrain hpc hrun
  rw [hidle] at ht
  cases ht

theorem drainsNext_lateResponse {serde : SerdeJson} {s s' : State} {label : Label}
    (hlate : lateResponse label = true) (hstep : s.step serde label = some s') :
    drainsNext s'.pc = true := by
  unfold lateResponse at hlate
  split at hlate
  · simp only [State.step] at hstep
    split at hstep
    · cases hstep
      exact hlate
    · cases hstep
  · cases hlate

/-- A cancelled turn that runs to its end drains a queue exactly if it is
cancelled at such a place or a response completes late. -/
theorem no_drain_iff {serde : SerdeJson} {s t : State} {labels : List Label}
    (hcancelled : s.cancelled = true)
    (hlabels : ∀ label ∈ labels, outside label = false)
    (hrun : Machine.run (State.step serde) s labels = some t)
    (hidle : t.pc = .idle) :
    Machine.Along (State.step serde) NoDrain s labels ↔
      drainsNext s.pc = false ∧ ∀ label ∈ labels, lateResponse label = false := by
  constructor
  · intro hdrain
    refine ⟨?_, fun label hlabel => ?_⟩
    · by_contra hpc
      exact drain_before_end (by simpa using hpc) hrun hidle hdrain
    · by_contra hlate
      obtain ⟨before, after, rfl⟩ := List.append_of_mem hlabel
      obtain ⟨u, hu, hrest⟩ := Machine.run_append_some hrun
      obtain ⟨v, hstep, hafter⟩ := Machine.run_cons_some hrest
      have hv : drainsNext v.pc = true :=
        drainsNext_lateResponse (by simpa using hlate) hstep
      have hone : Machine.run (State.step serde) u [label] = some v := by
        simp [hstep]
      refine drain_before_end hv hafter hidle ?_
      have htail : Machine.Along _ _ u ([label] ++ after) := hdrain.append_right hu
      exact htail.append_right hone
  · rintro ⟨hpc, hlate⟩ before label after u hsplit hu lane hact
    subst hsplit
    have hbefore : ∀ l ∈ before, outside l = false ∧ lateResponse l = false :=
      fun l hl => ⟨hlabels l (List.mem_append_left _ hl),
        hlate l (List.mem_append_left _ hl)⟩
    have hchecked : u.cancelled = true ∧ drainsNext u.pc = false :=
      Machine.run_preserves
        (I := fun u => u.cancelled = true ∧ drainsNext u.pc = false)
        (fun _ _ _ hu hl hstep => checked_step hu.1 hu.2 hl.1 hl.2 hstep)
        hbefore ⟨hcancelled, hpc⟩ hu
    obtain ⟨-, ⟨-, hpc | ⟨hasToolCalls, hpc⟩⟩ | ⟨-, hpc⟩⟩ := act_drain hact
    · rw [hpc] at hchecked
      cases hchecked.2
    · rw [hpc] at hchecked
      cases hchecked.2
    · rw [hpc] at hchecked
      cases hchecked.2

/-- **What an abort does to queued messages.**  Take a turn whose token is
cancelled, any run of it to its end (without `clear_queues`), and what was
queued when it was cancelled.  All of it is still queued, in order, and none
of it in the history, exactly if no queue that had a message is drained.  No
queue is drained at all exactly if the token is checked before the next
drain: the cancellation came at no place of `drainsNext` and no response
completed late. -/
theorem queued_messages_survive_abort (serde : SerdeJson)
    (before labels : List Label) (s t : State)
    (hreach : Machine.run (State.step serde) State.new before = some s)
    (hcancelled : s.cancelled = true)
    (hlabels : ∀ label ∈ labels, outside label = false)
    (hrun : Machine.run (State.step serde) s labels = some t)
    (hidle : t.pc = .idle) :
    (Survives s t ↔ Machine.Along (State.step serde) (Spares s) s labels) ∧
    (Machine.Along (State.step serde) NoDrain s labels ↔
      drainsNext s.pc = false ∧ ∀ label ∈ labels, lateResponse label = false) :=
  ⟨survives_iff (invariant_new.reaches ⟨before, hreach⟩) hlabels hrun,
    no_drain_iff hcancelled hlabels hrun hidle⟩

private def input (text : String) : Message := .User ⟨[.Text ⟨text⟩]⟩

/-- A turn with one tool call, a queued steer message and a queued follow-up,
up to the dispatch of the call. -/
private def oneCall : List Label :=
  [.prompt (input "go") false, .advance, .advance, .steer (input "stop"),
    .followUp (input "report"), .advance, .advance, .advance, .validate (some 2),
    .advance, .opened (.ok ()),
    .next (some (.Done ⟨[.ToolCall ⟨"c1", "read", .null⟩], none, .ToolUse⟩)),
    .advance]

/-- The turn is aborted while its last call is dispatched: the steer message
leaves its queue for the history of the aborted turn. -/
theorem steer_lost_to_abort :
    ∃ s t, Machine.run (State.step ⟨fun _ => none, fun _ => ""⟩) State.new
        (oneCall ++ [.abort]) = some s ∧ s.cancelled = true ∧
      Machine.run (State.step ⟨fun _ => none, fun _ => ""⟩) s
        (.bind .unknownTool :: List.replicate 7 .advance) = some t ∧
      t.pc = .idle ∧ t.returned = [.ok .Aborted] ∧
      s.steerQueue = [⟨.steer, 0, input "stop"⟩] ∧ t.steerQueue = [] ∧
      ¬ Survives s t := by
  refine ⟨_, _, rfl, rfl, rfl, rfl, rfl, rfl, rfl, fun h => ?_⟩
  have hlost := (h .steer).1.length_le
  revert hlost
  decide

/-- Cancelled while the response streams, it keeps both messages. -/
theorem queued_messages_survive_abort_streaming :
    ∃ s t, Machine.run (State.step ⟨fun _ => none, fun _ => ""⟩) State.new
        (oneCall.take 11 ++ [.abort]) = some s ∧
      t.returned = [.ok .Aborted] ∧ t.steerQueue.length = 1 ∧ Survives s t := by
  have h := queued_messages_survive_abort ⟨fun _ => none, fun _ => ""⟩
    (oneCall.take 11 ++ [.abort]) [.next none, .advance, .advance] _ _ rfl rfl
    (by simp [outside]) rfl rfl
  refine ⟨_, _, rfl, rfl, rfl, h.1.2 ?_⟩
  intro before label after u hsplit hu lane hact
  exact absurd hact (h.2.2 ⟨rfl, by simp [lateResponse]⟩ before label after u
    hsplit hu lane)

end MCode.Agent.Abort
