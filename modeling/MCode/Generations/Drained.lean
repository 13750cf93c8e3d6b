import MCode.Generations.Phases

/-!
# Waiting for the last activity

`wait_drained` and the `notify_one` at the end of the last `release`
(`mcode-plugin-host/src/generation.rs`).

`notify_one` wakes one of the calls that wait or leaves one permit, so a fence
that has drained leaves nobody waiting as long as that notification finds at
most one call to wake.  A second one keeps waiting: no activity is left whose
release could notify it.
-/

namespace MCode.Generations

open MCode.Lib MCode.Lib.Machine

/-! ## Waits and notifications -/

/-- A `release` of the last activity that has yet to notify. -/
def Call.notifies : Call → Bool
  | .enterNotifying | .activityNotifying => true
  | _ => false

/-- A `wait_drained` that has seen an activity and has not polled yet. -/
def Call.polls : Call → Bool
  | .waitPolling => true
  | _ => false

/-- A call is parked on its notification. -/
def Parked (s : System) (i : Nat) : Prop :=
  s.calls[i]? = some .waitBlocked ∧ i ∈ s.fence.drained.waiters

/-- The calls that a notification could be for. -/
def waiting (s : System) : Nat :=
  s.fence.drained.waiters.length + s.calls.countP Call.polls

/-- The notification of a drained fence, with none to follow it, finds at most
one call that waits. -/
def OneWaits (s : System) : Label → Prop
  | .tick i _ => s.calls[i]?.any Call.notifies = true →
      generationActivityCount s.fence.state = 0 → s.calls.countP Call.notifies = 1 →
      waiting s ≤ 1
  | _ => True

/-- Once the fence has drained and has notified, nobody waits but a call that
the permit is for. -/
def Awake (s : System) : Prop :=
  generationActivityCount s.fence.state = 0 → s.calls.countP Call.notifies = 0 →
    waiting s ≤ s.fence.drained.permit.toNat

/-- What one operation does to the waits. -/
inductive WaitEffect (fence : Fence) (i : Nat) (call : Call) (fence' : Fence) (call' : Call) :
    Prop where
  | quiet (drained : fence'.drained = fence.drained)
      (notifies : call.notifies = false ∧ call'.notifies = false)
      (polls : call.polls = false ∧ call'.polls = false)
      (count : generationActivityCount fence'.state = 0 → generationActivityCount fence.state = 0)
  | drains (drained : fence'.drained = fence.drained)
      (notifies : call.notifies = false ∧ call'.notifies = true)
  | notify (notifies : call.notifies = true ∧ call'.notifies = false)
      (polls : call.polls = false ∧ call'.polls = false)
      (result : fence' = { fence with drained := fence.drained.notifyOne })
  | sees (drained : fence'.drained = fence.drained) (notifies : call.notifies = false)
      (count : generationActivityCount fence'.state ≠ 0)
  | takes (before : call = .waitPolling) (after : call' = .waitDrained)
      (permit : fence.drained.permit = true)
      (result : fence' = { fence with drained := { fence.drained with permit := false } })
  | parks (before : call = .waitPolling) (after : call' = .waitBlocked)
      (permit : fence.drained.permit = false)
      (result : fence' = { fence with
        drained := { fence.drained with waiters := fence.drained.waiters ++ [i] } })

theorem release_waits {fence fence' : Fence} {i : Nat} {call call' notifying done : Call}
    (hcall : call.notifies = false ∧ call.polls = false) (hnotifying : notifying.notifies = true)
    (hdone : done.notifies = false ∧ done.polls = false)
    (hcount : generationActivityCount fence.state ≠ 0)
    (h : release fence notifying done = (fence', call')) :
    WaitEffect fence i call fence' call' := by
  unfold release at h
  rw [if_neg hcount] at h
  cases h
  by_cases hlast : generationActivityCount fence.state = 1
  · rw [if_pos hlast]
    exact .drains rfl ⟨hcall.1, hnotifying⟩
  · rw [if_neg hlast]
    refine .quiet rfl ⟨hcall.1, hdone.1⟩ ⟨hcall.2, hdone.2⟩ fun hzero => ?_
    -- two activities at least, so one is left
    have hleft := release_activities hcount
    unfold activities at hleft
    rw [hzero] at hleft
    exact absurd (BitVec.toNat_inj.1 hleft.symm) hlast

/-- The waits are changed by `wait_drained` and by the last release. -/
theorem advance_waits {fence fence' : Fence} {i : Nat} {flag : Bool} {call call' : Call}
    (hcount : call.counts = true → generationActivityCount fence.state ≠ 0)
    (h : advance fence i flag call = some (fence', call')) :
    WaitEffect fence i call fence' call' := by
  cases call with
  | enterRollback =>
      exact release_waits ⟨rfl, rfl⟩ rfl ⟨rfl, rfl⟩ (hcount rfl) (Option.some.inj h)
  | activity epoch =>
      exact release_waits ⟨rfl, rfl⟩ rfl ⟨rfl, rfl⟩ (hcount rfl) (Option.some.inj h)
  | enterNotifying =>
      cases h
      exact .notify ⟨rfl, rfl⟩ ⟨rfl, rfl⟩ rfl
  | activityNotifying =>
      cases h
      exact .notify ⟨rfl, rfl⟩ ⟨rfl, rfl⟩ rfl
  | waitDrained =>
      dsimp only [advance] at h
      split at h
      · cases h
        exact .quiet rfl ⟨rfl, rfl⟩ ⟨rfl, rfl⟩ id
      · rename_i hbusy
        cases h
        exact .sees rfl rfl hbusy
  | waitPolling =>
      dsimp only [advance] at h
      split at h
      · rename_i hpermit
        cases h
        exact .takes rfl rfl hpermit rfl
      · rename_i hpermit
        cases h
        exact .parks rfl rfl (Bool.not_eq_true _ ▸ hpermit) rfl
  | enterTrying epoch state =>
      dsimp only [advance] at h
      split at h
      · cases h
        exact .quiet rfl ⟨rfl, rfl⟩ ⟨rfl, rfl⟩ id
      rename_i hroom
      split at h
      · rename_i hsame
        obtain ⟨rfl, -⟩ := hsame
        cases h
        simp only [Bool.or_eq_true, decide_eq_true_eq, not_or, not_not] at hroom
        refine .quiet rfl ⟨rfl, rfl⟩ ⟨rfl, rfl⟩ fun hzero => ?_
        have hmore := reserve_activities hroom.2
        unfold activities at hmore
        rw [hzero] at hmore
        exact absurd hmore (Nat.succ_ne_zero _).symm
      · cases h
        exact .quiet rfl ⟨rfl, rfl⟩ ⟨rfl, rfl⟩ id
  | retireTrying state =>
      dsimp only [advance] at h
      split at h
      · cases h
        exact .quiet rfl ⟨rfl, rfl⟩ ⟨rfl, rfl⟩ id
      split at h
      · cases h
        exact .quiet rfl ⟨rfl, rfl⟩ ⟨rfl, rfl⟩ id
      split at h
      · rename_i hsame
        obtain ⟨rfl, -⟩ := hsame
        cases h
        exact .quiet rfl ⟨rfl, rfl⟩ ⟨rfl, rfl⟩ fun hzero => by rwa [retired_count] at hzero
      · cases h
        exact .quiet rfl ⟨rfl, rfl⟩ ⟨rfl, rfl⟩ id
  | markCurrent =>
      dsimp only [advance] at h
      split at h
      · rename_i hpreparing
        cases h
        refine .quiet rfl ⟨rfl, rfl⟩ ⟨rfl, rfl⟩ fun _ => ?_
        rw [hpreparing]
        decide
      · cases h
        exact .quiet rfl ⟨rfl, rfl⟩ ⟨rfl, rfl⟩ id
  | _ =>
      dsimp only [advance] at h
      repeat' split at h
      all_goals cases h
      all_goals exact .quiet rfl ⟨rfl, rfl⟩ ⟨rfl, rfl⟩ id

/-! ## One step -/

/-- A permit is left only where nobody is parked. -/
def PermitSpare (s : System) : Prop :=
  s.fence.drained.permit = true → s.fence.drained.waiters = []

theorem notifyOne_spare {drained : Notify} (h : drained.permit = true → drained.waiters = []) :
    drained.notifyOne.permit = true → drained.notifyOne.waiters = [] := by
  unfold Notify.notifyOne
  cases hwaiters : drained.waiters with
  | nil => exact fun _ => rfl
  | cons first rest =>
      intro hpermit
      rw [h hpermit] at hwaiters
      cases hwaiters

theorem step_permitSpare (s : System) (label : Label) (t : System)
    (h : Fenced s ∧ PermitSpare s) (hstep : step s label = some t) : PermitSpare t := by
  obtain ⟨hfenced, hspare⟩ := h
  cases label with
  | start start =>
      dsimp only [step] at hstep
      split at hstep
      · cases hstep
        exact hspare
      · cases hstep
  | publish epoch =>
      dsimp only [step] at hstep
      split at hstep
      · cases hstep
        exact hspare
      · cases hstep
  | tick i flag =>
      obtain ⟨call, fence', call', hcall, hadvance, rfl⟩ := step_tick hstep
      have heffect := advance_waits (hfenced.counted (List.mem_of_getElem? hcall)) hadvance
      unfold PermitSpare
      cases heffect with
      | quiet drained => rw [drained]; exact hspare
      | drains drained => rw [drained]; exact hspare
      | sees drained => rw [drained]; exact hspare
      | notify _ _ result => rw [result]; exact notifyOne_spare hspare
      | takes _ _ _ result => rw [result]; exact nofun
      | parks _ _ permit result =>
          rw [result]
          exact fun htrue => absurd (permit.symm.trans htrue) Bool.false_ne_true

/-- What is left of the waits behind a notification. -/
theorem waiting_notifyOne (drained : Notify) (polls : Nat)
    (hspare : drained.permit = true → drained.waiters = []) :
    drained.notifyOne.waiters.length + polls ≤ drained.notifyOne.permit.toNat ↔
      drained.waiters.length + polls ≤ 1 := by
  unfold Notify.notifyOne
  cases hwaiters : drained.waiters with
  | nil => exact Iff.rfl
  | cons first rest =>
      have hpermit : drained.permit = false := by
        cases htrue : drained.permit with
        | false => rfl
        | true =>
            rw [hspare htrue] at hwaiters
            cases hwaiters
      rw [hpermit]
      simp only [List.length_cons, Bool.toNat_false]
      omega

/-- A step of a fence where nobody waits in vain leaves somebody to wait in vain
where its notification finds two calls that wait, and only there. -/
theorem step_awake {s t : System} {label : Label} (hfenced : Fenced s) (hspare : PermitSpare s)
    (h : Awake s) (hstep : step s label = some t) : Awake t ↔ OneWaits s label := by
  cases label with
  | start start =>
      refine iff_of_true ?_ trivial
      dsimp only [step] at hstep
      split at hstep
      · cases hstep
        have hidle : start.call.notifies = false ∧ start.call.polls = false := by
          cases start <;> exact ⟨rfl, rfl⟩
        unfold Awake waiting at h ⊢
        simpa [hidle.1, hidle.2] using h
      · cases hstep
  | publish epoch =>
      refine iff_of_true ?_ trivial
      dsimp only [step] at hstep
      split at hstep
      · cases hstep
        exact h
      · cases hstep
  | tick i flag =>
      obtain ⟨call, fence', call', hcall, hadvance, rfl⟩ := step_tick hstep
      have heffect := advance_waits (hfenced.counted (List.mem_of_getElem? hcall)) hadvance
      have hnotifies := countP_set_add hcall Call.notifies call'
      have hpolls := countP_set_add hcall Call.polls call'
      have hquiet : call.notifies = false → OneWaits s (.tick i flag) := by
        intro hfalse htrue
        rw [hcall] at htrue
        exact absurd (hfalse.symm.trans htrue) Bool.false_ne_true
      unfold Awake waiting at h ⊢
      dsimp only
      cases heffect with
      | quiet drained notifies polls count =>
          rw [notifies.1, notifies.2] at hnotifies
          rw [polls.1, polls.2] at hpolls
          refine iff_of_true (fun hzero hnone => ?_) (hquiet notifies.1)
          rw [drained, Nat.add_right_cancel hpolls]
          exact h (count hzero) (Nat.add_right_cancel hnotifies ▸ hnone)
      | drains drained notifies =>
          rw [notifies.1, notifies.2] at hnotifies
          refine iff_of_true (fun _ hnone => ?_) (hquiet notifies.1)
          rw [hnone] at hnotifies
          simp at hnotifies
      | sees drained notifies count =>
          exact iff_of_true (fun hzero => absurd hzero count) (hquiet notifies)
      | takes before after permit result =>
          subst before after result
          simp only [Call.notifies, Call.polls, Bool.toNat_false, Bool.toNat_true,
            Nat.add_zero] at hpolls hnotifies
          refine iff_of_true (fun hzero hnone => ?_) (hquiet rfl)
          -- the permit was for the call that takes it
          have hone := h hzero (hnotifies ▸ hnone)
          rw [permit, Bool.toNat_true] at hone
          show s.fence.drained.waiters.length + _ ≤ 0
          omega
      | parks before after permit result =>
          subst before after result
          simp only [Call.notifies, Call.polls, Bool.toNat_false, Bool.toNat_true,
            Nat.add_zero] at hpolls hnotifies
          refine iff_of_true (fun hzero hnone => ?_) (hquiet rfl)
          -- a call polls without a permit only while the fence is in use
          have hnobody := h hzero (hnotifies ▸ hnone)
          rw [permit, Bool.toNat_false] at hnobody
          omega
      | notify notifies polls result =>
          rw [notifies.1, notifies.2] at hnotifies
          rw [polls.1, polls.2] at hpolls
          subst result
          dsimp only
          rw [Nat.add_right_cancel hpolls, waiting_notifyOne _ _ hspare]
          constructor
          · intro hle _ hzero hone
            exact hle hzero (by rw [hone] at hnotifies; simpa using hnotifies)
          · intro hone hzero hnone
            refine hone (by rw [hcall]; exact notifies.1) hzero ?_
            rw [hnone] at hnotifies
            simpa using hnotifies.symm

/-! ## Runs -/

theorem init_awake (publicationState : Word) :
    Awake (init publicationState) ∧ PermitSpare (init publicationState) :=
  ⟨fun _ _ => Nat.le_refl 0, nofun⟩

/-- Every notification of a run finds at most one call where no state of the run
leaves a call to wait in vain. -/
theorem along_iff_awake {publicationState : Word} {labels : List Label} {s : System}
    (hrun : run step (init publicationState) labels = some s) :
    Along step OneWaits (init publicationState) labels ↔
      ∀ before after t, labels = before ++ after →
        run step (init publicationState) before = some t → Awake t := by
  obtain ⟨hawake, hspare⟩ := init_awake publicationState
  refine along_iff_good (I := fun s => Fenced s ∧ PermitSpare s) ?_ ?_
    ⟨init_fenced publicationState, hspare⟩ hawake hrun
  · exact fun s label t h hstep =>
      ⟨step_fenced s label t h.1 hstep, step_permitSpare s label t h hstep⟩
  · exact fun s label t h hawake hstep => step_awake h.1 h.2 hawake hstep

/-- A retired fence without activities has woken every call that waited for it,
in a run whose last notifications have at most one call to wake. -/
theorem drain_wakes (publicationState : Word) (labels : List Label) (s : System)
    (hrun : run step (init publicationState) labels = some s)
    (hone : Along step OneWaits (init publicationState) labels) :
    generationPhase s.fence.state = GENERATION_RETIRED →
      generationActivityCount s.fence.state = 0 → (∀ call ∈ s.calls, call.notifies = false) →
      s.fence.drained.permit = false → ∀ i, ¬ Parked s i := by
  intro _ hzero hnone hpermit i hparked
  have hawake : Awake s := (along_iff_awake hrun).1 hone labels [] s (by simp) hrun
  have hcount : s.calls.countP Call.notifies = 0 := List.countP_eq_zero.2 fun call hcall =>
    Bool.not_eq_true _ ▸ hnone call hcall
  have hnobody := hawake hzero hcount
  rw [hpermit, Bool.toNat_false, waiting] at hnobody
  have hempty : s.fence.drained.waiters = [] := List.length_eq_zero_iff.1 (by omega)
  rw [Parked, hempty] at hparked
  exact absurd hparked.2 (by simp)

/-- One activity, a retirement, and a wait of each of these calls before the
activity is dropped. -/
def waitedFor (waits : List Nat) : List Label :=
  [.tick 0 false, .start .enter, .tick 1 false, .tick 1 false, .tick 1 false, .tick 1 false,
    .start .markRetired, .tick 2 false, .tick 2 false, .tick 2 false, .tick 2 false] ++
  waits.flatMap (fun i => [.start .waitDrained, .tick i false, .tick i false]) ++
  [.tick 1 false, .tick 1 false]

theorem drain_wakes_one :
    ∃ s, run step (init 0) (waitedFor [3]) = some s ∧
      generationPhase s.fence.state = GENERATION_RETIRED ∧ ∀ i, ¬ Parked s i := by
  have hrun : run step (init 0) (waitedFor [3]) =
      some ⟨⟨0, 2, ⟨false, []⟩, none, false⟩,
        [.markedCurrent, .activityDropped, .retireReturned, .waitBlocked]⟩ := by decide
  have hone : Along step OneWaits (init 0) (waitedFor [3]) := by
    simp only [waitedFor, List.flatMap_cons, List.flatMap_nil, List.cons_append, List.nil_append]
    repeat refine Along.cons (by unfold OneWaits; decide) rfl ?_
    exact Along.nil _
  exact ⟨_, hrun, by decide, drain_wakes 0 _ _ hrun hone (by decide) (by decide) (by decide) rfl⟩

/-- With two calls that wait, the one that `notify_one` does not wake is parked
for good: its call has no step, and the activity whose release would notify it is
gone. -/
theorem drain_leaves_second :
    ∃ s, run step (init 0) (waitedFor [3, 4] ++ [.tick 3 false, .tick 3 false]) = some s ∧
      generationPhase s.fence.state = GENERATION_RETIRED ∧
      generationActivityCount s.fence.state = 0 ∧
      (∀ call ∈ s.calls, call.notifies = false) ∧ s.fence.drained.permit = false ∧
      s.calls[3]? = some .waitReturned ∧ Parked s 4 ∧
      ∀ i flag, step s (.tick i flag) = none := by
  refine ⟨⟨⟨0, 2, ⟨false, [4]⟩, none, false⟩, [.markedCurrent, .activityDropped, .retireReturned,
    .waitReturned, .waitBlocked]⟩, by decide, by decide, by decide, by decide, rfl, rfl,
    ⟨rfl, by decide⟩, fun i flag => ?_⟩
  match i with
  | 0 | 1 | 2 | 3 | 4 => rfl
  | _ + 5 => rfl

end MCode.Generations
