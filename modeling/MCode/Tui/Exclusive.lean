import MCode.Tui.Ownership

/-!
# One owner at a time

What the invariant of the slot says about the terminal: one reservation, a
vacant slot only where nothing is left to restore, and no call that changes a
reservation other than the one it acts for.
-/

namespace MCode.Tui

open MCode.Lib.Machine

/-! ## Which steps reach the slot -/

section Slot

variable {s t : State} {c : Nat} {answers : Answers}

theorem acquireOutput_slot (owner : GuardOwner) (point : AcquirePoint) :
    (acquireOutput s c owner answers point).slot = s.slot := by
  cases point with
  | acquire => rfl
  | check => unfold acquireOutput; dsimp only; split <;> rfl
  | recheck => unfold acquireOutput; dsimp only; split <;> rfl

theorem enterStage_slot {owner : GuardOwner} {stage : EnterStage} {stages : List EnterStage}
    {point : StagePoint} (h : enterStage s c owner stage stages answers point = some t) :
    t.slot = s.slot := by
  cases point <;> simp only [enterStage] at h <;> split at h <;> cases h <;> rfl

theorem restore_slot {inner : InnerId} {restorer : Restorer} {point : RestorePoint}
    (h : restore s c inner restorer answers point = some t) : t.slot = s.slot := by
  cases point with
  | terminal =>
      simp only [restore] at h
      split at h
      · exact absurd h (by simp)
      · cases h
        rfl
  | output terminalRestored =>
      cases h
      rfl

theorem abnormalRestoreTarget_slot : (abnormalRestoreTarget s c answers).slot = s.slot := by
  unfold abnormalRestoreTarget
  cases s.slot.state with
  | active owner e => dsimp only; split <;> rfl
  | vacant | entering _ _ | pendingGuard _ _ => rfl

/-- What a step makes of the slot, on behalf of the owner that the call acts
for. -/
inductive Turns (s : State) (c : Nat) : GuardSlot → Prop where
  | same : Turns s c s.slot
  /-- The next owner gets a vacant slot. -/
  | claimed (hvacant : s.slot.state = .vacant) (hc : s.calls c = .claiming) :
      Turns s c ⟨s.slot.nextOwner + 1, .entering s.slot.nextOwner c⟩
  /-- The reservation stays with its owner. -/
  | kept (owner : GuardOwner) (e : InnerId) (state : SlotState)
      (hbefore : s.slot.state.reservation = some (owner, e))
      (hacts : (s.calls c).actsFor = some owner)
      (hafter : state.reservation = some (owner, e)) : Turns s c ⟨s.slot.nextOwner, state⟩
  /-- The reservation ends, with nothing left to restore. -/
  | released (owner : GuardOwner) (e : InnerId)
      (hbefore : s.slot.state.reservation = some (owner, e))
      (hacts : (s.calls c).actsFor = some owner)
      (hrestored : (s.inners e).isRestored = true) : Turns s c ⟨s.slot.nextOwner, .vacant⟩

theorem Turns.of_eq {slot : GuardSlot} (h : slot = s.slot) : Turns s c slot := by
  rw [h]
  exact .same

theorem Turns.of_state {state : SlotState} (h : s.slot.state = state) :
    Turns s c ⟨s.slot.nextOwner, state⟩ := by
  rw [← h]
  exact .same

theorem claimActiveSlot_turns (hc : s.calls c = .claiming) :
    Turns s c (claimActiveSlot s c).slot := by
  unfold claimActiveSlot
  cases hstate : s.slot.state with
  | vacant =>
      dsimp only
      split
      · exact .same
      · exact .claimed hstate hc
  | entering _ _ | active _ _ | pendingGuard _ _ => exact .same

variable {page : Nat}

theorem finish_turns {owner : GuardOwner} (h : Owned page s) (hc : s.calls c = .finishing owner) :
    Turns s c (finish s c owner).slot := by
  have hslot : s.slot.state = .entering owner c := (h.calls c).entering (by rw [hc]; rfl)
  unfold finish
  rw [hslot]
  dsimp only
  rw [if_pos rfl]
  split
  · exact .same
  · exact .kept owner c _ (by rw [hslot]; rfl) (by rw [hc]; rfl) rfl

theorem finishEntering_turns {owner : GuardOwner} {restored : Bool} (h : Owned page s)
    (hc : s.calls c = .finishingEntering owner restored) :
    Turns s c ⟨s.slot.nextOwner, s.slot.state.finishEntering owner c restored⟩ := by
  have hok := h.calls c
  rw [hc] at hok
  obtain ⟨hslot, hrestored⟩ := hok
  rw [hslot]
  unfold SlotState.finishEntering
  dsimp only
  rw [if_pos rfl]
  cases restored with
  | true => exact .released owner c (by rw [hslot]; rfl) (by rw [hc]; rfl) (hrestored rfl)
  | false => exact .kept owner c _ (by rw [hslot]; rfl) (by rw [hc]; rfl) rfl

theorem finishGuard_turns {owner : GuardOwner} {restored : Bool} (h : Owned page s)
    (hc : s.calls c = .finishingGuard owner restored) :
    Turns s c ⟨s.slot.nextOwner, s.slot.state.finishGuard owner c restored⟩ := by
  have hok := h.calls c
  rw [hc] at hok
  obtain ⟨howns, hrestored⟩ := hok
  cases hstate : s.slot.state with
  | vacant | entering _ _ => exact .of_state hstate
  | active other e | pendingGuard other e =>
      unfold SlotState.finishGuard
      dsimp only
      by_cases hother : other = owner
      · rw [if_pos hother]
        have hbefore : s.slot.state.reservation = some (owner, e) := by rw [hstate, hother]; rfl
        obtain rfl : e = c := (h.owns hbefore).unique howns
        cases restored with
        | true => exact .released owner e hbefore (by rw [hc]; rfl) (hrestored rfl)
        | false => exact .kept owner e _ hbefore (by rw [hc]; rfl) rfl
      · rw [if_neg hother]
        exact .of_state hstate

theorem clearRestoredOwner_turns {owner : GuardOwner} {inner : InnerId} (h : Owned page s)
    (howns : s.Owns owner inner) (hrestored : (s.inners inner).isRestored = true)
    (hacts : (s.calls c).actsFor = some owner) :
    Turns s c ⟨s.slot.nextOwner, s.slot.state.clearRestoredOwner owner⟩ := by
  cases hstate : s.slot.state with
  | vacant | entering _ _ => exact .of_state hstate
  | active other e | pendingGuard other e =>
      unfold SlotState.clearRestoredOwner
      dsimp only
      by_cases hother : other = owner
      · rw [if_pos hother]
        have hbefore : s.slot.state.reservation = some (owner, e) := by rw [hstate, hother]; rfl
        obtain rfl : e = inner := (h.owns hbefore).unique howns
        exact .released owner e hbefore hacts hrestored
      · rw [if_neg hother]
        exact .of_state hstate

theorem advance_turns (h : Owned page s) (ht : advance s c answers = some t) :
    Turns s c t.slot := by
  have hok := h.calls c
  unfold advance at ht
  cases hc : s.calls c with
  | claiming =>
      rw [hc] at ht
      cases ht
      exact claimActiveSlot_turns hc
  | claimClearing owner inner | exitClearing owner inner =>
      rw [hc] at ht hok
      cases ht
      exact clearRestoredOwner_turns h hok.1.1 hok.2 (by rw [hc]; rfl)
  | acquiring owner point =>
      rw [hc] at ht
      cases ht
      exact .of_eq (acquireOutput_slot owner point)
  | staging owner stage stages point =>
      rw [hc] at ht
      exact .of_eq (enterStage_slot ht)
  | finishing owner =>
      rw [hc] at ht
      cases ht
      exact finish_turns h hc
  | cancelling owner =>
      rw [hc] at ht
      cases ht
      exact .of_eq rfl
  | finishingEntering owner restored =>
      rw [hc] at ht
      cases ht
      exact finishEntering_turns h hc
  | finishingGuard owner restored =>
      rw [hc] at ht
      cases ht
      exact finishGuard_turns h hc
  | restoring inner point restorer =>
      rw [hc] at ht
      exact .of_eq (restore_slot ht)
  | exiting =>
      rw [hc] at ht
      cases ht
      exact .of_eq abnormalRestoreTarget_slot
  | idle | refused | exhausted | lostReservation _ | failed | guard _ | dropped | restored
  | exited _ _ =>
      rw [hc] at ht
      exact absurd ht (by simp)

end Slot

/-- The call that an act is of. -/
def Act.call : Act → Nat
  | .enter c _ => c
  | .drop c => c
  | .restore c _ => c
  | .exit c => c
  | .advance c _ => c

theorem step_turns {page : Nat} {s t : State} {act : Act} (h : Owned page s)
    (ht : step s act = some t) : Turns s act.call t.slot := by
  cases act with
  | advance c answers => exact advance_turns h ht
  | enter c outputCp =>
      simp only [step] at ht
      split at ht <;> cases ht
      exact .of_eq rfl
  | drop c =>
      simp only [step] at ht
      split at ht <;> cases ht
      exact .of_eq rfl
  | restore c e =>
      simp only [step] at ht
      split at ht <;> cases ht
      exact .of_eq rfl
  | exit c =>
      simp only [step] at ht
      split at ht <;> cases ht
      exact .of_eq rfl

/-! ## One owner at a time -/

/-- `owner` has the terminal: its entry is under way, or its guard is active. -/
def Reserved (s : State) (owner : GuardOwner) (e : InnerId) : Prop :=
  (s.calls e).transaction = some owner ∨ s.slot.state = .active owner e

/-- What holds of a state of the process. -/
structure Exclusive (page : Nat) (s : State) : Prop where
  /-- At most one reservation is entering or active, and it is in the slot. -/
  one : ∀ owner owner' e e', Reserved s owner e → Reserved s owner' e' →
    owner = owner' ∧ e = e'
  entering : ∀ owner e, (s.calls e).transaction = some owner ↔
    s.slot.state = .entering owner e
  active : ∀ owner e, s.slot.state = .active owner e → (s.calls e).guarding = some owner
  /-- A vacant slot leaves nothing to restore, and the console as it was. -/
  vacant : s.slot.state = .vacant →
    (∀ e, (s.inners e).isRestored = true) ∧ s.console = Console.untouched page
  /-- What could not be restored keeps the slot. -/
  owed : ∀ e, (s.inners e).isRestored = false →
    ∃ owner, s.slot.state.reservation = some (owner, e)
  pending : ∀ e, (s.inners e).isRestored = false → s.calls e = .failed ∨ s.calls e = .dropped →
    ∃ owner, s.slot.state = .pendingGuard owner e
  /-- `finish` does not panic. -/
  reserved : ∀ c owner, s.calls c ≠ .lostReservation owner

/-- What holds of a step of call `c`. -/
structure Respects (s t : State) (c : Nat) : Prop where
  /-- An owner is given the slot only when nothing is left to restore. -/
  granted : ∀ owner, s.calls c = .claiming → (t.calls c).transaction = some owner →
    s.slot.state = .vacant ∧ ∀ e, (s.inners e).isRestored = true
  /-- A reservation is changed by a call that acts for its owner. -/
  own : ∀ owner e, s.slot.state.reservation = some (owner, e) →
    t.slot.state ≠ s.slot.state → (s.calls c).actsFor = some owner
  /-- It ends only when nothing is left to restore. -/
  released : ∀ owner e, s.slot.state.reservation = some (owner, e) →
    t.slot.state.reservation ≠ some (owner, e) → (s.inners e).isRestored = true

theorem Owned.exclusive {page : Nat} {s : State} (h : Owned page s) : Exclusive page s := by
  have hentering : ∀ owner e, (s.calls e).transaction = some owner ↔
      s.slot.state = .entering owner e := by
    intro owner e
    constructor
    · exact (h.calls e).entering
    · intro hslot
      have hok := h.slot
      unfold SlotOk at hok
      rw [hslot] at hok
      exact hok.2
  have hvacant : s.slot.state = .vacant → ∀ e, (s.inners e).isRestored = true := by
    intro hslot e
    apply h.isRestored
    intro owner
    rw [hslot]
    simp [SlotState.reservation]
  exact {
    one := by
      intro owner owner' e e' hreserved hreserved'
      unfold Reserved at hreserved hreserved'
      rw [hentering] at hreserved hreserved'
      cases hreserved with
      | inl hslot =>
          cases hreserved' with
          | inl hslot' => rw [hslot] at hslot'; cases hslot'; exact ⟨rfl, rfl⟩
          | inr hslot' => rw [hslot] at hslot'; cases hslot'
      | inr hslot =>
          cases hreserved' with
          | inl hslot' => rw [hslot] at hslot'; cases hslot'
          | inr hslot' => rw [hslot] at hslot'; cases hslot'; exact ⟨rfl, rfl⟩
    entering := hentering
    active := fun owner e hslot => h.active hslot
    vacant := fun hslot => ⟨hvacant hslot, h.untouched (hvacant hslot)⟩
    owed := h.owed
    pending := by
      intro e he hover
      obtain ⟨owner, hreservation⟩ := h.owed e he
      refine ⟨owner, ?_⟩
      cases hslot : s.slot.state with
      | vacant =>
          rw [hslot] at hreservation
          exact absurd hreservation (by simp [SlotState.reservation])
      | entering other e' =>
          rw [hslot] at hreservation
          cases hreservation
          have htransaction := (hentering owner e).2 hslot
          cases hover with
          | inl hover => rw [hover] at htransaction; exact absurd htransaction (by simp [Call.transaction])
          | inr hover => rw [hover] at htransaction; exact absurd htransaction (by simp [Call.transaction])
      | active other e' =>
          rw [hslot] at hreservation
          cases hreservation
          have hguarding := h.active hslot
          cases hover with
          | inl hover => rw [hover] at hguarding; exact absurd hguarding (by simp [Call.guarding])
          | inr hover => rw [hover] at hguarding; exact absurd hguarding (by simp [Call.guarding])
      | pendingGuard other e' =>
          rw [hslot] at hreservation
          cases hreservation
          rfl
    reserved := by
      intro c owner hc
      have hok := h.calls c
      rw [hc] at hok
      exact hok }

theorem Owned.respects {page : Nat} {s t : State} {act : Act} (h : Owned page s)
    (ht : MCode.Tui.step s act = some t) : Respects s t act.call := by
  have hturns := step_turns h ht
  exact {
    granted := by
      intro owner hc howner
      have hslot := ((h.step ht).exclusive.entering owner act.call).1 howner
      generalize hstate : t.slot = slot at hturns hslot
      have hvacant : s.slot.state = .vacant := by
        cases hturns with
        | same =>
            have hbefore := (h.exclusive.entering owner act.call).2 hslot
            rw [hc] at hbefore
            exact absurd hbefore (by simp [Call.transaction])
        | claimed hvacant _ => exact hvacant
        | kept other e _ _ hacts _ =>
            rw [hc] at hacts
            exact absurd hacts (by simp [Call.actsFor])
        | released other e _ _ _ => exact absurd hslot (by simp)
      exact ⟨hvacant, (h.exclusive.vacant hvacant).1⟩
    own := by
      intro owner e hbefore hchanged
      generalize hstate : t.slot = slot at hturns hchanged
      cases hturns with
      | same => exact absurd rfl hchanged
      | claimed hvacant _ =>
          rw [hvacant] at hbefore
          exact absurd hbefore (by simp [SlotState.reservation])
      | kept other e' _ hbefore' hacts _ =>
          rw [hbefore] at hbefore'
          cases hbefore'
          exact hacts
      | released other e' hbefore' hacts _ =>
          rw [hbefore] at hbefore'
          cases hbefore'
          exact hacts
    released := by
      intro owner e hbefore hended
      generalize hstate : t.slot = slot at hturns hended
      cases hturns with
      | same => exact absurd hbefore hended
      | claimed hvacant _ =>
          rw [hvacant] at hbefore
          exact absurd hbefore (by simp [SlotState.reservation])
      | kept other e' _ hbefore' _ hafter =>
          rw [hbefore] at hbefore'
          cases hbefore'
          exact absurd hafter hended
      | released other e' hbefore' _ hrestored =>
          rw [hbefore] at hbefore'
          cases hbefore'
          exact hrestored }

/-- In every interleaving of entries, restores, drops and abnormal exits, at
most one owner has the terminal, a vacant slot leaves nothing to restore, and
every step respects the reservations of others. -/
theorem terminal_exclusive {page : Nat} {s : State}
    (h : Reaches step (State.init page) s) :
    Exclusive page s ∧ ∀ act t, step s act = some t → Respects s t act.call :=
  ⟨(Owned.reached h).exclusive, fun _ _ ht => (Owned.reached h).respects ht⟩

/-- Raw mode is entered with an error and cannot be left: the entry has failed,
and its reservation waits for the next claim. -/
def stuckEntry : List Act :=
  let stuck := { Answers.allDone with enter := .failed true, leave := fun _ => .failed false }
  .enter 0 .supportedWithoutSwitch :: List.replicate 12 (.advance 0 stuck)

theorem terminal_exclusive_stuckEntry :
    ∃ s, Reaches step (State.init 936) s ∧ s.slot.state = .pendingGuard 1 0 ∧
      (s.inners 0).isRestored = false ∧ Exclusive 936 s :=
  ⟨_, ⟨stuckEntry, rfl⟩, rfl, rfl, (terminal_exclusive ⟨stuckEntry, rfl⟩).1⟩

end MCode.Tui
