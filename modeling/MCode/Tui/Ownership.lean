import MCode.Tui.Guard

/-!
# Who owns the terminal

What every interleaving of the calls keeps: while an entry is under way the
slot is its own, a guard that is active is alive, and an entry that has
something to restore holds the slot.  So the modes that are on are those of the
reservation, and a vacant slot means a console as it was found.

A step by one call leaves the others what `Follows` says, and `CallOk` is what
holds of a call at each of its points.
-/

namespace MCode.Tui

open MCode.Lib.Machine

/-! ## What a call stands for -/

/-- The owner of an entry that is under way. -/
def Call.transaction : Call → Option GuardOwner
  | .acquiring owner _ => some owner
  | .staging owner _ _ _ => some owner
  | .finishing owner => some owner
  | .cancelling owner => some owner
  | .finishingEntering owner _ => some owner
  | .restoring _ _ (.transaction owner) => some owner
  | _ => none

/-- The owner of a guard that is alive. -/
def Call.guarding : Call → Option GuardOwner
  | .guard owner => some owner
  | .finishingGuard owner _ => some owner
  | .restoring _ _ (.guardDrop owner) => some owner
  | _ => none

/-- The entry is over: it has a guard, or it has ended. -/
def Call.isPast : Call → Bool
  | .guard _ => true
  | .finishingGuard _ _ => true
  | .restoring _ _ (.guardDrop _) => true
  | .failed => true
  | .dropped => true
  | _ => false

/-- The owner whose reservation the next step of the call may change. -/
def Call.actsFor : Call → Option GuardOwner
  | .claimClearing owner _ => some owner
  | .exitClearing owner _ => some owner
  | .finishing owner => some owner
  | .finishingEntering owner _ => some owner
  | .finishingGuard owner _ => some owner
  | _ => none

/-- `owner` was given to entry `e`. -/
def State.Owns (s : State) (owner : GuardOwner) (e : InnerId) : Prop :=
  ∃ claim, s.claims owner = some claim ∧ claim.inner = e

theorem State.Owns.unique {s : State} {owner : GuardOwner} {e e' : InnerId}
    (h : s.Owns owner e) (h' : s.Owns owner e') : e = e' := by
  obtain ⟨claim, hclaim, rfl⟩ := h
  obtain ⟨claim', hclaim', rfl⟩ := h'
  rw [hclaim] at hclaim'
  cases hclaim'
  rfl

theorem Call.isPast_of_guarding {call : Call} {owner : GuardOwner}
    (h : call.guarding = some owner) : call.isPast = true := by
  unfold guarding at h
  split at h
  case h_4 => exact absurd h (by simp)
  all_goals rfl

theorem Call.transaction_of_isPast {call : Call} (h : call.isPast = true) :
    call.transaction = none := by
  unfold isPast at h
  split at h
  case h_6 => exact absurd h (by simp)
  all_goals rfl

/-! ## What has to be restored -/

theorem GuardInner.isRestored_iff (self : GuardInner) :
    self.isRestored = true ↔
      self.terminalState.isClear = true ∧ self.outputCp.state.restoreTo = none := by
  simp [isRestored, Utf8OutputLease.restoreObligationCleared]

/-- `left` owes nothing that `inner` does not owe. -/
structure GuardInner.Clears (inner left : GuardInner) : Prop where
  entered : ∀ stage, left.terminalState.isEntered stage = true →
    inner.terminalState.isEntered stage = true
  page : ∀ original, left.outputCp.state.restoreTo = some original →
    inner.outputCp.state.restoreTo = some original

theorem GuardInner.Clears.refl (inner : GuardInner) : inner.Clears inner :=
  ⟨fun _ h => h, fun _ h => h⟩

theorem GuardInner.Clears.isClear {inner left : GuardInner} (h : inner.Clears left)
    (hclear : inner.terminalState.isClear = true) : left.terminalState.isClear = true := by
  rw [TerminalState.isClear_iff] at hclear ⊢
  intro stage
  apply Bool.eq_false_iff.2
  intro hin
  have hbefore := h.entered stage hin
  rw [hclear stage] at hbefore
  exact Bool.false_ne_true hbefore

theorem GuardInner.Clears.restoreTo {inner left : GuardInner} (h : inner.Clears left)
    (hnone : inner.outputCp.state.restoreTo = none) : left.outputCp.state.restoreTo = none := by
  cases hto : left.outputCp.state.restoreTo with
  | none => rfl
  | some original =>
      have hbefore := h.page original hto
      rw [hnone] at hbefore
      exact absurd hbefore (by simp)

theorem GuardInner.Clears.isRestored {inner left : GuardInner} (h : inner.Clears left)
    (hrestored : inner.isRestored = true) : left.isRestored = true := by
  rw [GuardInner.isRestored_iff] at hrestored ⊢
  exact ⟨h.isClear hrestored.1, h.restoreTo hrestored.2⟩

/-! ## The operations -/

/-- What the loop of `restore` leaves behind of `state` and `console`. -/
structure Leaves (state : TerminalState) (console : Console) (left : TerminalState × Console) :
    Prop where
  entered : ∀ stage, left.1.isEntered stage = true → state.isEntered stage = true
  /-- A mode stays on that was on, and stays recorded where it was recorded. -/
  modes : ∀ stage, left.2.modes stage = true → console.modes stage = true ∧
    (state.isEntered stage = true → left.1.isEntered stage = true)
  page : left.2.page = console.page

theorem Leaves.refl (state : TerminalState) (console : Console) :
    Leaves state console (state, console) :=
  ⟨fun _ h => h, fun _ h => ⟨h, id⟩, rfl⟩

theorem Leaves.trans {state state' : TerminalState} {console console' : Console}
    {left : TerminalState × Console} (h : Leaves state console (state', console'))
    (h' : Leaves state' console' left) : Leaves state console left where
  entered := fun stage hin => h.entered stage (h'.entered stage hin)
  modes := by
    intro stage hon
    obtain ⟨hon', hkept⟩ := h'.modes stage hon
    obtain ⟨hon'', hkept'⟩ := h.modes stage hon'
    exact ⟨hon'', fun hin => hkept (hkept' hin)⟩
  page := h'.page.trans h.page

/-- One stage is left. -/
theorem leaves_operate (state : TerminalState) (console : Console) (stage : EnterStage)
    (outcome : Outcome) :
    Leaves state console
      (if outcome.isOk = true then state.setEntered stage false else state,
        console.operate stage false outcome) where
  entered := by
    intro other hin
    by_cases hok : outcome.isOk = true
    · simp only [hok, if_true, TerminalState.isEntered_setEntered] at hin
      by_cases hother : other = stage
      · simp [hother] at hin
      · simpa [hother] using hin
    · simpa [hok] using hin
  modes := by
    intro other hon
    simp only [Console.operate_modes] at hon
    by_cases happlied : other = stage ∧ outcome.isApplied = true
    · simp [happlied] at hon
    · rw [if_neg happlied] at hon
      refine ⟨hon, fun hin => ?_⟩
      by_cases hok : outcome.isOk = true
      · have hother : other ≠ stage := fun h =>
          happlied ⟨h, Outcome.isApplied_of_isOk hok⟩
        simpa [hok, TerminalState.isEntered_setEntered, hother] using hin
      · simpa [hok] using hin
  page := Console.operate_page console stage false outcome

theorem leaveStages_leaves (answers : Answers) (stages : List EnterStage) (state : TerminalState)
    (console : Console) :
    Leaves state console (leaveStages answers stages state console) := by
  induction stages generalizing state console with
  | nil => exact Leaves.refl state console
  | cons stage stages ih =>
      unfold leaveStages
      by_cases hin : state.isEntered stage = true
      · rw [if_pos hin]
        exact (leaves_operate state console stage (answers.leave stage)).trans (ih _ _)
      · rw [if_neg hin]
        exact ih state console

/-- What one part of `restore` leaves behind of an entry and the console. -/
structure Restores (inner : GuardInner) (console : Console) (left : GuardInner)
    (after : Console) : Prop where
  clears : inner.Clears left
  lease : left.outputCp.backend = inner.outputCp.backend ∧
    left.outputCp.state.acquired = inner.outputCp.state.acquired
  cancelled : left.cancelled = inner.cancelled
  locked : left.locked = inner.locked
  modes : ∀ stage, after.modes stage = true → console.modes stage = true ∧
    (inner.terminalState.isEntered stage = true →
      left.terminalState.isEntered stage = true)
  /-- The page is put back to the one recorded, or it is as it was, and so is
  the record. -/
  page : (∃ original, inner.outputCp.state.restoreTo = some original ∧ after.page = original) ∨
    (after.page = console.page ∧
      left.outputCp.state.restoreTo = inner.outputCp.state.restoreTo)

theorem restoreTerminal_restores (inner : GuardInner) (console : Console) (answers : Answers) :
    Restores inner console (inner.restoreTerminal console answers).2.1
      (inner.restoreTerminal console answers).2.2 ∧
    (inner.restoreTerminal console answers).1 =
      (inner.restoreTerminal console answers).2.1.terminalState.isClear := by
  refine ⟨?_, rfl⟩
  have hleaves : Leaves inner.terminalState console
      ((inner.restoreTerminal console answers).2.1.terminalState,
        (inner.restoreTerminal console answers).2.2) := by
    unfold GuardInner.restoreTerminal
    refine Leaves.trans ?_ (leaveStages_leaves answers RESTORE_STAGES _ console)
    split <;> exact ⟨fun stage h => by cases stage <;> exact h,
      fun stage h => ⟨h, fun hin => by cases stage <;> exact hin⟩, rfl⟩
  exact {
    clears := ⟨hleaves.entered, fun _ h => h⟩
    lease := ⟨rfl, rfl⟩
    cancelled := rfl
    locked := rfl
    modes := hleaves.modes
    page := Or.inr ⟨hleaves.page, rfl⟩ }

theorem restoreOutput_restores (inner : GuardInner) (console : Console) (answers : Answers) :
    Restores inner console { inner with outputCp := (inner.outputCp.restore console answers).2.1 }
      (inner.outputCp.restore console answers).2.2 ∧
    ((inner.outputCp.restore console answers).1 = true →
      (inner.outputCp.restore console answers).2.1.state.restoreTo = none) := by
  cases inner.outputCp.restore_cases console answers with
  | inl h =>
      obtain ⟨original, hto, heq⟩ := h
      rw [heq]
      exact ⟨{
        clears := ⟨fun _ h => h, fun _ h => absurd h (by simp)⟩
        lease := ⟨rfl, rfl⟩
        cancelled := rfl
        locked := rfl
        modes := fun _ h => ⟨h, id⟩
        page := Or.inl ⟨original, hto, rfl⟩ }, fun _ => rfl⟩
  | inr h =>
      obtain ⟨restored, hnone, heq⟩ := h
      rw [heq]
      exact ⟨{
        clears := GuardInner.Clears.refl inner
        lease := ⟨rfl, rfl⟩
        cancelled := rfl
        locked := rfl
        modes := fun _ h => ⟨h, id⟩
        page := Or.inr ⟨rfl, rfl⟩ }, hnone⟩

/-! ## What holds of each call -/

/-- What `restore` was called with.  Who restores a pending guard or an active
one has its owner, and the entry is over. -/
def RestorerOk (s : State) (c : Nat) (inner : InnerId) : Restorer → Prop
  | .claim owner => s.Owns owner inner ∧ (s.calls inner).isPast = true
  | .guard owner => s.Owns owner inner ∧ (s.calls inner).isPast = true
  | .transaction owner => inner = c ∧ s.slot.state = .entering owner c
  | .guardDrop owner => inner = c ∧ s.Owns owner c
  | .guardRestore => True
  | .entering => True

/-- The caller decides about a slot by what `restore` returns. -/
def Restorer.settles : Restorer → Bool
  | .guardRestore => false
  | .entering => false
  | _ => true

def CallOk (s : State) (c : Nat) : Call → Prop
  | .claimClearing owner inner =>
      (s.Owns owner inner ∧ (s.calls inner).isPast = true) ∧ (s.inners inner).isRestored = true
  | .exitClearing owner inner =>
      (s.Owns owner inner ∧ (s.calls inner).isPast = true) ∧ (s.inners inner).isRestored = true
  | .acquiring owner _ => s.slot.state = .entering owner c
  | .staging owner _ _ _ => s.slot.state = .entering owner c
  | .finishing owner => s.slot.state = .entering owner c
  | .cancelling owner => s.slot.state = .entering owner c
  | .finishingEntering owner restored =>
      s.slot.state = .entering owner c ∧ (restored = true → (s.inners c).isRestored = true)
  | .guard owner => s.Owns owner c
  | .finishingGuard owner restored =>
      s.Owns owner c ∧ (restored = true → (s.inners c).isRestored = true)
  | .restoring inner point restorer =>
      RestorerOk s c inner restorer ∧
        (point = .output true → restorer.settles = true →
          (s.inners inner).terminalState.isClear = true)
  | .lostReservation _ => False
  | _ => True

theorem CallOk.entering {s : State} {c : Nat} {call : Call} {owner : GuardOwner}
    (h : CallOk s c call) (howner : call.transaction = some owner) :
    s.slot.state = .entering owner c := by
  unfold Call.transaction at howner
  split at howner
  case h_5 => cases howner; exact h.1
  case h_6 => cases howner; exact h.1.2
  case h_7 => exact absurd howner (by simp)
  all_goals cases howner; exact h

/-- What a step by call `c` leaves the other calls. -/
structure Follows (s s' : State) (c : Nat) : Prop where
  calls : ∀ c', c' ≠ c → s'.calls c' = s.calls c'
  past : (s.calls c).isPast = true → (s'.calls c).isPast = true
  claims : ∀ owner claim, s.claims owner = some claim → s'.claims owner = some claim
  clears : ∀ e, e ≠ c ∨ (s.calls c).isPast = true → (s.inners e).Clears (s'.inners e)
  entering : ∀ owner e, e ≠ c → s.slot.state = .entering owner e →
    s'.slot.state = .entering owner e

theorem Follows.owns {s s' : State} {c : Nat} (h : Follows s s' c) {owner : GuardOwner}
    {e : InnerId} (howns : s.Owns owner e) : s'.Owns owner e := by
  obtain ⟨claim, hclaim, hinner⟩ := howns
  exact ⟨claim, h.claims owner claim hclaim, hinner⟩

theorem Follows.isPast {s s' : State} {c : Nat} (h : Follows s s' c) {e : InnerId}
    (hpast : (s.calls e).isPast = true) : (s'.calls e).isPast = true := by
  by_cases he : e = c
  · rw [he] at hpast ⊢
    exact h.past hpast
  · rw [h.calls e he]
    exact hpast

/-- Nobody but the entry itself, while it is under way, adds to what it owes. -/
theorem Follows.clearsPast {s s' : State} {c : Nat} (h : Follows s s' c) {e : InnerId}
    (hpast : (s.calls e).isPast = true) : (s.inners e).Clears (s'.inners e) := by
  apply h.clears
  by_cases he : e = c
  · exact Or.inr (he ▸ hpast)
  · exact Or.inl he

theorem CallOk.follows {s s' : State} {c c' : Nat} (h : Follows s s' c) (hne : c' ≠ c)
    {call : Call} (hok : CallOk s c' call) : CallOk s' c' call := by
  have hclears := h.clears c' (Or.inl hne)
  cases call with
  | claimClearing owner inner =>
      exact ⟨⟨h.owns hok.1.1, h.isPast hok.1.2⟩, (h.clearsPast hok.1.2).isRestored hok.2⟩
  | exitClearing owner inner =>
      exact ⟨⟨h.owns hok.1.1, h.isPast hok.1.2⟩, (h.clearsPast hok.1.2).isRestored hok.2⟩
  | acquiring owner point => exact h.entering owner c' hne hok
  | staging owner stage stages point => exact h.entering owner c' hne hok
  | finishing owner => exact h.entering owner c' hne hok
  | cancelling owner => exact h.entering owner c' hne hok
  | finishingEntering owner restored =>
      exact ⟨h.entering owner c' hne hok.1, fun hr => hclears.isRestored (hok.2 hr)⟩
  | guard owner => exact h.owns hok
  | finishingGuard owner restored =>
      exact ⟨h.owns hok.1, fun hr => hclears.isRestored (hok.2 hr)⟩
  | restoring inner point restorer =>
      obtain ⟨hrestorer, hclear⟩ := hok
      cases restorer with
      | claim owner =>
          exact ⟨⟨h.owns hrestorer.1, h.isPast hrestorer.2⟩,
            fun hp hs => (h.clearsPast hrestorer.2).isClear (hclear hp hs)⟩
      | guard owner =>
          exact ⟨⟨h.owns hrestorer.1, h.isPast hrestorer.2⟩,
            fun hp hs => (h.clearsPast hrestorer.2).isClear (hclear hp hs)⟩
      | transaction owner =>
          obtain ⟨rfl, hslot⟩ := hrestorer
          exact ⟨⟨rfl, h.entering owner inner hne hslot⟩,
            fun hp hs => hclears.isClear (hclear hp hs)⟩
      | guardDrop owner =>
          obtain ⟨rfl, howns⟩ := hrestorer
          exact ⟨⟨rfl, h.owns howns⟩, fun hp hs => hclears.isClear (hclear hp hs)⟩
      | guardRestore => exact ⟨trivial, fun _ hs => absurd hs (by simp [Restorer.settles])⟩
      | entering => exact ⟨trivial, fun _ hs => absurd hs (by simp [Restorer.settles])⟩
  | lostReservation owner => exact hok
  | idle => trivial
  | claiming => trivial
  | refused => trivial
  | exhausted => trivial
  | failed => trivial
  | dropped => trivial
  | restored => trivial
  | exiting => trivial
  | exited target restored => trivial

/-! ## The invariant -/

/-- What the lease of an entry has recorded. -/
def InnerOk (page : Nat) (inner : GuardInner) : Prop :=
  ∀ original, inner.outputCp.state.restoreTo = some original →
    original = page ∧ inner.outputCp.backend = true ∧ inner.outputCp.state.acquired = true

/-- The slot is that of an entry under way, of a guard that is alive, or of an
entry that is over. -/
def SlotOk (s : State) : Prop :=
  match s.slot.state with
  | .vacant => True
  | .entering owner e => s.Owns owner e ∧ (s.calls e).transaction = some owner
  | .active owner e => s.Owns owner e ∧ (s.calls e).guarding = some owner
  | .pendingGuard owner e => s.Owns owner e ∧ (s.calls e).isPast = true

/-- The invariant of a process whose console had `page` and no mode. -/
structure Owned (page : Nat) (s : State) : Prop where
  calls : ∀ c, CallOk s c (s.calls c)
  slot : SlotOk s
  /-- Owners that are still to come belong to nobody. -/
  fresh : ∀ owner, s.slot.nextOwner ≤ owner → s.claims owner = none
  found : ∀ owner claim, s.claims owner = some claim → claim.found = Console.untouched page
  inner : ∀ e, InnerOk page (s.inners e)
  /-- What is left to restore belongs to the reservation. -/
  owed : ∀ e, (s.inners e).isRestored = false →
    ∃ owner, s.slot.state.reservation = some (owner, e)
  /-- A mode that is on is recorded. -/
  modes : ∀ stage, s.console.modes stage = true →
    ∃ e, (s.inners e).terminalState.isEntered stage = true
  page : (∀ e, (s.inners e).outputCp.state.restoreTo = none) → s.console.page = page

theorem Owned.init (page : Nat) : Owned page (State.init page) where
  calls := fun _ => trivial
  slot := trivial
  fresh := fun _ _ => rfl
  found := fun _ _ h => absurd h (by simp [State.init])
  inner := fun _ _ h => absurd h (by simp [State.init, GuardInner.new,
    Utf8OutputLease.supportedWithoutSwitch])
  owed := fun _ h => absurd h (by
    show (GuardInner.new Utf8OutputLease.supportedWithoutSwitch).isRestored ≠ false
    decide)
  modes := fun _ h => absurd h (by simp [State.init, Console.untouched])
  page := fun _ => rfl

/-- A console on which nothing is owed is as it was found. -/
theorem Owned.untouched {page : Nat} {s : State} (h : Owned page s)
    (hall : ∀ e, (s.inners e).isRestored = true) : s.console = Console.untouched page := by
  have hmodes : s.console.modes = fun _ => false := by
    funext stage
    apply Bool.eq_false_iff.2
    intro hon
    obtain ⟨e, hin⟩ := h.modes stage hon
    have hclear := (GuardInner.isRestored_iff _).1 (hall e)
    rw [(TerminalState.isClear_iff _).1 hclear.1 stage] at hin
    exact Bool.false_ne_true hin
  have hpage : s.console.page = page :=
    h.page fun e => ((GuardInner.isRestored_iff _).1 (hall e)).2
  show Console.mk s.console.modes s.console.page = Console.mk _ page
  rw [hmodes, hpage]

/-- Where the slot is not that of `e`, nothing is left of it. -/
theorem Owned.isRestored {page : Nat} {s : State} (h : Owned page s) {e : InnerId}
    (hslot : ∀ owner, s.slot.state.reservation ≠ some (owner, e)) :
    (s.inners e).isRestored = true := by
  by_contra hnot
  obtain ⟨owner, howner⟩ := h.owed e (by simpa using hnot)
  exact hslot owner howner

theorem Owned.owns {page : Nat} {s : State} (h : Owned page s) {owner : GuardOwner}
    {e : InnerId} (hreservation : s.slot.state.reservation = some (owner, e)) :
    s.Owns owner e := by
  have hslot := h.slot
  unfold SlotOk at hslot
  cases hstate : s.slot.state with
  | vacant =>
      rw [hstate] at hreservation
      exact absurd hreservation (by simp [SlotState.reservation])
  | entering _ _ | active _ _ | pendingGuard _ _ =>
      rw [hstate] at hslot hreservation
      cases hreservation
      exact hslot.1

theorem Owned.active {page : Nat} {s : State} (h : Owned page s) {owner : GuardOwner}
    {e : InnerId} (hactive : s.slot.state = .active owner e) :
    (s.calls e).guarding = some owner := by
  have hslot := h.slot
  unfold SlotOk at hslot
  rw [hactive] at hslot
  exact hslot.2

/-! ## Steps that leave the slot -/

/-- A step by call `c` that leaves the slot and the claims, and what its entry
stands for. -/
theorem Owned.next {page : Nat} {s s' : State} {c : Nat} {call : Call} (h : Owned page s)
    (hcalls : s'.calls = Function.update s.calls c call)
    (hslot : s'.slot = s.slot) (hclaims : s'.claims = s.claims)
    (htransaction : call.transaction = (s.calls c).transaction)
    (hguarding : ∀ owner, s.slot.state = .active owner c → call.guarding = some owner)
    (hpast : (s.calls c).isPast = true → call.isPast = true)
    (hinners : ∀ e, (s.inners e).Clears (s'.inners e) ∨
      e = c ∧ ∃ owner, (s.calls c).transaction = some owner)
    (hinner : ∀ e, InnerOk page (s'.inners e))
    (hmodes : ∀ stage, s'.console.modes stage = true →
      ∃ e, (s'.inners e).terminalState.isEntered stage = true)
    (hpage : (∀ e, (s'.inners e).outputCp.state.restoreTo = none) → s'.console.page = page)
    (hok : CallOk s' c call) : Owned page s' := by
  have hself : s'.calls c = call := by rw [hcalls, Function.update_self]
  have hother : ∀ c', c' ≠ c → s'.calls c' = s.calls c' := fun c' hne => by
    rw [hcalls, Function.update_of_ne hne]
  have hfollows : Follows s s' c := {
    calls := hother
    past := fun hp => by
      rw [hself]
      exact hpast hp
    claims := fun owner claim hclaim => by rw [hclaims]; exact hclaim
    clears := by
      intro e he
      cases hinners e with
      | inl hclears => exact hclears
      | inr hown =>
          obtain ⟨hec, owner, howner⟩ := hown
          cases he with
          | inl hne => exact absurd hec hne
          | inr hp =>
              rw [Call.transaction_of_isPast hp] at howner
              exact absurd howner (by simp)
    entering := fun owner e _ hentering => by rw [hslot]; exact hentering }
  exact {
    calls := by
      intro c'
      by_cases hne : c' = c
      · rw [hne, hself]
        exact hok
      · rw [hother c' hne]
        exact (h.calls c').follows hfollows hne
    slot := by
      have hbefore := h.slot
      unfold SlotOk at hbefore ⊢
      rw [hslot]
      cases hstate : s.slot.state with
      | vacant => trivial
      | entering owner e =>
          rw [hstate] at hbefore
          refine ⟨hfollows.owns hbefore.1, ?_⟩
          by_cases hne : e = c
          · rw [hne, hself, htransaction, ← hne]
            exact hbefore.2
          · rw [hother e hne]
            exact hbefore.2
      | active owner e =>
          rw [hstate] at hbefore
          refine ⟨hfollows.owns hbefore.1, ?_⟩
          by_cases hne : e = c
          · rw [hne, hself]
            exact hguarding owner (hne ▸ hstate)
          · rw [hother e hne]
            exact hbefore.2
      | pendingGuard owner e =>
          rw [hstate] at hbefore
          exact ⟨hfollows.owns hbefore.1, hfollows.isPast hbefore.2⟩
    fresh := by
      rw [hslot, hclaims]
      exact h.fresh
    found := by
      rw [hclaims]
      exact h.found
    inner := hinner
    owed := by
      intro e he
      rw [hslot]
      cases hinners e with
      | inl hclears =>
          apply h.owed
          apply Bool.eq_false_iff.2
          intro hrestored
          rw [hclears.isRestored hrestored] at he
          exact Bool.false_ne_true he.symm
      | inr hown =>
          obtain ⟨rfl, owner, howner⟩ := hown
          exact ⟨owner, by rw [(h.calls e).entering howner]; rfl⟩
    modes := hmodes
    page := hpage }

/-- The entries differ in locks and flags only. -/
def SameWork (s s' : State) : Prop :=
  ∀ e, (s'.inners e).terminalState = (s.inners e).terminalState ∧
    (s'.inners e).outputCp = (s.inners e).outputCp

theorem SameWork.refl (s : State) : SameWork s s := fun _ => ⟨rfl, rfl⟩

theorem SameWork.setInner {s : State} {e : InnerId} {inner : GuardInner}
    (hstate : inner.terminalState = (s.inners e).terminalState)
    (hlease : inner.outputCp = (s.inners e).outputCp) : SameWork s (s.setInner e inner) := by
  intro e'
  by_cases he : e' = e
  · rw [he, State.setInner_self]
    exact ⟨hstate, hlease⟩
  · rw [State.setInner_of_ne s inner he]
    exact ⟨rfl, rfl⟩

/-- The step changes no mode, no page and no record. -/
theorem Owned.move {page : Nat} {s t : State} {c : Nat} {call : Call} (h : Owned page s)
    (hwork : SameWork s t) (hcalls : t.calls = s.calls) (hslot : t.slot = s.slot)
    (hclaims : t.claims = s.claims) (hconsole : t.console = s.console)
    (htransaction : call.transaction = (s.calls c).transaction)
    (hguarding : call.guarding = (s.calls c).guarding)
    (hpast : (s.calls c).isPast = true → call.isPast = true)
    (hok : CallOk (t.moveTo c call) c call) : Owned page (t.moveTo c call) := by
  have hstate : ∀ e, ((t.moveTo c call).inners e).terminalState = (s.inners e).terminalState :=
    fun e => (hwork e).1
  have hlease : ∀ e, ((t.moveTo c call).inners e).outputCp = (s.inners e).outputCp :=
    fun e => (hwork e).2
  refine h.next (by show Function.update t.calls c call = _; rw [hcalls]) hslot hclaims
    htransaction (fun owner hactive => hguarding.trans (h.active hactive)) hpast ?_ ?_ ?_ ?_ hok
  · intro e
    refine Or.inl ⟨fun stage hin => ?_, fun original hto => ?_⟩
    · rw [hstate e] at hin
      exact hin
    · rw [hlease e] at hto
      exact hto
  · intro e original hto
    rw [hlease e] at hto ⊢
    exact h.inner e original hto
  · intro stage hon
    obtain ⟨e, hin⟩ := h.modes stage (by rw [← hconsole]; exact hon)
    exact ⟨e, by rw [hstate e]; exact hin⟩
  · intro hall
    show t.console.page = page
    rw [hconsole]
    exact h.page fun e => by rw [← hlease e]; exact hall e

/-- One part of `restore` is performed for entry `e`. -/
theorem Owned.restores {page : Nat} {s : State} {c : Nat} {call : Call} {e : InnerId}
    {left : GuardInner} {console : Console} (h : Owned page s)
    (hrestores : Restores (s.inners e) s.console left console)
    (htransaction : call.transaction = (s.calls c).transaction)
    (hguarding : call.guarding = (s.calls c).guarding)
    (hpast : (s.calls c).isPast = true → call.isPast = true)
    (hok : CallOk { (s.setInner e left).moveTo c call with console := console } c call) :
    Owned page { (s.setInner e left).moveTo c call with console := console } := by
  have hself : (s.setInner e left).inners e = left := State.setInner_self s e left
  refine h.next rfl rfl rfl htransaction
    (fun owner hactive => hguarding.trans (h.active hactive)) hpast ?_ ?_ ?_ ?_ hok
  · intro e'
    show (s.inners e').Clears ((s.setInner e left).inners e') ∨ _
    by_cases he : e' = e
    · rw [he, hself]
      exact Or.inl hrestores.clears
    · rw [State.setInner_of_ne s left he]
      exact Or.inl (GuardInner.Clears.refl _)
  · intro e'
    show InnerOk page ((s.setInner e left).inners e')
    by_cases he : e' = e
    · rw [he, hself]
      intro original hto
      obtain ⟨hpage, hbackend, hacquired⟩ := h.inner e original (hrestores.clears.page original hto)
      exact ⟨hpage, hrestores.lease.1.trans hbackend, hrestores.lease.2.trans hacquired⟩
    · rw [State.setInner_of_ne s left he]
      exact h.inner e'
  · intro stage hon
    obtain ⟨hbefore, hkept⟩ := hrestores.modes stage hon
    obtain ⟨e', hin⟩ := h.modes stage hbefore
    refine ⟨e', ?_⟩
    show ((s.setInner e left).inners e').terminalState.isEntered stage = true
    by_cases he : e' = e
    · rw [he, hself]
      exact hkept (he ▸ hin)
    · rw [State.setInner_of_ne s left he]
      exact hin
  · intro hall
    show console.page = page
    have hnone : ∀ e', ((s.setInner e left).inners e').outputCp.state.restoreTo = none := hall
    cases hrestores.page with
    | inl hput =>
        obtain ⟨original, hto, hpage⟩ := hput
        rw [hpage]
        exact (h.inner e original hto).1
    | inr hsame =>
        rw [hsame.1]
        apply h.page
        intro e'
        by_cases he : e' = e
        · rw [he, ← hsame.2, ← hself]
          exact hnone e
        · rw [← State.setInner_of_ne s left he]
          exact hnone e'

/-- The entry that is under way changes the console and what it owes. -/
theorem Owned.works {page : Nat} {s : State} {c : Nat} {call : Call} {owner : GuardOwner}
    {inner : GuardInner} {console : Console} (h : Owned page s)
    (howner : (s.calls c).transaction = some owner)
    (hinner : InnerOk page inner)
    (hmodes : ∀ stage, console.modes stage = true →
      s.console.modes stage = true ∧ ((s.inners c).terminalState.isEntered stage = true →
        inner.terminalState.isEntered stage = true) ∨
      inner.terminalState.isEntered stage = true)
    (hpage : inner.outputCp.state.restoreTo = none →
      console.page = s.console.page ∧ (s.inners c).outputCp.state.restoreTo = none)
    (htransaction : call.transaction = some owner)
    (hok : CallOk { (s.setInner c inner).moveTo c call with console := console } c call) :
    Owned page { (s.setInner c inner).moveTo c call with console := console } := by
  have hself : (s.setInner c inner).inners c = inner := State.setInner_self s c inner
  have hnotPast : (s.calls c).isPast = true → False := by
    intro hpast
    rw [Call.transaction_of_isPast hpast] at howner
    exact absurd howner (by simp)
  refine h.next rfl rfl rfl (htransaction.trans howner.symm)
    (fun other hactive => (hnotPast (Call.isPast_of_guarding (h.active hactive))).elim)
    (fun hpast => (hnotPast hpast).elim) ?_ ?_ ?_ ?_ hok
  · intro e
    show (s.inners e).Clears ((s.setInner c inner).inners e) ∨ _
    by_cases he : e = c
    · exact Or.inr ⟨he, owner, howner⟩
    · rw [State.setInner_of_ne s inner he]
      exact Or.inl (GuardInner.Clears.refl _)
  · intro e
    show InnerOk page ((s.setInner c inner).inners e)
    by_cases he : e = c
    · rw [he, hself]
      exact hinner
    · rw [State.setInner_of_ne s inner he]
      exact h.inner e
  · intro stage hon
    cases hmodes stage hon with
    | inl hbefore =>
        obtain ⟨e, hin⟩ := h.modes stage hbefore.1
        refine ⟨e, ?_⟩
        show ((s.setInner c inner).inners e).terminalState.isEntered stage = true
        by_cases he : e = c
        · rw [he, hself]
          exact hbefore.2 (he ▸ hin)
        · rw [State.setInner_of_ne s inner he]
          exact hin
    | inr hin =>
        refine ⟨c, ?_⟩
        show ((s.setInner c inner).inners c).terminalState.isEntered stage = true
        rw [hself]
        exact hin
  · intro hall
    show console.page = page
    have hnone : ∀ e, ((s.setInner c inner).inners e).outputCp.state.restoreTo = none := hall
    obtain ⟨hsame, hbefore⟩ := hpage (by rw [← hself]; exact hnone c)
    rw [hsame]
    apply h.page
    intro e
    by_cases he : e = c
    · rw [he]
      exact hbefore
    · rw [← State.setInner_of_ne s inner he]
      exact hnone e

/-! ## Steps that change the slot -/

/-- The slot is taken from an entry that is over, or given back by one that
ends. -/
theorem Owned.release {page : Nat} {s : State} {c : Nat} {call : Call} {state : SlotState}
    {owner : GuardOwner} {e : InnerId} (h : Owned page s)
    (hreservation : s.slot.state.reservation = some (owner, e))
    (hstate : state = .vacant ∧ (s.inners e).isRestored = true ∨
      state = .pendingGuard owner e ∧ ((s.moveTo c call).calls e).isPast = true)
    (hentering : ∀ other e', e' ≠ c → s.slot.state ≠ .entering other e')
    (hpast : (s.calls c).isPast = true → call.isPast = true)
    (hok : CallOk ((s.setSlot state).moveTo c call) c call) :
    Owned page ((s.setSlot state).moveTo c call) := by
  have hfollows : Follows s ((s.setSlot state).moveTo c call) c := {
    calls := fun c' hne => State.moveTo_of_ne s call hne
    past := fun hp => by
      rw [State.moveTo_self]
      exact hpast hp
    claims := fun _ _ hclaim => hclaim
    clears := fun e' _ => GuardInner.Clears.refl _
    entering := fun other e' hne hslot => absurd hslot (hentering other e' hne) }
  exact {
    calls := by
      intro c'
      by_cases hne : c' = c
      · rw [hne, State.moveTo_self]
        exact hok
      · rw [State.moveTo_of_ne _ call hne]
        exact (h.calls c').follows hfollows hne
    slot := by
      cases hstate with
      | inl hvacant =>
          rw [hvacant.1]
          trivial
      | inr hpending =>
          rw [hpending.1]
          exact ⟨h.owns hreservation, hpending.2⟩
    fresh := h.fresh
    found := h.found
    inner := h.inner
    owed := by
      intro e' he
      obtain ⟨other, hother⟩ := h.owed e' he
      rw [hreservation] at hother
      cases hother
      cases hstate with
      | inl hvacant =>
          have hnot : (s.inners e).isRestored = false := he
          rw [hvacant.2] at hnot
          exact absurd hnot (by simp)
      | inr hpending => exact ⟨owner, by rw [hpending.1]; rfl⟩
    modes := h.modes
    page := h.page }

/-- A vacant slot is claimed. -/
theorem Owned.claims_slot {page : Nat} {s : State} {c : Nat} (h : Owned page s)
    (hvacant : s.slot.state = .vacant) (hc : s.calls c = .claiming) :
    Owned page
      { s with
        slot := ⟨s.slot.nextOwner + 1, .entering s.slot.nextOwner c⟩
        claims := Function.update s.claims s.slot.nextOwner (some ⟨c, s.console⟩)
        calls := Function.update s.calls c (.acquiring s.slot.nextOwner .check) } := by
  have hall : ∀ e, (s.inners e).isRestored = true := fun e =>
    h.isRestored fun owner => by rw [hvacant]; exact fun h => absurd h (by simp [SlotState.reservation])
  have hnotPast : (s.calls c).isPast = false := by rw [hc]; rfl
  generalize hs' : State.mk _ _ _ _ _ = s'
  have hself : s'.calls c = .acquiring s.slot.nextOwner .check := by
    rw [← hs']
    exact Function.update_self ..
  have hother : ∀ c', c' ≠ c → s'.calls c' = s.calls c' := fun c' hne => by
    rw [← hs']
    exact Function.update_of_ne hne ..
  have hclaims : ∀ owner, owner ≠ s.slot.nextOwner → s'.claims owner = s.claims owner :=
    fun owner hne => by
      rw [← hs']
      exact Function.update_of_ne hne ..
  have hnew : s'.claims s.slot.nextOwner = some ⟨c, s.console⟩ := by
    rw [← hs']
    exact Function.update_self ..
  have hslot : s'.slot = ⟨s.slot.nextOwner + 1, .entering s.slot.nextOwner c⟩ := by rw [← hs']
  have hinners : s'.inners = s.inners := by rw [← hs']
  have hconsole : s'.console = s.console := by rw [← hs']
  have hfollows : Follows s s' c := {
    calls := hother
    past := fun hp => by rw [hnotPast] at hp; exact absurd hp (by simp)
    claims := by
      intro owner claim hclaim
      rw [hclaims owner fun hown => ?_]
      · exact hclaim
      · rw [hown, h.fresh _ (Nat.le_refl _)] at hclaim
        exact absurd hclaim (by simp)
    clears := fun e _ => by rw [hinners]; exact GuardInner.Clears.refl _
    entering := fun owner e _ hentering => by
      rw [hvacant] at hentering
      exact absurd hentering (by simp) }
  exact {
    calls := by
      intro c'
      by_cases hne : c' = c
      · rw [hne, hself]
        show s'.slot.state = _
        rw [hslot]
      · rw [hother c' hne]
        exact (h.calls c').follows hfollows hne
    slot := by
      unfold SlotOk
      rw [hslot]
      exact ⟨⟨_, hnew, rfl⟩, by rw [hself]; rfl⟩
    fresh := by
      intro owner hle
      rw [hslot] at hle
      have hlt : s.slot.nextOwner < owner := hle
      rw [hclaims owner (by omega)]
      exact h.fresh owner (by omega)
    found := by
      intro owner claim hclaim
      by_cases hown : owner = s.slot.nextOwner
      · rw [hown, hnew] at hclaim
        cases hclaim
        exact h.untouched hall
      · rw [hclaims owner hown] at hclaim
        exact h.found owner claim hclaim
    inner := by rw [hinners]; exact h.inner
    owed := by
      intro e he
      rw [hinners, hall e] at he
      exact absurd he (by simp)
    modes := by rw [hconsole, hinners]; exact h.modes
    page := by rw [hconsole, hinners]; exact h.page }

/-- An entry commits. -/
theorem Owned.commits {page : Nat} {s : State} {c : Nat} {owner : GuardOwner} (h : Owned page s)
    (hslot : s.slot.state = .entering owner c) :
    Owned page ((s.setSlot (.active owner c)).moveTo c (.guard owner)) := by
  have howns : s.Owns owner c := h.owns (by rw [hslot]; rfl)
  have hfollows : Follows s ((s.setSlot (.active owner c)).moveTo c (.guard owner)) c := {
    calls := fun c' hne => State.moveTo_of_ne s _ hne
    past := fun _ => by rw [State.moveTo_self]; rfl
    claims := fun _ _ hclaim => hclaim
    clears := fun e _ => GuardInner.Clears.refl _
    entering := by
      intro other e hne hentering
      rw [hslot] at hentering
      cases hentering
      exact absurd rfl hne }
  exact {
    calls := by
      intro c'
      by_cases hne : c' = c
      · rw [hne, State.moveTo_self]
        exact howns
      · rw [State.moveTo_of_ne _ _ hne]
        exact (h.calls c').follows hfollows hne
    slot := ⟨howns, by rw [State.moveTo_self]; rfl⟩
    fresh := h.fresh
    found := h.found
    inner := h.inner
    owed := by
      intro e he
      obtain ⟨other, hother⟩ := h.owed e he
      rw [hslot] at hother
      exact ⟨other, hother⟩
    modes := h.modes
    page := h.page }

/-! ## One step -/

section Step

variable {page : Nat} {s : State} {c : Nat}

/-- A call moves on and changes nothing else. -/
theorem Owned.moveTo {call : Call} (h : Owned page s)
    (htransaction : call.transaction = (s.calls c).transaction)
    (hguarding : call.guarding = (s.calls c).guarding)
    (hpast : (s.calls c).isPast = true → call.isPast = true)
    (hok : CallOk (s.moveTo c call) c call) : Owned page (s.moveTo c call) :=
  h.move (SameWork.refl s) rfl rfl rfl rfl htransaction hguarding hpast hok

theorem isPast_moveTo {e : InnerId} {call : Call} (h : (s.calls e).isPast = true)
    (hpast : (s.calls c).isPast = true → call.isPast = true) :
    ((s.moveTo c call).calls e).isPast = true := by
  by_cases he : e = c
  · rw [he, State.moveTo_self]
    exact hpast (he ▸ h)
  · rw [State.moveTo_of_ne s call he]
    exact h

theorem Owned.claimActiveSlot (h : Owned page s) (hc : s.calls c = .claiming) :
    Owned page (claimActiveSlot s c) := by
  unfold MCode.Tui.claimActiveSlot
  have hslot := h.slot
  unfold SlotOk at hslot
  cases hstate : s.slot.state with
  | vacant =>
      by_cases hmax : s.slot.nextOwner = ownerMax
      · simp only [hmax, if_true]
        exact h.moveTo (by rw [hc]; rfl) (by rw [hc]; rfl) (by rw [hc]; exact id) trivial
      · simp only [hmax, if_false]
        exact h.claims_slot hstate hc
  | entering owner e | active owner e =>
      exact h.moveTo (by rw [hc]; rfl) (by rw [hc]; rfl) (by rw [hc]; exact id) trivial
  | pendingGuard owner e =>
      rw [hstate] at hslot
      have hnotPast : (s.calls c).isPast = true → False := by rw [hc]; exact Bool.false_ne_true
      refine h.moveTo (by rw [hc]; rfl) (by rw [hc]; rfl) (fun hp => (hnotPast hp).elim)
        ⟨⟨hslot.1, isPast_moveTo hslot.2 fun hp => (hnotPast hp).elim⟩, ?_⟩
      exact fun hp => absurd hp (by simp)

theorem Owned.acquireOutput {owner : GuardOwner} {point : AcquirePoint} {answers : Answers}
    (h : Owned page s) (hc : s.calls c = .acquiring owner point) :
    Owned page (acquireOutput s c owner answers point) := by
  have hslot : s.slot.state = .entering owner c := by
    have hok := h.calls c
    rw [hc] at hok
    exact hok
  unfold MCode.Tui.acquireOutput
  cases point with
  | check =>
      by_cases hcancelled : (s.inners c).cancelled = true
      · simp only [hcancelled, if_true]
        exact h.moveTo (by rw [hc]; rfl) (by rw [hc]; rfl) (by rw [hc]; exact id) hslot
      · simp only [hcancelled]
        exact h.moveTo (by rw [hc]; rfl) (by rw [hc]; rfl) (by rw [hc]; exact id) hslot
  | acquire =>
      have howner : (s.calls c).transaction = some owner := by rw [hc]; rfl
      have hnone : ∀ original, (s.inners c).outputCp.state.restoreTo = some original →
          (s.inners c).outputCp.state.acquired = true := fun original hto =>
        (h.inner c original hto).2.2
      dsimp only
      by_cases hswitches : (s.inners c).outputCp.Switches s.console answers
      · rw [Utf8OutputLease.acquire_of_switches hswitches]
        dsimp only
        have hpage : s.console.page = page := by
          apply h.page
          intro e
          by_contra hto
          obtain ⟨original, hto⟩ := Option.ne_none_iff_exists'.1 hto
          have hne : (s.inners e).isRestored = false := Bool.eq_false_iff.2 fun hrestored => by
            rw [((GuardInner.isRestored_iff _).1 hrestored).2] at hto
            exact absurd hto (by simp)
          obtain ⟨other, hother⟩ := h.owed e hne
          rw [hslot] at hother
          cases hother
          rw [hswitches.1] at hnone
          exact absurd (hnone original hto) (by simp)
        refine h.works howner ?_ ?_ ?_ rfl hslot
        · intro original hto
          cases hto
          exact ⟨hpage, rfl, rfl⟩
        · exact fun stage hon => Or.inl ⟨hon, id⟩
        · exact fun hto => absurd hto (by simp)
      · obtain ⟨hsame, hbackend, hacquired, hto⟩ :=
          Utf8OutputLease.acquire_of_not_switches hswitches
        generalize hout : (s.inners c).outputCp.acquire s.console answers = out
        rw [hout] at hsame hbackend hacquired hto
        obtain ⟨lease, console⟩ := out
        cases hsame
        refine h.works howner ?_ ?_ ?_ rfl hslot
        · intro original horiginal
          cases hto with
          | inl hto =>
              rw [hto] at horiginal
              exact ⟨(h.inner c original horiginal).1,
                hbackend.trans (h.inner c original horiginal).2.1, hacquired⟩
          | inr hto =>
              rw [hto.2] at horiginal
              exact absurd horiginal (by simp)
        · exact fun stage hon => Or.inl ⟨hon, id⟩
        · intro hleft
          refine ⟨rfl, ?_⟩
          cases hto with
          | inl hto => exact hto.symm.trans hleft
          | inr hto =>
              by_contra hsome
              obtain ⟨original, hsome⟩ := Option.ne_none_iff_exists'.1 hsome
              have hacquired := hnone original hsome
              rw [hto.1] at hacquired
              exact Bool.false_ne_true hacquired
  | recheck =>
      by_cases hcancelled : (s.inners c).cancelled = true
      · simp only [hcancelled, if_true]
        exact h.moveTo (by rw [hc]; rfl) (by rw [hc]; rfl) (by rw [hc]; exact id) hslot
      · simp only [hcancelled]
        exact h.moveTo (by rw [hc]; rfl) (by rw [hc]; rfl) (by rw [hc]; exact id) hslot

theorem Owned.enterStage {owner : GuardOwner} {stage : EnterStage} {stages : List EnterStage}
    {point : StagePoint} {answers : Answers} {t : State} (h : Owned page s)
    (hc : s.calls c = .staging owner stage stages point)
    (ht : enterStage s c owner stage stages answers point = some t) : Owned page t := by
  have hslot : s.slot.state = .entering owner c := by
    have hok := h.calls c
    rw [hc] at hok
    exact hok
  -- every point but the change of the mode moves the call and the lock only
  have hmove : ∀ (inner : GuardInner) (call : Call),
      inner.terminalState = (s.inners c).terminalState → inner.outputCp = (s.inners c).outputCp →
      call.transaction = some owner → call.guarding = none →
      CallOk ((s.setInner c inner).moveTo c call) c call →
      Owned page ((s.setInner c inner).moveTo c call) :=
    fun inner call hstate hlease htransaction hguarding hok =>
      h.move (SameWork.setInner hstate hlease) rfl rfl rfl rfl
        (by rw [htransaction, hc]; rfl) (by rw [hguarding, hc]; rfl)
        (by rw [hc]; exact fun hp => absurd hp Bool.false_ne_true) hok
  cases point with
  | check =>
      by_cases hcancelled : (s.inners c).cancelled = true
      · rw [MCode.Tui.enterStage, if_pos hcancelled] at ht
        cases ht
        exact h.moveTo (by rw [hc]; rfl) (by rw [hc]; rfl) (by rw [hc]; exact id) hslot
      · rw [MCode.Tui.enterStage, if_neg hcancelled] at ht
        cases ht
        exact h.moveTo (by rw [hc]; rfl) (by rw [hc]; rfl) (by rw [hc]; exact id) hslot
  | lock =>
      by_cases hlocked : (s.inners c).locked = true
      · simp [MCode.Tui.enterStage, hlocked] at ht
      · rw [MCode.Tui.enterStage, if_neg hlocked] at ht
        cases ht
        exact hmove _ _ rfl rfl rfl rfl hslot
  | test =>
      by_cases hcancelled : (s.inners c).cancelled = true
      · rw [MCode.Tui.enterStage, if_pos hcancelled] at ht
        cases ht
        exact hmove _ _ rfl rfl rfl rfl hslot
      · rw [MCode.Tui.enterStage, if_neg hcancelled] at ht
        cases ht
        exact h.moveTo (by rw [hc]; rfl) (by rw [hc]; rfl) (by rw [hc]; exact id) hslot
  | mutate =>
      have hinner : InnerOk page (s.inners c) := h.inner c
      have hmutated : ∀ (inner : GuardInner) (call : Call),
          inner.terminalState = (s.inners c).terminalState.setEntered stage true →
          inner.outputCp = (s.inners c).outputCp →
          call.transaction = some owner →
          CallOk { (s.setInner c inner).moveTo c call with
            console := s.console.operate stage true answers.enter } c call →
          Owned page { (s.setInner c inner).moveTo c call with
            console := s.console.operate stage true answers.enter } := by
        intro inner call hstate hlease htransaction hok
        refine h.works (by rw [hc]; rfl) ?_ ?_ ?_ htransaction hok
        · intro original hto
          rw [hlease] at hto ⊢
          exact hinner original hto
        · intro other hon
          rw [Console.operate_modes] at hon
          rw [hstate, TerminalState.isEntered_setEntered]
          by_cases hother : other = stage
          · exact Or.inr (if_pos hother)
          · rw [if_neg fun h => hother h.1] at hon
            rw [if_neg hother]
            exact Or.inl ⟨hon, id⟩
        · intro hto
          rw [hlease] at hto
          exact ⟨Console.operate_page .., hto⟩
      by_cases hentered : answers.enter.isOk = true
      · rw [MCode.Tui.enterStage, if_pos hentered] at ht
        cases ht
        exact hmutated _ _ rfl rfl rfl hslot
      · rw [MCode.Tui.enterStage, if_neg hentered] at ht
        cases ht
        have hunlock := hmutated { s.inners c with
            terminalState := (s.inners c).terminalState.setEntered stage true, locked := false }
          (.cancelling owner) rfl rfl rfl hslot
        simpa [State.unlock, State.setInner, State.moveTo] using hunlock
  | recheck =>
      by_cases hcancelled : (s.inners c).cancelled = true
      · rw [MCode.Tui.enterStage, if_pos hcancelled] at ht
        cases ht
        exact hmove _ _ rfl rfl rfl rfl hslot
      · rw [MCode.Tui.enterStage, if_neg hcancelled] at ht
        cases ht
        cases stages with
        | nil => exact hmove _ _ rfl rfl rfl rfl hslot
        | cons stage stages => exact hmove _ _ rfl rfl rfl rfl hslot

theorem Owned.finish {owner : GuardOwner} (h : Owned page s) (hc : s.calls c = .finishing owner) :
    Owned page (finish s c owner) := by
  have hslot : s.slot.state = .entering owner c := by
    have hok := h.calls c
    rw [hc] at hok
    exact hok
  unfold MCode.Tui.finish
  rw [hslot]
  dsimp only
  rw [if_pos rfl]
  by_cases hcancelled : (s.inners c).cancelled = true
  · rw [if_pos hcancelled]
    exact h.moveTo (by rw [hc]; rfl) (by rw [hc]; rfl) (by rw [hc]; exact id) hslot
  · rw [if_neg hcancelled]
    exact h.commits hslot

/-- What `restore` returns is what its caller may rely on. -/
theorem Restorer.resume_ok {inner : InnerId} {restorer : Restorer} {restored : Bool}
    (hrestorer : RestorerOk s c inner restorer)
    (hrestored : restored = true → restorer.settles = true →
      (s.inners inner).isRestored = true) :
    CallOk s c (restorer.resume inner restored) := by
  cases restorer with
  | claim owner =>
      cases restored with
      | false => trivial
      | true => exact ⟨hrestorer, hrestored rfl rfl⟩
  | transaction owner =>
      obtain ⟨rfl, hslot⟩ := hrestorer
      exact ⟨hslot, fun hr => hrestored hr rfl⟩
  | guardDrop owner =>
      obtain ⟨rfl, howns⟩ := hrestorer
      exact ⟨howns, fun hr => hrestored hr rfl⟩
  | guardRestore => trivial
  | entering => trivial
  | guard owner =>
      cases restored with
      | false => trivial
      | true => exact ⟨hrestorer, hrestored rfl rfl⟩

theorem Restorer.resume_stands (restorer : Restorer) (inner : InnerId) (point : RestorePoint)
    (restored : Bool) :
    (restorer.resume inner restored).transaction =
        (Call.restoring inner point restorer).transaction ∧
      (restorer.resume inner restored).guarding =
        (Call.restoring inner point restorer).guarding ∧
      (restorer.resume inner restored).isPast =
        (Call.restoring inner point restorer).isPast := by
  cases restorer <;> cases restored <;> exact ⟨rfl, rfl, rfl⟩

/-- Who restores keeps its right to do so while `restore` goes on. -/
theorem RestorerOk.moves {t : State} {call : Call} {inner : InnerId} {restorer : Restorer}
    (h : RestorerOk s c inner restorer) (hslot : t.slot = s.slot) (hclaims : t.claims = s.claims)
    (hcalls : t.calls = Function.update s.calls c call)
    (hpast : (s.calls c).isPast = true → call.isPast = true) :
    RestorerOk t c inner restorer := by
  have howns : ∀ {owner : GuardOwner} {e : InnerId}, s.Owns owner e → t.Owns owner e := by
    intro owner e howns
    unfold State.Owns
    rw [hclaims]
    exact howns
  have hmoved : ∀ {e : InnerId}, (s.calls e).isPast = true → (t.calls e).isPast = true := by
    intro e he
    rw [hcalls]
    exact isPast_moveTo he hpast
  cases restorer with
  | claim owner => exact ⟨howns h.1, hmoved h.2⟩
  | guard owner => exact ⟨howns h.1, hmoved h.2⟩
  | transaction owner => exact ⟨h.1, by rw [hslot]; exact h.2⟩
  | guardDrop owner => exact ⟨h.1, howns h.2⟩
  | guardRestore => trivial
  | entering => trivial

theorem Owned.restore {inner : InnerId} {point : RestorePoint} {restorer : Restorer}
    {answers : Answers} {t : State} (h : Owned page s)
    (hc : s.calls c = .restoring inner point restorer)
    (ht : restore s c inner restorer answers point = some t) : Owned page t := by
  have hok := h.calls c
  rw [hc] at hok
  obtain ⟨hrestorer, hclear⟩ := hok
  cases point with
  | terminal =>
      by_cases hlocked : (s.inners inner).locked = true
      · rw [MCode.Tui.restore, if_pos hlocked] at ht
        exact absurd ht (by simp)
      · rw [MCode.Tui.restore, if_neg hlocked] at ht
        cases ht
        obtain ⟨hrestores, hreturned⟩ :=
          restoreTerminal_restores (s.inners inner) s.console answers
        refine h.restores hrestores (by rw [hc]; cases restorer <;> rfl)
          (by rw [hc]; cases restorer <;> rfl) (by rw [hc]; cases restorer <;> exact id) ⟨?_, ?_⟩
        · exact hrestorer.moves rfl rfl rfl (by rw [hc]; cases restorer <;> exact id)
        · intro hpoint _
          show ((s.setInner inner
            ((s.inners inner).restoreTerminal s.console answers).2.1).inners inner
              ).terminalState.isClear = true
          rw [State.setInner_self, ← hreturned]
          exact RestorePoint.output.inj hpoint
  | output terminalRestored =>
      rw [MCode.Tui.restore] at ht
      cases ht
      obtain ⟨hrestores, hreturned⟩ := restoreOutput_restores (s.inners inner) s.console answers
      have hstands := Restorer.resume_stands restorer inner (.output terminalRestored)
        (terminalRestored && ((s.inners inner).outputCp.restore s.console answers).1)
      have hpast : (s.calls c).isPast = true → (restorer.resume inner
          (terminalRestored && ((s.inners inner).outputCp.restore s.console answers).1)).isPast =
            true := by
        rw [hc, hstands.2.2]
        exact id
      refine h.restores hrestores (by rw [hc]; exact hstands.1) (by rw [hc]; exact hstands.2.1)
        hpast (Restorer.resume_ok (hrestorer.moves rfl rfl rfl hpast) ?_)
      intro hrestored hsettles
      rw [Bool.and_eq_true] at hrestored
      show ((s.setInner inner _).inners inner).isRestored = true
      rw [State.setInner_self, GuardInner.isRestored_iff]
      exact ⟨hclear (by rw [hrestored.1]) hsettles, hreturned hrestored.2⟩

theorem Owned.abnormalRestoreTarget {answers : Answers} (h : Owned page s)
    (hc : s.calls c = .exiting) : Owned page (abnormalRestoreTarget s c answers) := by
  have hnotPast : (s.calls c).isPast = true → False := by rw [hc]; exact Bool.false_ne_true
  have hslot := h.slot
  unfold SlotOk at hslot
  have hexited : Owned page (s.moveTo c (.exited none false)) :=
    h.moveTo (by rw [hc]; rfl) (by rw [hc]; rfl) (fun hp => (hnotPast hp).elim) trivial
  have hrestoring : ∀ {owner : GuardOwner} {e : InnerId}, s.Owns owner e →
      (s.calls e).isPast = true →
      Owned page (s.moveTo c (.restoring e .terminal (.guard owner))) := by
    intro owner e howns hpast
    refine h.moveTo (by rw [hc]; rfl) (by rw [hc]; rfl) (fun hp => (hnotPast hp).elim)
      ⟨⟨howns, isPast_moveTo hpast fun hp => (hnotPast hp).elim⟩, ?_⟩
    exact fun hp => absurd hp (by simp)
  unfold MCode.Tui.abnormalRestoreTarget
  cases hstate : s.slot.state with
  | vacant => exact hexited
  | entering owner e =>
      refine h.move (SameWork.setInner rfl rfl) rfl rfl rfl rfl (by rw [hc]; rfl)
        (by rw [hc]; rfl) (fun hp => (hnotPast hp).elim) ⟨trivial, ?_⟩
      exact fun hp => absurd hp (by simp)
  | active owner e =>
      rw [hstate] at hslot
      dsimp only
      by_cases hupgrade : ((s.calls e).keepsInner || answers.otherReference) = true
      · rw [if_pos hupgrade]
        exact hrestoring hslot.1 (Call.isPast_of_guarding hslot.2)
      · rw [if_neg hupgrade]
        exact hexited
  | pendingGuard owner e =>
      rw [hstate] at hslot
      exact hrestoring hslot.1 hslot.2

theorem Owned.finishEntering {owner : GuardOwner} {restored : Bool} (h : Owned page s)
    (hc : s.calls c = .finishingEntering owner restored) :
    Owned page
      ((s.setSlot (s.slot.state.finishEntering owner c restored)).moveTo c .failed) := by
  have hok := h.calls c
  rw [hc] at hok
  obtain ⟨hslot, hrestored⟩ := hok
  have hreservation : s.slot.state.reservation = some (owner, c) := by rw [hslot]; rfl
  refine h.release hreservation ?_ ?_ (fun _ => rfl) trivial
  · rw [hslot]
    unfold SlotState.finishEntering
    dsimp only
    rw [if_pos rfl]
    cases restored with
    | true => exact Or.inl ⟨rfl, hrestored rfl⟩
    | false => exact Or.inr ⟨rfl, by rw [State.moveTo_self]; rfl⟩
  · intro other e hne hentering
    rw [hslot] at hentering
    cases hentering
    exact hne rfl

/-- The guard of a call that does not hold the slot ends. -/
theorem Owned.ends {call : Call} (h : Owned page s)
    (htransaction : (s.calls c).transaction = none) (hnew : call.transaction = none)
    (hactive : ∀ owner, s.slot.state ≠ .active owner c)
    (hpast : (s.calls c).isPast = true → call.isPast = true)
    (hok : CallOk (s.moveTo c call) c call) : Owned page (s.moveTo c call) :=
  h.next rfl rfl rfl (hnew.trans htransaction.symm)
    (fun owner h => absurd h (hactive owner)) hpast
    (fun _ => Or.inl (GuardInner.Clears.refl _)) h.inner h.modes h.page hok

theorem Owned.finishGuard {owner : GuardOwner} {restored : Bool} (h : Owned page s)
    (hc : s.calls c = .finishingGuard owner restored) :
    Owned page ((s.setSlot (s.slot.state.finishGuard owner c restored)).moveTo c .dropped) := by
  have hok := h.calls c
  rw [hc] at hok
  obtain ⟨howns, hrestored⟩ := hok
  -- the caller's own reservation, which the entry cannot be under way in
  have howned : ∀ e, s.slot.state.reservation = some (owner, e) →
      (∀ other e', s.slot.state ≠ .entering other e') →
      Owned page ((s.setSlot (if restored then .vacant else .pendingGuard owner c)).moveTo c
        .dropped) := by
    intro e hreservation hentering
    obtain rfl : e = c := (h.owns hreservation).unique howns
    refine h.release hreservation ?_ (fun other e' _ => hentering other e') (fun _ => rfl) trivial
    cases restored with
    | true => exact Or.inl ⟨rfl, hrestored rfl⟩
    | false => exact Or.inr ⟨rfl, by rw [State.moveTo_self]; rfl⟩
  have hleft : (∀ other, s.slot.state ≠ .active other c) → Owned page (s.moveTo c .dropped) :=
    fun hactive => h.ends (by rw [hc]; rfl) rfl hactive (fun _ => rfl) trivial
  have hself : s.setSlot s.slot.state = s := rfl
  cases hstate : s.slot.state with
  | vacant =>
      show Owned page ((s.setSlot .vacant).moveTo c .dropped)
      rw [← hstate, hself]
      exact hleft fun other => by rw [hstate]; simp
  | entering other e =>
      show Owned page ((s.setSlot (.entering other e)).moveTo c .dropped)
      rw [← hstate, hself]
      exact hleft fun other => by rw [hstate]; simp
  | active other e =>
      unfold SlotState.finishGuard
      dsimp only
      by_cases hother : other = owner
      · rw [if_pos hother]
        exact howned e (by rw [hstate, hother]; rfl) fun _ _ => by rw [hstate]; simp
      · rw [if_neg hother, ← hstate, hself]
        refine hleft fun owner' hactive => hother ?_
        have hguarding := h.active hactive
        rw [hc] at hguarding
        cases hguarding
        rw [hstate] at hactive
        cases hactive
        rfl
  | pendingGuard other e =>
      unfold SlotState.finishGuard
      dsimp only
      by_cases hother : other = owner
      · rw [if_pos hother]
        exact howned e (by rw [hstate, hother]; rfl) fun _ _ => by rw [hstate]; simp
      · rw [if_neg hother, ← hstate, hself]
        exact hleft fun owner' => by rw [hstate]; simp

/-- The reservation of an owner that was restored is cleared, if it is still
there. -/
theorem Owned.clearRestoredOwner {owner : GuardOwner} {inner : InnerId} {call : Call}
    (h : Owned page s)
    (hok : (s.Owns owner inner ∧ (s.calls inner).isPast = true) ∧
      (s.inners inner).isRestored = true)
    (htransaction : (s.calls c).transaction = none) (hguarding : (s.calls c).guarding = none)
    (hpast : (s.calls c).isPast = false) (hnew : call.transaction = none)
    (hcall : ∀ t, CallOk t c call) :
    Owned page ((s.setSlot (s.slot.state.clearRestoredOwner owner)).moveTo c call) := by
  have hnotActive : ∀ other, s.slot.state ≠ .active other c := by
    intro other hactive
    have hother := h.active hactive
    rw [hguarding] at hother
    exact absurd hother (by simp)
  have hnotPast : (s.calls c).isPast = true → call.isPast = true := by
    rw [hpast]
    exact fun hp => absurd hp (by simp)
  have howned : ∀ e, s.slot.state.reservation = some (owner, e) →
      (∀ other e', s.slot.state ≠ .entering other e') →
      Owned page ((s.setSlot .vacant).moveTo c call) := by
    intro e hreservation hentering
    obtain rfl : e = inner := (h.owns hreservation).unique hok.1.1
    exact h.release hreservation (Or.inl ⟨rfl, hok.2⟩) (fun other e' _ => hentering other e')
      hnotPast (hcall _)
  have hleft : Owned page (s.moveTo c call) :=
    h.ends htransaction hnew hnotActive hnotPast (hcall _)
  have hself : s.setSlot s.slot.state = s := rfl
  cases hstate : s.slot.state with
  | vacant =>
      show Owned page ((s.setSlot .vacant).moveTo c call)
      rw [← hstate, hself]
      exact hleft
  | entering other e =>
      show Owned page ((s.setSlot (.entering other e)).moveTo c call)
      rw [← hstate, hself]
      exact hleft
  | active other e | pendingGuard other e =>
      unfold SlotState.clearRestoredOwner
      dsimp only
      by_cases hother : other = owner
      · rw [if_pos hother]
        exact howned e (by rw [hstate, hother]; rfl) fun _ _ => by rw [hstate]; simp
      · rw [if_neg hother, ← hstate, hself]
        exact hleft

theorem Owned.advance {answers : Answers} {t : State} (h : Owned page s)
    (ht : advance s c answers = some t) : Owned page t := by
  have hok := h.calls c
  unfold MCode.Tui.advance at ht
  cases hc : s.calls c with
  | claiming =>
      rw [hc] at ht
      cases ht
      exact h.claimActiveSlot hc
  | claimClearing owner inner =>
      rw [hc] at ht hok
      cases ht
      exact h.clearRestoredOwner hok (by rw [hc]; rfl) (by rw [hc]; rfl) (by rw [hc]; rfl) rfl
        fun _ => trivial
  | acquiring owner point =>
      rw [hc] at ht
      cases ht
      exact h.acquireOutput hc
  | staging owner stage stages point =>
      rw [hc] at ht
      exact h.enterStage hc ht
  | finishing owner =>
      rw [hc] at ht
      cases ht
      exact h.finish hc
  | cancelling owner =>
      rw [hc] at ht hok
      cases ht
      refine h.move (SameWork.setInner rfl rfl) rfl rfl rfl rfl (by rw [hc]; rfl)
        (by rw [hc]; rfl) (by rw [hc]; exact id) ⟨⟨rfl, hok⟩, ?_⟩
      exact fun hpoint => absurd hpoint (by simp)
  | finishingEntering owner restored =>
      rw [hc] at ht
      cases ht
      exact h.finishEntering hc
  | finishingGuard owner restored =>
      rw [hc] at ht
      cases ht
      exact h.finishGuard hc
  | restoring inner point restorer =>
      rw [hc] at ht
      exact h.restore hc ht
  | exiting =>
      rw [hc] at ht
      cases ht
      exact h.abnormalRestoreTarget hc
  | exitClearing owner inner =>
      rw [hc] at ht hok
      cases ht
      exact h.clearRestoredOwner hok (by rw [hc]; rfl) (by rw [hc]; rfl) (by rw [hc]; rfl) rfl
        fun _ => trivial
  | idle | refused | exhausted | lostReservation _ | failed | guard _ | dropped | restored
  | exited _ _ =>
      rw [hc] at ht
      exact absurd ht (by simp)

/-- The slot is that of a call that has started. -/
theorem Owned.started {owner : GuardOwner} {e : InnerId} (h : Owned page s)
    (hreservation : s.slot.state.reservation = some (owner, e)) : s.calls e ≠ .idle := by
  intro hidle
  have hslot := h.slot
  unfold SlotOk at hslot
  cases hstate : s.slot.state with
  | vacant =>
      rw [hstate] at hreservation
      exact absurd hreservation (by simp [SlotState.reservation])
  | entering other e' | active other e' | pendingGuard other e' =>
      rw [hstate] at hslot hreservation
      cases hreservation
      have hcall := hslot.2
      rw [hidle] at hcall
      exact absurd hcall (by simp [Call.transaction, Call.guarding, Call.isPast])

theorem Owned.enter {outputCp : Utf8OutputLease} (h : Owned page s) (hc : s.calls c = .idle)
    (hlease : outputCp.state.restoreTo = none) :
    Owned page ((s.setInner c (GuardInner.new outputCp)).moveTo c .claiming) := by
  have hrestored : (s.inners c).isRestored = true :=
    h.isRestored fun owner hreservation => h.started hreservation hc
  rw [GuardInner.isRestored_iff] at hrestored
  have hnew : ((s.setInner c (GuardInner.new outputCp)).inners c) = GuardInner.new outputCp :=
    State.setInner_self ..
  refine h.next rfl rfl rfl (by rw [hc]; rfl) (fun owner hactive => ?_)
    (by rw [hc]; exact id) ?_ ?_ ?_ ?_ trivial
  · have hguarding := h.active hactive
    rw [hc] at hguarding
    exact absurd hguarding (by simp [Call.guarding])
  · intro e
    show (s.inners e).Clears ((s.setInner c (GuardInner.new outputCp)).inners e) ∨ _
    by_cases he : e = c
    · rw [he, hnew]
      refine Or.inl ⟨fun stage hin => ?_, fun original hto => ?_⟩
      · exact absurd hin (by cases stage <;> simp [GuardInner.new, TerminalState.default,
          TerminalState.isEntered])
      · exact absurd (hlease.symm.trans hto) (by simp)
    · rw [State.setInner_of_ne s _ he]
      exact Or.inl (GuardInner.Clears.refl _)
  · intro e
    show InnerOk page ((s.setInner c (GuardInner.new outputCp)).inners e)
    by_cases he : e = c
    · rw [he, hnew]
      intro original hto
      exact absurd (hlease.symm.trans hto) (by simp)
    · rw [State.setInner_of_ne s _ he]
      exact h.inner e
  · intro stage hon
    obtain ⟨e, hin⟩ := h.modes stage hon
    refine ⟨e, ?_⟩
    show ((s.setInner c (GuardInner.new outputCp)).inners e).terminalState.isEntered stage = true
    by_cases he : e = c
    · rw [he, (TerminalState.isClear_iff _).1 hrestored.1 stage] at hin
      exact absurd hin (by simp)
    · rw [State.setInner_of_ne s _ he]
      exact hin
  · intro hall
    apply h.page
    intro e
    by_cases he : e = c
    · rw [he]
      exact hrestored.2
    · have hnone : ((s.setInner c (GuardInner.new outputCp)).inners e).outputCp.state.restoreTo =
          none := hall e
      rw [State.setInner_of_ne s _ he] at hnone
      exact hnone

/-- Whatever happens next keeps the invariant. -/
theorem Owned.step {act : Act} {t : State} (h : Owned page s) (ht : step s act = some t) :
    Owned page t := by
  cases act with
  | enter c outputCp =>
      unfold MCode.Tui.step at ht
      dsimp only at ht
      split_ifs at ht with henter
      cases ht
      refine h.enter henter.1 ?_
      have hlease := henter.2
      simp only [List.mem_cons, List.not_mem_nil, or_false] at hlease
      cases hlease with
      | inl hlease => rw [hlease]; rfl
      | inr hlease => rw [hlease]; rfl
  | drop c =>
      rw [MCode.Tui.step] at ht
      split at ht
      · rename_i owner hc
        cases ht
        have hok := h.calls c
        rw [hc] at hok
        refine h.moveTo (by rw [hc]; rfl) (by rw [hc]; rfl) (fun _ => rfl) ⟨⟨rfl, hok⟩, ?_⟩
        exact fun hpoint => absurd hpoint (by simp)
      · exact absurd ht (by simp)
  | restore c e =>
      rw [MCode.Tui.step] at ht
      split at ht
      · rename_i owner hc he
        cases ht
        refine h.moveTo (by rw [hc]; rfl) (by rw [hc]; rfl) (by rw [hc]; exact id) ⟨trivial, ?_⟩
        exact fun hpoint => absurd hpoint (by simp)
      · exact absurd ht (by simp)
  | exit c =>
      unfold MCode.Tui.step at ht
      dsimp only at ht
      split_ifs at ht with hc
      cases ht
      exact h.moveTo (by rw [hc]; rfl) (by rw [hc]; rfl) (by rw [hc]; exact id) trivial
  | advance c answers => exact h.advance ht

end Step

/-- The invariant holds in every state that any interleaving reaches. -/
theorem Owned.reached {page : Nat} {s : State} (h : Reaches MCode.Tui.step (State.init page) s) :
    Owned page s :=
  h.preserves (fun _ _ _ hu hv => hu.step hv) (Owned.init page)

end MCode.Tui
