import MCode.Lib.Machine

/-!
# The terminal guard

`mcode-tui/src/guard.rs` and `output_cp.rs`: one slot of the process says
which entry owns the terminal, and each entry has a `GuardInner` that records
the modes it turned on and the code page it has to put back.

A call is a program point, `Call`; `advance` performs its next step and `step`
lets any call of the process do so.  A section under the lock of the slot or of
a lease is one step, and so is an access to the flag `cancelled`.  A terminal
stage is split further: its lock is taken, the flag is read, the mode is
changed, the flag is read again and the lock released in separate steps, and
`restore` waits for that lock.  What an operation of the terminal answers, and
whether one that fails was applied, is part of the label.

The `GuardInner` of an entry has the number of the call that made it.  The
console stands for the one terminal behind all of them.  The drop of a lease
is left out: it finds nothing to restore, since the slot or the guard keeps
alive whatever is not restored.
-/

namespace MCode.Tui

/-! ## Terminal state -/

inductive EnterStage where
  | rawMode
  | alternateScreen
  | hideCursor
  | bracketedPaste
  deriving DecidableEq, Repr

def ENTER_STAGES : List EnterStage :=
  [.rawMode, .alternateScreen, .hideCursor, .bracketedPaste]

def RESTORE_STAGES : List EnterStage :=
  [.bracketedPaste, .hideCursor, .alternateScreen, .rawMode]

structure TerminalState where
  raw : Bool
  alternate : Bool
  cursorHidden : Bool
  bracketedPaste : Bool
  restoreStarted : Bool
  deriving DecidableEq

/-- `TerminalState::default`. -/
def TerminalState.default : TerminalState := ⟨false, false, false, false, false⟩

def TerminalState.isEntered (self : TerminalState) : EnterStage → Bool
  | .rawMode => self.raw
  | .alternateScreen => self.alternate
  | .hideCursor => self.cursorHidden
  | .bracketedPaste => self.bracketedPaste

def TerminalState.setEntered (self : TerminalState) (stage : EnterStage) (entered : Bool) :
    TerminalState :=
  match stage with
  | .rawMode => { self with raw := entered }
  | .alternateScreen => { self with alternate := entered }
  | .hideCursor => { self with cursorHidden := entered }
  | .bracketedPaste => { self with bracketedPaste := entered }

def TerminalState.isClear (self : TerminalState) : Bool :=
  !self.raw && !self.alternate && !self.cursorHidden && !self.bracketedPaste

theorem TerminalState.isEntered_setEntered (self : TerminalState) (stage other : EnterStage)
    (entered : Bool) :
    (self.setEntered stage entered).isEntered other =
      if other = stage then entered else self.isEntered other := by
  cases stage <;> cases other <;> rfl

theorem TerminalState.isClear_iff (self : TerminalState) :
    self.isClear = true ↔ ∀ stage, self.isEntered stage = false := by
  constructor
  · intro h stage
    simp only [isClear, Bool.and_eq_true, Bool.not_eq_true'] at h
    cases stage <;> simp [isEntered, h]
  · intro h
    simp only [isClear, Bool.and_eq_true, Bool.not_eq_true']
    exact ⟨⟨⟨h .rawMode, h .alternateScreen⟩, h .hideCursor⟩, h .bracketedPaste⟩

/-! ## The console -/

def CP_UTF8 : Nat := 65001

/-- The terminal itself: which modes are on, and its output code page. -/
structure Console where
  modes : EnterStage → Bool
  page : Nat

/-- No mode is on. -/
def Console.untouched (page : Nat) : Console := ⟨fun _ => false, page⟩

/-- The answer of `TerminalModes::enter` or `leave`.  A write may be applied
before its flush fails. -/
inductive Outcome where
  | done
  | failed (applied : Bool)
  deriving DecidableEq

def Outcome.isOk : Outcome → Bool
  | .done => true
  | .failed _ => false

def Outcome.isApplied : Outcome → Bool
  | .done => true
  | .failed applied => applied

/-- The console after an operation on `stage` that was to set it to `on`. -/
def Console.operate (self : Console) (stage : EnterStage) (on : Bool) (outcome : Outcome) :
    Console :=
  if outcome.isApplied = true
  then { self with modes := fun other => if other = stage then on else self.modes other }
  else self

theorem Outcome.isApplied_of_isOk {outcome : Outcome} (h : outcome.isOk = true) :
    outcome.isApplied = true := by
  cases outcome with
  | done => rfl
  | failed applied => exact absurd h (by simp [isOk])

@[simp] theorem Console.operate_page (self : Console) (stage : EnterStage) (on : Bool)
    (outcome : Outcome) : (self.operate stage on outcome).page = self.page := by
  unfold operate
  split <;> rfl

theorem Console.operate_modes (self : Console) (stage other : EnterStage) (on : Bool)
    (outcome : Outcome) :
    (self.operate stage on outcome).modes other =
      if other = stage ∧ outcome.isApplied = true then on else self.modes other := by
  unfold operate
  by_cases happlied : outcome.isApplied = true <;> simp [happlied]

/-- What the operations of one step answer.  A code page whose setting fails
is the page it was, and `otherReference` says whether a probe or another call
keeps the `GuardInner` of a weak reference alive. -/
structure Answers where
  enter : Outcome
  leave : EnterStage → Outcome
  unicodeGlyphs : Option Bool
  pageKnown : Bool
  pageSet : Bool
  otherReference : Bool

/-- Every operation succeeds. -/
def Answers.allDone : Answers := ⟨.done, fun _ => .done, some true, true, true, false⟩

/-! ## The output lease -/

structure OutputLeaseState where
  acquired : Bool
  unicode : Bool
  restoreTo : Option Nat
  deriving DecidableEq

/-- `Utf8OutputLease`, with `backend` for whether it has one. -/
structure Utf8OutputLease where
  backend : Bool
  state : OutputLeaseState
  deriving DecidableEq

def Utf8OutputLease.supportedWithoutSwitch : Utf8OutputLease := ⟨false, ⟨true, true, none⟩⟩

def Utf8OutputLease.pending : Utf8OutputLease := ⟨true, ⟨false, false, none⟩⟩

/-- `acquire`, under the lock of the lease. -/
def Utf8OutputLease.acquire (self : Utf8OutputLease) (console : Console) (answers : Answers) :
    Utf8OutputLease × Console :=
  if self.state.acquired then (self, console)
  else if !self.backend then ({ self with state.acquired := true }, console)
  else if answers.unicodeGlyphs ≠ some true then
    ({ self with state.acquired := true }, console)
  else if !answers.pageKnown then ({ self with state.acquired := true }, console)
  else if console.page = CP_UTF8 then
    ({ self with state.unicode := true, state.acquired := true }, console)
  else if answers.pageSet then
    (⟨self.backend, ⟨true, true, some console.page⟩⟩, { console with page := CP_UTF8 })
  else (⟨self.backend, ⟨true, self.state.unicode, none⟩⟩, console)

/-- `restore`, under the lock of the lease. -/
def Utf8OutputLease.restore (self : Utf8OutputLease) (console : Console) (answers : Answers) :
    Bool × Utf8OutputLease × Console :=
  match self.state.restoreTo with
  | none => (true, self, console)
  | some original =>
      if !self.backend then (false, self, console)
      else if !answers.pageSet then (false, self, console)
      else (true, { self with state.restoreTo := none }, { console with page := original })

/-- `restore` puts the page back that it recorded, or changes nothing. -/
theorem Utf8OutputLease.restore_cases (self : Utf8OutputLease) (console : Console)
    (answers : Answers) :
    (∃ original, self.state.restoreTo = some original ∧ self.restore console answers =
      (true, { self with state.restoreTo := none }, { console with page := original })) ∨
    (∃ restored, (restored = true → self.state.restoreTo = none) ∧
      self.restore console answers = (restored, self, console)) := by
  unfold restore
  cases hto : self.state.restoreTo with
  | none => exact Or.inr ⟨true, fun _ => rfl, rfl⟩
  | some original =>
      by_cases hbackend : self.backend = true
      · by_cases hset : answers.pageSet = true
        · exact Or.inl ⟨original, rfl, by simp [hbackend, hset]⟩
        · exact Or.inr ⟨false, fun h => absurd h (by simp), by simp [hbackend, hset]⟩
      · exact Or.inr ⟨false, fun h => absurd h (by simp), by simp [hbackend]⟩

/-- `acquire` switches the page: it has not run yet, Unicode is supported and
the page is known, another one, and can be set. -/
def Utf8OutputLease.Switches (self : Utf8OutputLease) (console : Console) (answers : Answers) :
    Prop :=
  self.state.acquired = false ∧ self.backend = true ∧ answers.unicodeGlyphs = some true ∧
    answers.pageKnown = true ∧ console.page ≠ CP_UTF8 ∧ answers.pageSet = true

theorem Utf8OutputLease.acquire_of_switches {self : Utf8OutputLease} {console : Console}
    {answers : Answers} (h : self.Switches console answers) :
    self.acquire console answers =
      (⟨true, ⟨true, true, some console.page⟩⟩, { console with page := CP_UTF8 }) := by
  obtain ⟨hacquired, hbackend, hglyphs, hknown, hpage, hset⟩ := h
  simp [acquire, hacquired, hbackend, hglyphs, hknown, hpage, hset]

/-- Otherwise the console is as it was, and there is no new obligation. -/
theorem Utf8OutputLease.acquire_of_not_switches {self : Utf8OutputLease} {console : Console}
    {answers : Answers} (h : ¬ self.Switches console answers) :
    (self.acquire console answers).2 = console ∧
      (self.acquire console answers).1.backend = self.backend ∧
      (self.acquire console answers).1.state.acquired = true ∧
      ((self.acquire console answers).1.state.restoreTo = self.state.restoreTo ∨
        self.state.acquired = false ∧
          (self.acquire console answers).1.state.restoreTo = none) := by
  unfold acquire
  by_cases hacquired : self.state.acquired = true
  · simp [hacquired]
  · by_cases hbackend : self.backend = true
    · by_cases hglyphs : answers.unicodeGlyphs = some true
      · by_cases hknown : answers.pageKnown = true
        · by_cases hpage : console.page = CP_UTF8
          · simp [hacquired, hbackend, hglyphs, hknown, hpage]
          · by_cases hset : answers.pageSet = true
            · exact absurd ⟨by simpa using hacquired, hbackend, hglyphs, hknown, hpage, hset⟩ h
            · simp [hacquired, hbackend, hglyphs, hknown, hpage, hset]
        · simp [hacquired, hbackend, hglyphs, hknown]
      · simp [hacquired, hbackend, hglyphs]
    · simp [hacquired, hbackend]

def Utf8OutputLease.restoreObligationCleared (self : Utf8OutputLease) : Bool :=
  self.state.restoreTo.isNone

/-! ## `GuardInner` -/

/-- `GuardInner`, with `locked` for whether a stage holds the lock of
`terminal_state`. -/
structure GuardInner where
  terminalState : TerminalState
  locked : Bool
  cancelled : Bool
  restoreCount : Nat
  outputCp : Utf8OutputLease
  deriving DecidableEq

def GuardInner.new (outputCp : Utf8OutputLease) : GuardInner :=
  ⟨TerminalState.default, false, false, 0, outputCp⟩

def GuardInner.requestCancel (self : GuardInner) : GuardInner := { self with cancelled := true }

/-- The loop of `restore` over the stages that it has still to leave. -/
def leaveStages (answers : Answers) :
    List EnterStage → TerminalState → Console → TerminalState × Console
  | [], state, console => (state, console)
  | stage :: stages, state, console =>
      if state.isEntered stage = true then
        let outcome := answers.leave stage
        leaveStages answers stages
          (if outcome.isOk = true then state.setEntered stage false else state)
          (console.operate stage false outcome)
      else leaveStages answers stages state console

/-- The part of `restore` under the lock of `terminal_state`. -/
def GuardInner.restoreTerminal (self : GuardInner) (console : Console) (answers : Answers) :
    Bool × GuardInner × Console :=
  let starts := !self.terminalState.isClear && !self.terminalState.restoreStarted
  let state := if starts then { self.terminalState with restoreStarted := true }
    else self.terminalState
  let (state, console) := leaveStages answers RESTORE_STAGES state console
  (state.isClear,
    { self with
      terminalState := state
      restoreCount := if starts then self.restoreCount + 1 else self.restoreCount },
    console)

def GuardInner.isRestored (self : GuardInner) : Bool :=
  self.terminalState.isClear && self.outputCp.restoreObligationCleared

/-! ## The slot -/

/-- `GuardOwner`, a `u64`. -/
abbrev GuardOwner := Nat

/-- The number of the call that made a `GuardInner`. -/
abbrev InnerId := Nat

inductive SlotState where
  | vacant
  | entering (owner : GuardOwner) (inner : InnerId)
  | active (owner : GuardOwner) (inner : InnerId)
  | pendingGuard (owner : GuardOwner) (inner : InnerId)
  deriving DecidableEq

structure GuardSlot where
  nextOwner : Nat
  state : SlotState
  deriving DecidableEq

/-- The reservation in the slot. -/
def SlotState.reservation : SlotState → Option (GuardOwner × InnerId)
  | .vacant => none
  | .entering owner inner => some (owner, inner)
  | .active owner inner => some (owner, inner)
  | .pendingGuard owner inner => some (owner, inner)

/-- The new state of `finish_entering`. -/
def SlotState.finishEntering (self : SlotState) (owner : GuardOwner) (inner : InnerId)
    (restored : Bool) : SlotState :=
  match self with
  | .entering current _ =>
      if current = owner then if restored then .vacant else .pendingGuard owner inner else self
  | _ => self

/-- The new state of `finish_guard`. -/
def SlotState.finishGuard (self : SlotState) (owner : GuardOwner) (inner : InnerId)
    (restored : Bool) : SlotState :=
  match self with
  | .active current _ | .pendingGuard current _ =>
      if current = owner then if restored then .vacant else .pendingGuard owner inner else self
  | _ => self

/-- The new state of `clear_restored_owner`. -/
def SlotState.clearRestoredOwner (self : SlotState) (owner : GuardOwner) : SlotState :=
  match self with
  | .active current _ | .pendingGuard current _ => if current = owner then .vacant else self
  | _ => self

/-! ## Calls -/

/-- Where `acquire_output` is. -/
inductive AcquirePoint where
  /-- Before it reads `cancelled`. -/
  | check
  /-- Before the section of `Utf8OutputLease::acquire`. -/
  | acquire
  /-- Before it reads `cancelled` again. -/
  | recheck
  deriving DecidableEq

/-- Where `enter_stage` is. -/
inductive StagePoint where
  /-- Before it reads `cancelled`. -/
  | check
  /-- Before it takes the lock. -/
  | lock
  /-- Holds the lock, before it reads `cancelled`. -/
  | test
  /-- Holds the lock, before it changes the mode. -/
  | mutate
  /-- Holds the lock, before it reads `cancelled` again. -/
  | recheck
  deriving DecidableEq

/-- Where `restore` is. -/
inductive RestorePoint where
  | terminal
  /-- Left the terminal modes, all of them if `terminalRestored`. -/
  | output (terminalRestored : Bool)
  deriving DecidableEq

/-- What `restore` was called from. -/
inductive Restorer where
  /-- `claim_active_slot`, for a pending guard. -/
  | claim (owner : GuardOwner)
  /-- The drop of an `EnterTransaction`. -/
  | transaction (owner : GuardOwner)
  /-- The drop of a `TerminalGuard`. -/
  | guardDrop (owner : GuardOwner)
  /-- `TerminalGuard::restore`. -/
  | guardRestore
  /-- `restore_on_abnormal_exit`, for `RestoreTarget::Entering`. -/
  | entering
  /-- `restore_on_abnormal_exit`, for `RestoreTarget::Guard`. -/
  | guard (owner : GuardOwner)
  deriving DecidableEq

/-- What `abnormal_restore_target` found. -/
inductive RestoreTarget where
  | entering (inner : InnerId)
  | guard (owner : GuardOwner) (inner : InnerId)
  deriving DecidableEq

/-- A call at the point before its next step. -/
inductive Call where
  | idle
  /-- `TerminalGuard::enter`, in the loop of `claim_active_slot`. -/
  | claiming
  /-- `clear_restored_owner` for the pending guard that the loop restored. -/
  | claimClearing (owner : GuardOwner) (inner : InnerId)
  /-- Returned an error from `claim_active_slot`. -/
  | refused
  /-- Panicked because there are no owners left. -/
  | exhausted
  | acquiring (owner : GuardOwner) (point : AcquirePoint)
  | staging (owner : GuardOwner) (stage : EnterStage) (stages : List EnterStage)
      (point : StagePoint)
  /-- Before the section of `finish`. -/
  | finishing (owner : GuardOwner)
  /-- Panicked in `finish`. -/
  | lostReservation (owner : GuardOwner)
  /-- The drop of the transaction, before `request_cancel`. -/
  | cancelling (owner : GuardOwner)
  | finishingEntering (owner : GuardOwner) (restored : Bool)
  /-- Returned an error after the drop of its transaction. -/
  | failed
  /-- Returned a `TerminalGuard` that is alive. -/
  | guard (owner : GuardOwner)
  | finishingGuard (owner : GuardOwner) (restored : Bool)
  | dropped
  | restoring (inner : InnerId) (point : RestorePoint) (restorer : Restorer)
  /-- `TerminalGuard::restore` returned. -/
  | restored
  /-- `restore_on_abnormal_exit`, before `abnormal_restore_target`. -/
  | exiting
  /-- `clear_restored_owner` for the guard that was restored. -/
  | exitClearing (owner : GuardOwner) (inner : InnerId)
  /-- `restore_on_abnormal_exit` returned, with what it restored and whether
  `restore` said that nothing is left to do. -/
  | exited (target : Option RestoreTarget) (restored : Bool)
  deriving DecidableEq

/-- The call once `restore` has returned `restored`. -/
def Restorer.resume (self : Restorer) (inner : InnerId) (restored : Bool) : Call :=
  match self with
  | .claim owner => if restored then .claimClearing owner inner else .refused
  | .transaction owner => .finishingEntering owner restored
  | .guardDrop owner => .finishingGuard owner restored
  | .guardRestore => .restored
  | .entering => .exited (some (.entering inner)) restored
  | .guard owner =>
      if restored then .exitClearing owner inner else .exited (some (.guard owner inner)) false

/-- The claim of an owner: whose it is, and the console that it found. -/
structure Claim where
  inner : InnerId
  found : Console

/-- The process.  `claims` is what each owner was given to. -/
structure State where
  slot : GuardSlot
  inners : InnerId → GuardInner
  calls : Nat → Call
  console : Console
  claims : GuardOwner → Option Claim

def State.init (page : Nat) : State :=
  ⟨⟨1, .vacant⟩, fun _ => GuardInner.new Utf8OutputLease.supportedWithoutSwitch,
    fun _ => .idle, Console.untouched page, fun _ => none⟩

def State.moveTo (s : State) (c : Nat) (call : Call) : State :=
  { s with calls := Function.update s.calls c call }

def State.setInner (s : State) (e : InnerId) (inner : GuardInner) : State :=
  { s with inners := Function.update s.inners e inner }

def State.setSlot (s : State) (state : SlotState) : State :=
  { s with slot := { s.slot with state := state } }

@[simp] theorem State.moveTo_self (s : State) (c : Nat) (call : Call) :
    (s.moveTo c call).calls c = call := by
  simp [moveTo]

theorem State.moveTo_of_ne (s : State) {c c' : Nat} (call : Call) (h : c' ≠ c) :
    (s.moveTo c call).calls c' = s.calls c' := by
  simp [moveTo, h]

@[simp] theorem State.setInner_self (s : State) (e : InnerId) (inner : GuardInner) :
    (s.setInner e inner).inners e = inner := by
  simp [setInner]

theorem State.setInner_of_ne (s : State) {e e' : InnerId} (inner : GuardInner) (h : e' ≠ e) :
    (s.setInner e inner).inners e' = s.inners e' := by
  simp [setInner, h]

/-- `u64::MAX`. -/
def ownerMax : Nat := 2 ^ 64 - 1

/-- The section of `claim_active_slot`. -/
def claimActiveSlot (s : State) (c : Nat) : State :=
  match s.slot.state with
  | .vacant =>
      if s.slot.nextOwner = ownerMax then s.moveTo c .exhausted
      else
        { s with
          slot := ⟨s.slot.nextOwner + 1, .entering s.slot.nextOwner c⟩
          claims := Function.update s.claims s.slot.nextOwner (some ⟨c, s.console⟩)
          calls := Function.update s.calls c (.acquiring s.slot.nextOwner .check) }
  | .entering _ _ | .active _ _ => s.moveTo c .refused
  | .pendingGuard owner inner => s.moveTo c (.restoring inner .terminal (.claim owner))

/-- The call before the stages that are left. -/
def nextStage (owner : GuardOwner) : List EnterStage → Call
  | [] => .finishing owner
  | stage :: stages => .staging owner stage stages .check

/-- `acquire_output`. -/
def acquireOutput (s : State) (c : Nat) (owner : GuardOwner) (answers : Answers) :
    AcquirePoint → State
  | .check =>
      if (s.inners c).cancelled = true then s.moveTo c (.cancelling owner)
      else s.moveTo c (.acquiring owner .acquire)
  | .acquire =>
      let (lease, console) := (s.inners c).outputCp.acquire s.console answers
      { (s.setInner c { s.inners c with outputCp := lease }).moveTo c
          (.acquiring owner .recheck) with console := console }
  | .recheck =>
      if (s.inners c).cancelled = true then s.moveTo c (.cancelling owner)
      else s.moveTo c (nextStage owner ENTER_STAGES)

def State.unlock (s : State) (c : Nat) : State :=
  s.setInner c { s.inners c with locked := false }

/-- `enter_stage`; `none` while another call holds the lock. -/
def enterStage (s : State) (c : Nat) (owner : GuardOwner) (stage : EnterStage)
    (stages : List EnterStage) (answers : Answers) : StagePoint → Option State
  | .check =>
      if (s.inners c).cancelled = true then some (s.moveTo c (.cancelling owner))
      else some (s.moveTo c (.staging owner stage stages .lock))
  | .lock =>
      if (s.inners c).locked = true then none
      else some ((s.setInner c { s.inners c with locked := true }).moveTo c
        (.staging owner stage stages .test))
  | .test =>
      if (s.inners c).cancelled = true then some ((s.unlock c).moveTo c (.cancelling owner))
      else some (s.moveTo c (.staging owner stage stages .mutate))
  | .mutate =>
      let s := { s.setInner c { s.inners c with
          terminalState := (s.inners c).terminalState.setEntered stage true } with
        console := s.console.operate stage true answers.enter }
      if answers.enter.isOk = true then some (s.moveTo c (.staging owner stage stages .recheck))
      else some ((s.unlock c).moveTo c (.cancelling owner))
  | .recheck =>
      if (s.inners c).cancelled = true then some ((s.unlock c).moveTo c (.cancelling owner))
      else some ((s.unlock c).moveTo c (nextStage owner stages))

/-- The section of `finish`. -/
def finish (s : State) (c : Nat) (owner : GuardOwner) : State :=
  match s.slot.state with
  | .entering current _ =>
      if current = owner then
        if (s.inners c).cancelled = true then s.moveTo c (.cancelling owner)
        else (s.setSlot (.active owner c)).moveTo c (.guard owner)
      else s.moveTo c (.lostReservation owner)
  | _ => s.moveTo c (.lostReservation owner)

/-- `restore`; `none` while a stage holds the lock. -/
def restore (s : State) (c : Nat) (inner : InnerId) (restorer : Restorer) (answers : Answers) :
    RestorePoint → Option State
  | .terminal =>
      if (s.inners inner).locked = true then none
      else
        let (restored, left, console) := (s.inners inner).restoreTerminal s.console answers
        some { (s.setInner inner left).moveTo c (.restoring inner (.output restored) restorer) with
          console := console }
  | .output terminalRestored =>
      let (restored, lease, console) := (s.inners inner).outputCp.restore s.console answers
      some { (s.setInner inner { s.inners inner with outputCp := lease }).moveTo c
          (restorer.resume inner (terminalRestored && restored)) with
        console := console }

/-- Whether the enter call `e` still keeps its `GuardInner` alive. -/
def Call.keepsInner : Call → Bool
  | .acquiring _ _ | .staging _ _ _ _ | .finishing _ | .cancelling _ | .finishingEntering _ _
  | .guard _ | .finishingGuard _ _ | .restoring _ _ (.transaction _)
  | .restoring _ _ (.guardDrop _) => true
  | _ => false

/-- `abnormal_restore_target`, and the cancellation of an entry. -/
def abnormalRestoreTarget (s : State) (c : Nat) (answers : Answers) : State :=
  match s.slot.state with
  | .entering _ inner =>
      (s.setInner inner (s.inners inner).requestCancel).moveTo c
        (.restoring inner .terminal .entering)
  | .active owner inner =>
      if ((s.calls inner).keepsInner || answers.otherReference) = true
      then s.moveTo c (.restoring inner .terminal (.guard owner))
      else s.moveTo c (.exited none false)
  | .pendingGuard owner inner => s.moveTo c (.restoring inner .terminal (.guard owner))
  | .vacant => s.moveTo c (.exited none false)

/-- The next step of call `c`; `none` while it waits, or once it has returned. -/
def advance (s : State) (c : Nat) (answers : Answers) : Option State :=
  match s.calls c with
  | .claiming => some (claimActiveSlot s c)
  | .claimClearing owner _ =>
      some ((s.setSlot (s.slot.state.clearRestoredOwner owner)).moveTo c .claiming)
  | .acquiring owner point => some (acquireOutput s c owner answers point)
  | .staging owner stage stages point => enterStage s c owner stage stages answers point
  | .finishing owner => some (finish s c owner)
  | .cancelling owner =>
      some ((s.setInner c (s.inners c).requestCancel).moveTo c
        (.restoring c .terminal (.transaction owner)))
  | .finishingEntering owner restored =>
      some ((s.setSlot (s.slot.state.finishEntering owner c restored)).moveTo c .failed)
  | .finishingGuard owner restored =>
      some ((s.setSlot (s.slot.state.finishGuard owner c restored)).moveTo c .dropped)
  | .restoring inner point restorer => restore s c inner restorer answers point
  | .exiting => some (abnormalRestoreTarget s c answers)
  | .exitClearing owner inner =>
      some ((s.setSlot (s.slot.state.clearRestoredOwner owner)).moveTo c
        (.exited (some (.guard owner inner)) true))
  | .idle | .refused | .exhausted | .lostReservation _ | .failed | .guard _ | .dropped
  | .restored | .exited _ _ => none

/-- What can happen next. -/
inductive Act where
  /-- Call `c` starts `TerminalGuard::enter` with a lease. -/
  | enter (c : Nat) (outputCp : Utf8OutputLease)
  /-- The guard of call `c` is dropped. -/
  | drop (c : Nat)
  /-- Call `c` starts `restore` of the guard of call `e`. -/
  | restore (c e : Nat)
  /-- Call `c` starts `restore_on_abnormal_exit`. -/
  | exit (c : Nat)
  /-- Call `c` performs its next step. -/
  | advance (c : Nat) (answers : Answers)

/-- One step of the process. -/
def step (s : State) : Act → Option State
  | .enter c outputCp =>
      if s.calls c = .idle ∧ outputCp ∈
        [Utf8OutputLease.supportedWithoutSwitch, Utf8OutputLease.pending]
      then some ((s.setInner c (GuardInner.new outputCp)).moveTo c .claiming)
      else none
  | .drop c =>
      match s.calls c with
      | .guard owner => some (s.moveTo c (.restoring c .terminal (.guardDrop owner)))
      | _ => none
  | .restore c e =>
      match s.calls c, s.calls e with
      | .idle, .guard _ => some (s.moveTo c (.restoring e .terminal .guardRestore))
      | _, _ => none
  | .exit c => if s.calls c = .idle then some (s.moveTo c .exiting) else none
  | .advance c answers => advance s c answers

end MCode.Tui
