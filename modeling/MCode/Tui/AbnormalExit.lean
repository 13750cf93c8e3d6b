import MCode.Tui.Exclusive

/-!
# An abnormal exit during an entry

`restore_on_abnormal_exit` cancels the entry that it finds, and restores what
that entry has done so far.  A terminal stage reads `cancelled` again under the
lock that the exit waits for, so no mode is turned on afterwards.  The section
of `Utf8OutputLease::acquire` does not read it: an entry that was past its
first check switches the code page behind the exit.

The exit is final in exactly the runs in which no entry does so.
-/

namespace MCode.Tui

open MCode.Lib.Machine

/-! ## What a step does to one entry -/

/-- The entry has had its claim. -/
def Call.hasBegun (call : Call) : Bool := call.transaction.isSome || call.isPast

/-- The entry holds the lock and is about to change a mode. -/
def Call.isMutating : Call → Bool
  | .staging _ _ _ .mutate => true
  | _ => false

/-- The entry is before the section of `acquire`. -/
def Call.isSwitching : Call → Bool
  | .acquiring _ .acquire => true
  | _ => false

/-- The entry holds the lock of its terminal state. -/
def Call.holdsLock : Call → Bool
  | .staging _ _ _ .test => true
  | .staging _ _ _ .mutate => true
  | .staging _ _ _ .recheck => true
  | _ => false

/-- What a step does to an entry: it owes no more than before, and stays
cancelled. -/
structure Fades (inner left : GuardInner) : Prop where
  clears : inner.Clears left
  cancelled : inner.cancelled = true → left.cancelled = true

theorem Fades.refl (inner : GuardInner) : Fades inner inner :=
  ⟨GuardInner.Clears.refl inner, id⟩

theorem Restores.fades {inner left : GuardInner} {console after : Console}
    (h : Restores inner console left after) : Fades inner left :=
  ⟨h.clears, fun hcancelled => h.cancelled.trans hcancelled⟩

/-- What a step of another call does to entry `e`. -/
structure Spares (s t : State) (e : InnerId) : Prop where
  call : t.calls e = s.calls e
  fades : Fades (s.inners e) (t.inners e)
  locked : (t.inners e).locked = (s.inners e).locked

section Others

variable {s t : State} {c : Nat} {e : InnerId} {answers : Answers}

/-- A call moves on, and entry `e'` is left as `left`. -/
theorem spares_setInner {e' : InnerId} {left : GuardInner} {call : Call} (console : Console)
    (hne : e ≠ c) (hfades : e = e' → Fades (s.inners e') left)
    (hlocked : e = e' → left.locked = (s.inners e').locked) :
    Spares s { (s.setInner e' left).moveTo c call with console := console } e := by
  have hcall : ((s.setInner e' left).moveTo c call).calls e = s.calls e :=
    State.moveTo_of_ne _ call hne
  by_cases he : e = e'
  · obtain rfl := he
    refine ⟨hcall, ?_, ?_⟩
    · show Fades (s.inners e) ((s.setInner e left).inners e)
      rw [State.setInner_self]
      exact hfades rfl
    · show ((s.setInner e left).inners e).locked = _
      rw [State.setInner_self]
      exact hlocked rfl
  · have hinner : (s.setInner e' left).inners e = s.inners e := State.setInner_of_ne s left he
    refine ⟨hcall, ?_, ?_⟩
    · show Fades (s.inners e) ((s.setInner e' left).inners e)
      rw [hinner]
      exact Fades.refl _
    · show ((s.setInner e' left).inners e).locked = _
      rw [hinner]

theorem spares_moveTo {call : Call} (hne : e ≠ c) : Spares s (s.moveTo c call) e :=
  ⟨State.moveTo_of_ne s call hne, Fades.refl _, rfl⟩

theorem spares_enterStage {owner : GuardOwner} {stage : EnterStage} {stages : List EnterStage}
    {point : StagePoint} (hne : e ≠ c)
    (ht : enterStage s c owner stage stages answers point = some t) : Spares s t e := by
  have hown : ∀ (inner : GuardInner) (call : Call) (console : Console),
      Spares s { (s.setInner c inner).moveTo c call with console := console } e :=
    fun inner call console => spares_setInner console hne (fun he => absurd he hne)
      (fun he => absurd he hne)
  cases point with
  | check =>
      simp only [enterStage] at ht
      split at ht <;> cases ht <;> exact spares_moveTo hne
  | lock =>
      simp only [enterStage] at ht
      split at ht
      · exact absurd ht (by simp)
      · cases ht
        exact hown _ _ _
  | test =>
      simp only [enterStage] at ht
      split at ht <;> cases ht
      · exact hown _ _ _
      · exact spares_moveTo hne
  | mutate =>
      simp only [enterStage] at ht
      split at ht <;> cases ht
      · exact hown _ _ _
      · refine ⟨State.moveTo_of_ne _ _ hne, ?_, ?_⟩
        · simp [State.unlock, State.setInner, State.moveTo, hne, Fades.refl]
        · simp [State.unlock, State.setInner, State.moveTo, hne]
  | recheck =>
      simp only [enterStage] at ht
      split at ht <;> cases ht <;> exact hown _ _ _

theorem spares_restore {inner : InnerId} {restorer : Restorer} {point : RestorePoint}
    (hne : e ≠ c) (ht : restore s c inner restorer answers point = some t) : Spares s t e := by
  cases point with
  | terminal =>
      simp only [restore] at ht
      split at ht
      · exact absurd ht (by simp)
      · cases ht
        have hrestores := (restoreTerminal_restores (s.inners inner) s.console answers).1
        exact spares_setInner _ hne (fun _ => hrestores.fades) fun _ => hrestores.locked
  | output terminalRestored =>
      cases ht
      have hrestores := (restoreOutput_restores (s.inners inner) s.console answers).1
      exact spares_setInner _ hne (fun _ => hrestores.fades) fun _ => hrestores.locked

theorem spares_abnormalRestoreTarget (hne : e ≠ c) :
    Spares s (abnormalRestoreTarget s c answers) e := by
  unfold abnormalRestoreTarget
  cases s.slot.state with
  | vacant | pendingGuard _ _ => exact spares_moveTo hne
  | entering owner inner =>
      exact spares_setInner s.console hne
        (fun _ => ⟨⟨fun _ h => h, fun _ h => h⟩, fun _ => rfl⟩) fun _ => rfl
  | active owner inner =>
      dsimp only
      split <;> exact spares_moveTo hne

theorem spares_advance (hne : e ≠ c) (ht : advance s c answers = some t) : Spares s t e := by
  unfold advance at ht
  split at ht
  case h_1 =>
      cases ht
      unfold claimActiveSlot
      cases s.slot.state with
      | vacant =>
          dsimp only
          split
          · exact spares_moveTo hne
          · exact ⟨Function.update_of_ne hne .., Fades.refl _, rfl⟩
      | entering _ _ | active _ _ | pendingGuard _ _ => exact spares_moveTo hne
  case h_3 owner point _ =>
      cases ht
      cases point with
      | acquire => exact spares_setInner _ hne (fun he => absurd he hne) fun he => absurd he hne
      | check | recheck =>
          unfold acquireOutput
          dsimp only
          split <;> exact spares_moveTo hne
  case h_4 => exact spares_enterStage hne ht
  case h_5 owner _ =>
      cases ht
      unfold finish
      split
      · split
        · split
          · exact spares_moveTo hne
          · exact ⟨State.moveTo_of_ne _ _ hne, Fades.refl _, rfl⟩
        · exact spares_moveTo hne
      · exact spares_moveTo hne
  case h_6 =>
      cases ht
      exact spares_setInner s.console hne (fun he => absurd he hne)
        fun he => absurd he hne
  case h_9 => exact spares_restore hne ht
  case h_10 =>
      cases ht
      exact spares_abnormalRestoreTarget hne
  case h_2 | h_7 | h_8 | h_11 =>
      cases ht
      exact ⟨State.moveTo_of_ne _ _ hne, Fades.refl _, rfl⟩
  all_goals exact absurd ht (by simp)

theorem spares_step {act : Act} (hne : e ≠ act.call) (ht : step s act = some t) :
    Spares s t e := by
  cases act with
  | advance c answers => exact spares_advance hne ht
  | enter c outputCp =>
      simp only [step] at ht
      split at ht <;> cases ht
      exact spares_setInner s.console hne (fun he => absurd he hne)
        fun he => absurd he hne
  | drop c =>
      simp only [step] at ht
      split at ht <;> cases ht
      exact spares_moveTo hne
  | restore c e' =>
      simp only [step] at ht
      split at ht <;> cases ht
      exact spares_moveTo hne
  | exit c =>
      simp only [step] at ht
      split at ht <;> cases ht
      exact spares_moveTo hne

end Others

/-! ## The lock of the terminal state -/

/-- Whoever is inside a stage holds its lock. -/
def Locked (s : State) : Prop :=
  ∀ e, (s.calls e).holdsLock = true → (s.inners e).locked = true

theorem Restorer.resume_holdsLock (restorer : Restorer) (inner : InnerId) (restored : Bool) :
    (restorer.resume inner restored).holdsLock = false := by
  cases restorer <;> cases restored <;> rfl

theorem nextStage_holdsLock (owner : GuardOwner) (stages : List EnterStage) :
    (nextStage owner stages).holdsLock = false := by
  cases stages <;> rfl

section Own

variable {s t : State} {e : InnerId} {answers : Answers}

theorem Locked.enterStage {owner : GuardOwner} {stage : EnterStage} {stages : List EnterStage}
    {point : StagePoint} (h : Locked s) (hc : s.calls e = .staging owner stage stages point)
    (ht : enterStage s e owner stage stages answers point = some t)
    (hholds : (t.calls e).holdsLock = true) : (t.inners e).locked = true := by
  have hleft : ∀ {u : State} {call : Call}, call.holdsLock = false →
      ((u.moveTo e call).calls e).holdsLock = true → False := by
    intro u call hcall hholds
    rw [State.moveTo_self, hcall] at hholds
    exact Bool.false_ne_true hholds
  cases point with
  | check =>
      simp only [MCode.Tui.enterStage] at ht
      split at ht <;> cases ht <;> exact (hleft rfl hholds).elim
  | lock =>
      simp only [MCode.Tui.enterStage] at ht
      split at ht
      · exact absurd ht (by simp)
      · cases ht
        show ((s.setInner e _).inners e).locked = true
        rw [State.setInner_self]
  | test =>
      simp only [MCode.Tui.enterStage] at ht
      split at ht <;> cases ht
      · exact (hleft rfl hholds).elim
      · exact h e (by rw [hc]; rfl)
  | mutate =>
      have hlocked : (s.inners e).locked = true := h e (by rw [hc]; rfl)
      simp only [MCode.Tui.enterStage] at ht
      split at ht <;> cases ht
      · show ((s.setInner e _).inners e).locked = true
        rw [State.setInner_self]
        exact hlocked
      · exact (hleft rfl hholds).elim
  | recheck =>
      simp only [MCode.Tui.enterStage] at ht
      split at ht <;> cases ht
      · exact (hleft rfl hholds).elim
      · exact (hleft (nextStage_holdsLock owner stages) hholds).elim

theorem Locked.advance (h : Locked s) (ht : advance s e answers = some t)
    (hholds : (t.calls e).holdsLock = true) : (t.inners e).locked = true := by
  have hleft : ∀ {u : State} {call : Call}, u.calls e = call → call.holdsLock = false →
      (u.calls e).holdsLock = true → False := by
    intro u call hu hcall hholds
    rw [hu, hcall] at hholds
    exact Bool.false_ne_true hholds
  unfold MCode.Tui.advance at ht
  split at ht
  case h_4 hc => exact h.enterStage hc ht hholds
  case h_1 =>
      cases ht
      unfold claimActiveSlot at hholds
      split at hholds
      · split at hholds
        · exact (hleft (State.moveTo_self ..) rfl hholds).elim
        · exact (hleft (Function.update_self ..) rfl hholds).elim
      all_goals exact (hleft (State.moveTo_self ..) rfl hholds).elim
  case h_3 owner point _ =>
      cases ht
      unfold acquireOutput at hholds
      cases point with
      | acquire => exact (hleft (State.moveTo_self ..) rfl hholds).elim
      | check | recheck =>
          dsimp only at hholds
          split at hholds
          · exact (hleft (State.moveTo_self ..) rfl hholds).elim
          · exact (hleft (State.moveTo_self ..) rfl hholds).elim
  case h_5 =>
      cases ht
      unfold finish at hholds
      split at hholds
      · split at hholds
        · split at hholds <;> exact (hleft (State.moveTo_self ..) rfl hholds).elim
        · exact (hleft (State.moveTo_self ..) rfl hholds).elim
      · exact (hleft (State.moveTo_self ..) rfl hholds).elim
  case h_9 inner point restorer _ =>
      cases point with
      | terminal =>
          simp only [restore] at ht
          split at ht
          · exact absurd ht (by simp)
          · cases ht
            exact (hleft (State.moveTo_self ..) rfl hholds).elim
      | output terminalRestored =>
          cases ht
          exact (hleft (State.moveTo_self ..) (Restorer.resume_holdsLock ..) hholds).elim
  case h_10 =>
      cases ht
      unfold abnormalRestoreTarget at hholds
      split at hholds
      case h_2 => split at hholds <;> exact (hleft (State.moveTo_self ..) rfl hholds).elim
      all_goals exact (hleft (State.moveTo_self ..) rfl hholds).elim
  case h_2 | h_6 | h_7 | h_8 | h_11 =>
      cases ht
      exact (hleft (State.moveTo_self ..) rfl hholds).elim
  all_goals exact absurd ht (by simp)

end Own

theorem Locked.step {s t : State} {act : Act} (h : Locked s)
    (ht : MCode.Tui.step s act = some t) : Locked t := by
  intro e hholds
  by_cases hne : e = act.call
  · obtain rfl := hne
    cases act with
    | advance c answers => exact h.advance ht hholds
    | enter c _ | drop c | restore c _ | exit c =>
        simp only [MCode.Tui.step] at ht
        split at ht <;> cases ht
        have hcall : _ = true := hholds
        rw [show Act.call _ = c from rfl, State.moveTo_self] at hcall
        exact absurd hcall (by simp [Call.holdsLock])
  · have hspares := spares_step hne ht
    rw [hspares.call] at hholds
    rw [hspares.locked]
    exact h e hholds

/-! ## An entry that neither changes a mode nor switches the page -/

/-- What such a step of entry `e` leaves behind. -/
structure Winds (s t : State) (e : InnerId) : Prop where
  fades : Fades (s.inners e) (t.inners e)
  begun : (t.calls e).hasBegun = true
  /-- Only an entry that is not cancelled goes on to change a mode. -/
  mutating : (s.inners e).cancelled = true → (t.calls e).isMutating = false
  modes : ∀ stage, t.console.modes stage = true → s.console.modes stage = true
  page : (s.inners e).outputCp.state.restoreTo = none → t.console.page = s.console.page

section Winding

variable {s t : State} {e : InnerId} {answers : Answers}

theorem winds_moveTo {call : Call} (hbegun : call.hasBegun = true)
    (hmutating : (s.inners e).cancelled = true → call.isMutating = false) :
    Winds s (s.moveTo e call) e where
  fades := Fades.refl _
  begun := by rw [State.moveTo_self]; exact hbegun
  mutating := fun hcancelled => by rw [State.moveTo_self]; exact hmutating hcancelled
  modes := fun _ h => h
  page := fun _ => rfl

theorem winds_setInner {inner : GuardInner} {call : Call}
    (hstate : inner.terminalState = (s.inners e).terminalState)
    (hlease : inner.outputCp = (s.inners e).outputCp)
    (hcancelled : (s.inners e).cancelled = true → inner.cancelled = true)
    (hbegun : call.hasBegun = true) (hmutating : call.isMutating = false) :
    Winds s ((s.setInner e inner).moveTo e call) e where
  fades := by
    show Fades (s.inners e) ((s.setInner e inner).inners e)
    rw [State.setInner_self]
    refine ⟨⟨fun stage hin => ?_, fun original hto => ?_⟩, hcancelled⟩
    · rw [hstate] at hin
      exact hin
    · rw [hlease] at hto
      exact hto
  begun := by rw [State.moveTo_self]; exact hbegun
  mutating := fun _ => by rw [State.moveTo_self]; exact hmutating
  modes := fun _ h => h
  page := fun _ => rfl

theorem nextStage_hasBegun (owner : GuardOwner) (stages : List EnterStage) :
    (nextStage owner stages).hasBegun = true ∧ (nextStage owner stages).isMutating = false := by
  cases stages <;> exact ⟨rfl, rfl⟩

theorem winds_enterStage {owner : GuardOwner} {stage : EnterStage} {stages : List EnterStage}
    {point : StagePoint} (hpoint : point ≠ .mutate)
    (ht : enterStage s e owner stage stages answers point = some t) : Winds s t e := by
  cases point with
  | check =>
      simp only [enterStage] at ht
      split at ht <;> cases ht <;> exact winds_moveTo rfl fun _ => rfl
  | lock =>
      simp only [enterStage] at ht
      split at ht
      · exact absurd ht (by simp)
      · cases ht
        exact winds_setInner rfl rfl id rfl rfl
  | test =>
      simp only [enterStage] at ht
      split at ht
      · cases ht
        exact winds_setInner rfl rfl id rfl rfl
      · rename_i hcancelled
        cases ht
        exact winds_moveTo rfl fun h => absurd h hcancelled
  | mutate => exact absurd rfl hpoint
  | recheck =>
      simp only [enterStage] at ht
      split at ht <;> cases ht
      · exact winds_setInner rfl rfl id rfl rfl
      · exact winds_setInner rfl rfl id (nextStage_hasBegun owner stages).1
          (nextStage_hasBegun owner stages).2

/-- An entry that has begun restores itself only. -/
theorem Owned.restores_own {page : Nat} {inner : InnerId} {restorer : Restorer}
    {point : RestorePoint} (h : Owned page s) (hc : s.calls e = .restoring inner point restorer)
    (hbegun : (s.calls e).hasBegun = true) :
    inner = e ∧ ∀ restored, (restorer.resume inner restored).hasBegun = true ∧
      (restorer.resume inner restored).isMutating = false ∧
      ∀ point', (Call.restoring inner point' restorer).hasBegun = true := by
  have hok := h.calls e
  rw [hc] at hok hbegun
  cases restorer with
  | transaction owner => exact ⟨hok.1.1, fun _ => ⟨rfl, rfl, fun _ => rfl⟩⟩
  | guardDrop owner => exact ⟨hok.1.1, fun _ => ⟨rfl, rfl, fun _ => rfl⟩⟩
  | claim owner | guardRestore | entering | guard owner =>
      exact absurd hbegun (by simp [Call.hasBegun, Call.transaction, Call.isPast])

theorem Restores.winds {left : GuardInner} {console : Console} {call : Call}
    (h : Restores (s.inners e) s.console left console) (hbegun : call.hasBegun = true)
    (hmutating : call.isMutating = false) :
    Winds s { (s.setInner e left).moveTo e call with console := console } e where
  fades := by
    show Fades (s.inners e) ((s.setInner e left).inners e)
    rw [State.setInner_self]
    exact h.fades
  begun := by
    show (((s.setInner e left).moveTo e call).calls e).hasBegun = true
    rw [State.moveTo_self]
    exact hbegun
  mutating := fun _ => by
    show (((s.setInner e left).moveTo e call).calls e).isMutating = false
    rw [State.moveTo_self]
    exact hmutating
  modes := fun stage hon => (h.modes stage hon).1
  page := by
    intro hnone
    cases h.page with
    | inl hput =>
        obtain ⟨original, hto, _⟩ := hput
        rw [hnone] at hto
        exact absurd hto (by simp)
    | inr hsame => exact hsame.1

theorem winds_advance {page : Nat} (h : Owned page s) (hbegun : (s.calls e).hasBegun = true)
    (hmutating : (s.calls e).isMutating = false) (hswitching : (s.calls e).isSwitching = false)
    (ht : advance s e answers = some t) : Winds s t e := by
  unfold advance at ht
  cases hc : s.calls e with
  | claiming | claimClearing _ _ | exiting | exitClearing _ _ =>
      rw [hc] at hbegun
      exact absurd hbegun (by simp [Call.hasBegun, Call.transaction, Call.isPast])
  | acquiring owner point =>
      rw [hc] at ht hswitching
      cases ht
      cases point with
      | acquire => exact absurd hswitching (by simp [Call.isSwitching])
      | check =>
          unfold acquireOutput
          dsimp only
          split <;> exact winds_moveTo rfl fun _ => rfl
      | recheck =>
          unfold acquireOutput
          dsimp only
          split <;> exact winds_moveTo rfl fun _ => rfl
  | staging owner stage stages point =>
      rw [hc] at ht hmutating
      refine winds_enterStage (fun hpoint => ?_) ht
      rw [hpoint] at hmutating
      exact absurd hmutating (by simp [Call.isMutating])
  | finishing owner =>
      have hslot : s.slot.state = .entering owner e := (h.calls e).entering (by rw [hc]; rfl)
      rw [hc] at ht
      cases ht
      unfold finish
      rw [hslot]
      dsimp only
      rw [if_pos rfl]
      split
      · exact winds_moveTo rfl fun _ => rfl
      · exact ⟨Fades.refl _, by rw [State.moveTo_self]; rfl, fun _ => by rw [State.moveTo_self]; rfl,
          fun _ h => h, fun _ => rfl⟩
  | cancelling owner =>
      rw [hc] at ht
      cases ht
      exact winds_setInner rfl rfl (fun _ => rfl) rfl rfl
  | finishingEntering owner restored | finishingGuard owner restored =>
      rw [hc] at ht
      cases ht
      exact ⟨Fades.refl _, by rw [State.moveTo_self]; rfl, fun _ => by rw [State.moveTo_self]; rfl,
        fun _ h => h, fun _ => rfl⟩
  | restoring inner point restorer =>
      obtain ⟨rfl, hresume⟩ := h.restores_own hc hbegun
      rw [hc] at ht
      cases point with
      | terminal =>
          simp only [restore] at ht
          split at ht
          · exact absurd ht (by simp)
          · cases ht
            exact (restoreTerminal_restores _ s.console answers).1.winds
              ((hresume true).2.2 _) rfl
      | output terminalRestored =>
          cases ht
          exact (restoreOutput_restores _ s.console answers).1.winds (hresume _).1 (hresume _).2.1
  | idle | refused | exhausted | lostReservation _ | failed | guard _ | dropped | restored
  | exited _ _ =>
      rw [hc] at ht
      exact absurd ht (by simp)

theorem winds_step {page : Nat} {act : Act} (h : Owned page s)
    (hbegun : (s.calls act.call).hasBegun = true)
    (hmutating : (s.calls act.call).isMutating = false)
    (hswitching : (s.calls act.call).isSwitching = false) (ht : step s act = some t) :
    Winds s t act.call := by
  have hidle : s.calls act.call ≠ .idle := by
    intro hidle
    rw [hidle] at hbegun
    exact absurd hbegun (by simp [Call.hasBegun, Call.transaction, Call.isPast])
  cases act with
  | advance c answers => exact winds_advance h hbegun hmutating hswitching ht
  | enter c _ =>
      simp only [step] at ht
      split at ht
      · rename_i hc
        exact absurd hc.1 hidle
      · exact absurd ht (by simp)
  | exit c =>
      simp only [step] at ht
      split at ht
      · rename_i hc
        exact absurd hc hidle
      · exact absurd ht (by simp)
  | restore c _ =>
      simp only [step] at ht
      split at ht
      · rename_i hc _
        exact absurd hc hidle
      · exact absurd ht (by simp)
  | drop c =>
      simp only [step] at ht
      split at ht <;> cases ht
      exact winds_moveTo rfl fun _ => rfl

end Winding

/-! ## A cancelled entry -/

/-- The entry has had its claim, and is cancelled. -/
def Halted (s : State) (e : InnerId) : Prop :=
  (s.calls e).hasBegun = true ∧ (s.inners e).cancelled = true

/-- No entry that is cancelled switches the page. -/
def Timely (s : State) : Act → Prop
  | .advance e answers =>
      (s.calls e).isSwitching = true → (s.inners e).cancelled = true →
        ¬ (s.inners e).outputCp.Switches s.console answers
  | _ => True

section Cancelled

variable {page : Nat} {s t : State} {e : InnerId} {act : Act}

/-- What the section of `acquire` does to its own entry. -/
theorem acquire_step {answers : Answers} (hswitching : (s.calls e).isSwitching = true)
    (ht : advance s e answers = some t) :
    ∃ owner, t.calls e = .acquiring owner .recheck ∧
      t.inners e = { s.inners e with
        outputCp := ((s.inners e).outputCp.acquire s.console answers).1 } ∧
      t.console = ((s.inners e).outputCp.acquire s.console answers).2 := by
  unfold advance at ht
  cases hc : s.calls e with
  | acquiring owner point =>
      rw [hc] at ht hswitching
      cases point with
      | acquire =>
          cases ht
          exact ⟨owner, State.moveTo_self .., State.setInner_self .., rfl⟩
      | check | recheck => exact absurd hswitching (by simp [Call.isSwitching])
  | idle | claiming | claimClearing _ _ | refused | exhausted | staging _ _ _ _ | finishing _
  | lostReservation _ | cancelling _ | finishingEntering _ _ | failed | guard _
  | finishingGuard _ _ | dropped | restoring _ _ _ | restored | exiting | exitClearing _ _
  | exited _ _ =>
      rw [hc] at hswitching
      exact absurd hswitching (by simp [Call.isSwitching])

/-- What the change of a mode does to its own entry. -/
theorem mutate_step {answers : Answers} (hmutating : (s.calls e).isMutating = true)
    (ht : advance s e answers = some t) :
    (t.calls e).hasBegun = true ∧ (t.inners e).cancelled = (s.inners e).cancelled := by
  unfold advance at ht
  cases hc : s.calls e with
  | staging owner stage stages point =>
      rw [hc] at ht hmutating
      cases point with
      | mutate =>
          simp only [enterStage] at ht
          split at ht <;> cases ht
          · exact ⟨by rw [State.moveTo_self]; rfl, by
              show ((s.setInner e _).inners e).cancelled = _
              rw [State.setInner_self]⟩
          · exact ⟨by rw [State.moveTo_self]; rfl, by simp [State.unlock, State.moveTo]⟩
      | check | lock | test | recheck => exact absurd hmutating (by simp [Call.isMutating])
  | idle | claiming | claimClearing _ _ | refused | exhausted | acquiring _ _ | finishing _
  | lostReservation _ | cancelling _ | finishingEntering _ _ | failed | guard _
  | finishingGuard _ _ | dropped | restoring _ _ _ | restored | exiting | exitClearing _ _
  | exited _ _ =>
      rw [hc] at hmutating
      exact absurd hmutating (by simp [Call.isMutating])

/-- The acts of an entry that changes a mode or acquires its lease. -/
theorem advances_of_point (hpoint : (s.calls act.call).isMutating = true ∨
    (s.calls act.call).isSwitching = true) (ht : step s act = some t) :
    ∃ answers, act = .advance act.call answers := by
  have hidle : s.calls act.call ≠ .idle := by
    intro hidle
    rw [hidle] at hpoint
    exact absurd hpoint (by simp [Call.isMutating, Call.isSwitching])
  cases act with
  | advance c answers => exact ⟨answers, rfl⟩
  | enter c _ =>
      simp only [step] at ht
      split at ht
      · rename_i hc
        exact absurd hc.1 hidle
      · exact absurd ht (by simp)
  | exit c =>
      simp only [step] at ht
      split at ht
      · rename_i hc
        exact absurd hc hidle
      · exact absurd ht (by simp)
  | restore c _ =>
      simp only [step] at ht
      split at ht
      · rename_i hc _
        exact absurd hc hidle
      · exact absurd ht (by simp)
  | drop c =>
      simp only [step] at ht
      split at ht
      · rename_i hc
        rw [show (Act.drop c).call = c from rfl, hc] at hpoint
        exact absurd hpoint (by simp [Call.isMutating, Call.isSwitching])
      · exact absurd ht (by simp)

theorem Halted.step (h : Halted s e) (howned : Owned page s)
    (ht : MCode.Tui.step s act = some t) : Halted t e := by
  by_cases hne : e = act.call
  · by_cases hmutating : (s.calls e).isMutating = true
    · obtain ⟨answers, hact⟩ := advances_of_point (Or.inl (hne ▸ hmutating)) ht
      rw [hact, ← hne] at ht
      obtain ⟨hbegun, hcancelled⟩ := mutate_step hmutating ht
      exact ⟨hbegun, hcancelled.trans h.2⟩
    · by_cases hswitching : (s.calls e).isSwitching = true
      · obtain ⟨answers, hact⟩ := advances_of_point (Or.inr (hne ▸ hswitching)) ht
        rw [hact, ← hne] at ht
        obtain ⟨owner, hcall, hinner, _⟩ := acquire_step hswitching ht
        exact ⟨by rw [hcall]; rfl, by rw [hinner]; exact h.2⟩
      · rw [hne] at h hmutating hswitching ⊢
        have hwinds := winds_step howned h.1 (by simpa using hmutating) (by simpa using hswitching) ht
        exact ⟨hwinds.begun, hwinds.fades.cancelled h.2⟩
  · have hspares := spares_step hne ht
    exact ⟨by rw [hspares.call]; exact h.1, hspares.fades.cancelled h.2⟩

/-- A cancelled entry does not come to change a mode. -/
theorem Halted.not_mutating (h : Halted s e) (howned : Owned page s)
    (hmutating : (s.calls e).isMutating = false) (ht : MCode.Tui.step s act = some t) :
    (t.calls e).isMutating = false := by
  by_cases hne : e = act.call
  · by_cases hswitching : (s.calls e).isSwitching = true
    · obtain ⟨answers, hact⟩ := advances_of_point (Or.inr (hne ▸ hswitching)) ht
      rw [hact, ← hne] at ht
      obtain ⟨owner, hcall, _, _⟩ := acquire_step hswitching ht
      rw [hcall]
      rfl
    · rw [hne] at h hmutating hswitching ⊢
      exact (winds_step howned h.1 hmutating (by simpa using hswitching) ht).mutating h.2
  · rw [(spares_step hne ht).call]
    exact hmutating

/-- What such an entry has restored stays restored. -/
theorem Halted.isClear (h : Halted s e) (howned : Owned page s)
    (hmutating : (s.calls e).isMutating = false)
    (hclear : (s.inners e).terminalState.isClear = true)
    (ht : MCode.Tui.step s act = some t) : (t.inners e).terminalState.isClear = true := by
  by_cases hne : e = act.call
  · by_cases hswitching : (s.calls e).isSwitching = true
    · obtain ⟨answers, hact⟩ := advances_of_point (Or.inr (hne ▸ hswitching)) ht
      rw [hact, ← hne] at ht
      obtain ⟨owner, _, hinner, _⟩ := acquire_step hswitching ht
      rw [hinner]
      exact hclear
    · rw [hne] at h hmutating hswitching hclear ⊢
      exact (winds_step howned h.1 hmutating (by simpa using hswitching) ht).fades.clears.isClear
        hclear
  · exact (spares_step hne ht).fades.clears.isClear hclear

theorem Halted.isRestored (h : Halted s e) (howned : Owned page s)
    (hmutating : (s.calls e).isMutating = false) (hrestored : (s.inners e).isRestored = true)
    (htimely : Timely s act) (ht : MCode.Tui.step s act = some t) :
    (t.inners e).isRestored = true := by
  rw [GuardInner.isRestored_iff] at hrestored ⊢
  refine ⟨h.isClear howned hmutating hrestored.1 ht, ?_⟩
  by_cases hne : e = act.call
  · by_cases hswitching : (s.calls e).isSwitching = true
    · obtain ⟨answers, hact⟩ := advances_of_point (Or.inr (hne ▸ hswitching)) ht
      rw [hact, ← hne] at ht htimely
      obtain ⟨owner, _, hinner, _⟩ := acquire_step hswitching ht
      rw [hinner]
      cases (Utf8OutputLease.acquire_of_not_switches (htimely hswitching h.2)).2.2.2 with
      | inl hsame => exact hsame.trans hrestored.2
      | inr hnone => exact hnone.2
    · rw [hne] at h hmutating hswitching hrestored ⊢
      exact (winds_step howned h.1 hmutating
        (by simpa using hswitching) ht).fades.clears.restoreTo hrestored.2
  · exact (spares_step hne ht).fades.clears.restoreTo hrestored.2

end Cancelled

/-! ## An exit that found an entry -/

/-- What holds of an exit that found the entry `e`: the entry is cancelled, and
restored as far as the exit has come. -/
def ExitOk (s : State) : Call → Prop
  | .restoring e .terminal .entering => Halted s e
  | .restoring e (.output terminalRestored) .entering =>
      Halted s e ∧ (s.calls e).isMutating = false ∧
        (terminalRestored = true → (s.inners e).terminalState.isClear = true)
  | .exited (some (.entering e)) restored =>
      Halted s e ∧ (s.calls e).isMutating = false ∧
        (restored = true → (s.inners e).isRestored = true)
  | _ => True

/-- The invariant behind `Final`. -/
structure Exits (page : Nat) (s : State) : Prop where
  owned : Owned page s
  locked : Locked s
  /-- The slot is that of the newest owner. -/
  newest : ∀ owner e, s.slot.state.reservation = some (owner, e) →
    s.slot.nextOwner = owner + 1
  exits : ∀ c, ExitOk s (s.calls c)

theorem ExitOk.step {page : Nat} {s t : State} {act : Act} {call : Call} (h : ExitOk s call)
    (howned : Owned page s) (htimely : Timely s act) (ht : MCode.Tui.step s act = some t) :
    ExitOk t call := by
  unfold ExitOk at h ⊢
  split at h
  · exact h.step howned ht
  · obtain ⟨hhalted, hmutating, hclear⟩ := h
    exact ⟨hhalted.step howned ht, hhalted.not_mutating howned hmutating ht,
      fun hr => hhalted.isClear howned hmutating (hclear hr) ht⟩
  · obtain ⟨hhalted, hmutating, hrestored⟩ := h
    exact ⟨hhalted.step howned ht, hhalted.not_mutating howned hmutating ht,
      fun hr => hhalted.isRestored howned hmutating (hrestored hr) htimely ht⟩
  · trivial

section Exit

variable {page : Nat} {s t : State} {c : Nat} {answers : Answers}

theorem Halted.spared {e : InnerId} (h : Halted s e) (hspares : Spares s t e) : Halted t e :=
  ⟨by rw [hspares.call]; exact h.1, hspares.fades.cancelled h.2⟩

theorem Halted.ne {e : InnerId} (h : Halted s e) (hc : (s.calls c).hasBegun = false) : e ≠ c := by
  intro he
  have hbegun := h.1
  rw [he, hc] at hbegun
  exact absurd hbegun (by simp)

/-- The exit goes on to restore the entry that it found. -/
theorem Exits.restore {inner : InnerId} {point : RestorePoint} {restorer : Restorer}
    (h : Exits page s) (hc : s.calls c = .restoring inner point restorer)
    (ht : restore s c inner restorer answers point = some t) : ExitOk t (t.calls c) := by
  have hcall : ∃ restored, t.calls c = .restoring inner (.output restored) restorer ∨
      t.calls c = restorer.resume inner restored := by
    cases point with
    | terminal =>
        simp only [MCode.Tui.restore] at ht
        split at ht
        · exact absurd ht (by simp)
        · cases ht
          exact ⟨_, Or.inl (State.moveTo_self ..)⟩
    | output terminalRestored =>
        cases ht
        exact ⟨_, Or.inr (State.moveTo_self ..)⟩
  cases restorer with
  | claim owner | transaction owner | guardDrop owner | guardRestore | guard owner =>
      obtain ⟨restored, hcall⟩ := hcall
      cases hcall with
      | inl hcall => rw [hcall]; trivial
      | inr hcall => rw [hcall]; cases restored <;> trivial
  | entering =>
      have hexit := h.exits c
      rw [hc] at hexit
      have hnotBegun : (s.calls c).hasBegun = false := by rw [hc]; rfl
      cases point with
      | terminal =>
          have hhalted : Halted s inner := hexit
          have hspares := spares_restore (hhalted.ne hnotBegun) ht
          have hunlocked : (s.inners inner).locked = false := by
            by_contra hlocked
            rw [MCode.Tui.restore, if_pos (by simpa using hlocked)] at ht
            exact absurd ht (by simp)
          have hmutating : (s.calls inner).isMutating = false := by
            by_contra hmutating
            have hholds : (s.calls inner).holdsLock = true := by
              unfold Call.isMutating at hmutating
              split at hmutating
              · rename_i hcall
                rw [hcall]
                rfl
              · exact absurd rfl hmutating
            rw [h.locked inner hholds] at hunlocked
            exact absurd hunlocked (by simp)
          obtain ⟨hcall, hinner⟩ : t.calls c = .restoring inner
                (.output ((s.inners inner).restoreTerminal s.console answers).1) .entering ∧
              t.inners inner = ((s.inners inner).restoreTerminal s.console answers).2.1 := by
            simp only [MCode.Tui.restore, hunlocked] at ht
            cases ht
            exact ⟨State.moveTo_self .., State.setInner_self ..⟩
          rw [hcall]
          refine ⟨hhalted.spared hspares, by rw [hspares.call]; exact hmutating, fun hr => ?_⟩
          rw [hinner, ← (restoreTerminal_restores (s.inners inner) s.console answers).2]
          exact hr
      | output terminalRestored =>
          obtain ⟨hhalted, hmutating, hclear⟩ := hexit
          have hspares := spares_restore (hhalted.ne hnotBegun) ht
          obtain ⟨hcall, hinner⟩ : t.calls c = .exited (some (.entering inner))
                (terminalRestored && ((s.inners inner).outputCp.restore s.console answers).1) ∧
              t.inners inner = { s.inners inner with
                outputCp := ((s.inners inner).outputCp.restore s.console answers).2.1 } := by
            cases ht
            exact ⟨State.moveTo_self .., State.setInner_self ..⟩
          obtain ⟨hrestores, hreturned⟩ :=
            restoreOutput_restores (s.inners inner) s.console answers
          rw [hcall]
          refine ⟨hhalted.spared hspares, by rw [hspares.call]; exact hmutating, fun hr => ?_⟩
          rw [Bool.and_eq_true] at hr
          rw [hinner, GuardInner.isRestored_iff]
          exact ⟨hrestores.clears.isClear (hclear hr.1), hreturned hr.2⟩

/-- The exit cancels the entry that it finds. -/
theorem Exits.abnormalRestoreTarget (h : Exits page s) (hc : s.calls c = .exiting) :
    ExitOk (abnormalRestoreTarget s c answers) ((abnormalRestoreTarget s c answers).calls c) := by
  cases hslot : s.slot.state with
  | entering owner e =>
      have htransaction := (h.owned.exclusive.entering owner e).2 hslot
      have hne : e ≠ c := by
        intro he
        rw [he, hc] at htransaction
        exact absurd htransaction (by simp [Call.transaction])
      unfold MCode.Tui.abnormalRestoreTarget
      rw [hslot]
      dsimp only
      rw [State.moveTo_self]
      refine ⟨?_, ?_⟩
      · rw [State.moveTo_of_ne _ _ hne]
        show (s.calls e).hasBegun = true
        rw [Call.hasBegun, htransaction]
        rfl
      · show ((s.setInner e _).inners e).cancelled = true
        rw [State.setInner_self]
        rfl
  | vacant =>
      unfold MCode.Tui.abnormalRestoreTarget
      rw [hslot]
      dsimp only
      rw [State.moveTo_self]
      trivial
  | pendingGuard owner e =>
      unfold MCode.Tui.abnormalRestoreTarget
      rw [hslot]
      dsimp only
      rw [State.moveTo_self]
      trivial
  | active owner e =>
      unfold MCode.Tui.abnormalRestoreTarget
      rw [hslot]
      dsimp only
      split <;> rw [State.moveTo_self] <;> trivial

theorem Exits.advance (h : Exits page s) (ht : advance s c answers = some t) :
    ExitOk t (t.calls c) := by
  have hself : ∀ {u : State} {call : Call}, u.calls c = call → (∀ v, ExitOk v call) →
      ExitOk u (u.calls c) := by
    intro u call hcall hok
    rw [hcall]
    exact hok u
  unfold MCode.Tui.advance at ht
  split at ht
  case h_9 hc => exact h.restore hc ht
  case h_10 hc =>
      cases ht
      exact h.abnormalRestoreTarget hc
  case h_1 =>
      cases ht
      unfold claimActiveSlot
      split
      · split
        · exact hself (State.moveTo_self ..) fun _ => trivial
        · exact hself (Function.update_self ..) fun _ => trivial
      all_goals exact hself (State.moveTo_self ..) fun _ => trivial
  case h_3 owner point _ =>
      cases ht
      cases point with
      | acquire => exact hself (State.moveTo_self ..) fun _ => trivial
      | check | recheck =>
          unfold acquireOutput
          dsimp only
          split <;> exact hself (State.moveTo_self ..) fun _ => trivial
  case h_4 owner stage stages point _ =>
      cases point with
      | lock =>
          simp only [enterStage] at ht
          split at ht
          · exact absurd ht (by simp)
          · cases ht
            exact hself (State.moveTo_self ..) fun _ => trivial
      | check | test | mutate =>
          simp only [enterStage] at ht
          split at ht <;> cases ht <;> exact hself (State.moveTo_self ..) fun _ => trivial
      | recheck =>
          simp only [enterStage] at ht
          split at ht <;> cases ht
          · exact hself (State.moveTo_self ..) fun _ => trivial
          · refine hself (State.moveTo_self ..) fun _ => ?_
            cases stages <;> trivial
  case h_5 =>
      cases ht
      unfold finish
      split
      · split
        · split <;> exact hself (State.moveTo_self ..) fun _ => trivial
        · exact hself (State.moveTo_self ..) fun _ => trivial
      · exact hself (State.moveTo_self ..) fun _ => trivial
  case h_2 | h_6 | h_7 | h_8 | h_11 =>
      cases ht
      exact hself (State.moveTo_self ..) fun _ => trivial
  all_goals exact absurd ht (by simp)

theorem Exits.step {act : Act} (h : Exits page s) (htimely : Timely s act)
    (ht : MCode.Tui.step s act = some t) : Exits page t where
  owned := h.owned.step ht
  locked := h.locked.step ht
  newest := by
    intro owner e hreservation
    have hturns := step_turns h.owned ht
    generalize t.slot = slot at hturns hreservation
    cases hturns with
    | same => exact h.newest owner e hreservation
    | claimed _ _ =>
        cases hreservation
        rfl
    | kept other e' state hbefore _ hafter =>
        rw [show (GuardSlot.mk s.slot.nextOwner state).state = state from rfl, hafter]
          at hreservation
        cases hreservation
        exact h.newest owner e hbefore
    | released _ _ _ _ _ => exact absurd hreservation (by simp [SlotState.reservation])
  exits := by
    intro c'
    by_cases hne : c' = act.call
    · rw [hne]
      cases act with
      | advance c answers => exact h.advance ht
      | enter c _ | drop c | restore c _ | exit c =>
          simp only [MCode.Tui.step] at ht
          split at ht <;> cases ht
          rw [show Act.call _ = c from rfl, State.moveTo_self]
          trivial
    · rw [(spares_step hne ht).call]
      exact (h.exits c').step h.owned htimely ht

end Exit

theorem Exits.init (page : Nat) : Exits page (State.init page) where
  owned := Owned.init page
  locked := fun _ h => absurd h (by simp [State.init, Call.holdsLock])
  newest := fun _ _ h => absurd h (by simp [State.init, SlotState.reservation])
  exits := fun _ => trivial

/-! ## Final -/

/-- Every exit that found an entry and restored everything has left the console
as that entry found it, until a later entry has its claim. -/
def Settled (s : State) : Prop :=
  ∀ c e, s.calls c = .exited (some (.entering e)) true →
    (s.inners e).isRestored = true ∧
    ∀ owner claim, s.claims owner = some claim → claim.inner = e →
      s.slot.nextOwner = owner + 1 → s.console = claim.found

/-- A step of an entry that such an exit found turns no mode on and leaves the
page. -/
def Final (s : State) (act : Act) : Prop :=
  ∀ c, s.calls c = .exited (some (.entering act.call)) true → ∀ t, step s act = some t →
    (∀ stage, t.console.modes stage = true → s.console.modes stage = true) ∧
    t.console.page = s.console.page

theorem Exits.settled {page : Nat} {s : State} (h : Exits page s) : Settled s := by
  intro c e hc
  have hexit := h.exits c
  rw [hc] at hexit
  have hrestored := hexit.2.2 rfl
  refine ⟨hrestored, fun owner claim hclaim hinner hnewest => ?_⟩
  rw [h.owned.found owner claim hclaim]
  apply h.owned.untouched
  intro e'
  by_contra hnot
  obtain ⟨other, hother⟩ := h.owned.owed e' (by simpa using hnot)
  have hsame := h.newest other e' hother
  have howner : other = owner := Nat.succ.inj (hsame.symm.trans hnewest)
  obtain rfl : e' = e := (h.owned.owns hother).unique (howner ▸ ⟨claim, hclaim, hinner⟩)
  exact hnot hrestored

theorem Exits.final {page : Nat} {s : State} {act : Act} (h : Exits page s)
    (htimely : Timely s act) : Final s act := by
  intro c hc t ht
  have hexit := h.exits c
  rw [hc] at hexit
  obtain ⟨hhalted, hmutating, hrestored⟩ := hexit
  by_cases hswitching : (s.calls act.call).isSwitching = true
  · obtain ⟨answers, hact⟩ := advances_of_point (Or.inr hswitching) ht
    rw [hact] at ht htimely
    obtain ⟨owner, _, _, hconsole⟩ := acquire_step hswitching ht
    rw [hconsole, (Utf8OutputLease.acquire_of_not_switches (htimely hswitching hhalted.2)).1]
    exact ⟨fun _ hon => hon, rfl⟩
  · have hwinds := winds_step h.owned hhalted.1 hmutating (by simpa using hswitching) ht
    exact ⟨hwinds.modes, hwinds.page ((GuardInner.isRestored_iff _).1 (hrestored rfl)).2⟩

/-- In every run in which no cancelled entry switches the page, an abnormal
exit is final for the entry that it found. -/
theorem abnormal_exit_final {page : Nat} {labels : List Act} {s : State}
    (htimely : Along step Timely (State.init page) labels)
    (h : run step (State.init page) labels = some s) :
    Along step (fun u act => Settled u ∧ Final u act) (State.init page) labels ∧ Settled s := by
  have hexits : ∀ {first : List Act} {u : State}, Along step Timely (State.init page) first →
      run step (State.init page) first = some u → Exits page u := fun hfirst hu =>
    run_preserves_along (P := Timely) (fun _ _ _ hv ha hstep => hv.step ha hstep) hfirst
      (Exits.init page) hu
  refine ⟨fun before act after u hsplit hu => ?_, (hexits htimely h).settled⟩
  have hu' := hexits (hsplit ▸ htimely : Along step Timely _ (before ++ act :: after)).append_left hu
  exact ⟨hu'.settled, hu'.final (htimely before act after u hsplit hu)⟩

/-- The entry has switched the page when the exit comes. -/
def earlySwitch : List Act :=
  [.enter 0 .pending, .advance 0 .allDone, .advance 0 .allDone, .advance 0 .allDone, .exit 1,
    .advance 1 .allDone, .advance 1 .allDone, .advance 1 .allDone, .advance 0 .allDone]

theorem abnormal_exit_final_earlySwitch :
    ∃ s, run step (State.init 936) earlySwitch = some s ∧
      s.calls 1 = .exited (some (.entering 0)) true ∧ Settled s := by
  refine ⟨_, rfl, rfl, (abnormal_exit_final ?_ (rfl :
    run step (State.init 936) earlySwitch = some _)).2⟩
  refine .cons trivial rfl (.cons ?_ rfl (.cons ?_ rfl (.cons ?_ rfl (.cons trivial rfl
    (.cons ?_ rfl (.cons ?_ rfl (.cons ?_ rfl (.cons ?_ rfl (.nil _)))))))))
  case refine_3 => exact fun _ hcancelled => absurd hcancelled (by decide)
  all_goals exact fun hswitching => absurd hswitching (by decide)

/-- The exit is done when the entry, past its first check, acquires its lease. -/
def lateSwitch : List Act :=
  [.enter 0 .pending, .advance 0 .allDone, .advance 0 .allDone, .exit 1, .advance 1 .allDone,
    .advance 1 .allDone, .advance 1 .allDone]

theorem abnormal_exit_not_final :
    ∃ u, run step (State.init 936) lateSwitch = some u ∧
      u.calls 1 = .exited (some (.entering 0)) true ∧ ¬ Final u (.advance 0 .allDone) :=
  ⟨_, rfl, rfl, fun h => absurd (h 1 rfl _ rfl).2 (by decide)⟩

end MCode.Tui
