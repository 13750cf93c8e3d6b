import MCode.Lib.Mealy
import MCode.Tui.Bindings

/-!
# Redraws are requested for what changed

Every action says for itself whether it changed something.  The cut of the
offset at the end of the reducer only happens where the region of the transcript
changed, so behind it there is a change and a redraw already.

`AppView` of `app_view.rs` keeps the redraw of the highest priority until it is
taken or drawn.  A theme is known by its name; what is drawn, and the
capabilities of the terminal that only drawing reads, are left out.
-/

namespace MCode.Tui.App

open MCode.Lib MCode.Render

variable {Value : Type}

/-! ## Themes -/

structure Theme where
  name : List Char
  deriving DecidableEq

def mcodeDark : Theme := ⟨"mcode-dark".toList⟩
def mcodeLight : Theme := ⟨"mcode-light".toList⟩

inductive ThemeSource where
  | Explicit
  | Detected
  | Fallback
  deriving DecidableEq

structure ThemeResolution where
  theme : Theme
  source : ThemeSource
  deriving DecidableEq

def resolveTheme (selection : ThemeSelection) (detectedBackground : Option BackgroundClass)
    (namedThemes : List Theme) : ThemeResolution :=
  match selection with
  | .Dark => ⟨mcodeDark, .Explicit⟩
  | .Light => ⟨mcodeLight, .Explicit⟩
  | .Named name =>
      if name = mcodeDark.name then ⟨mcodeDark, .Explicit⟩
      else if name = mcodeLight.name then ⟨mcodeLight, .Explicit⟩
      else
        match namedThemes.find? fun theme => theme.name = name with
        | some theme => ⟨theme, .Explicit⟩
        | none => ⟨mcodeDark, .Fallback⟩
  | .Auto =>
      match detectedBackground with
      | some .Light => ⟨mcodeLight, .Detected⟩
      | some .Dark => ⟨mcodeDark, .Detected⟩
      | none => ⟨mcodeDark, .Fallback⟩

/-! ## The view -/

def Invalidation.priority : Invalidation → Nat
  | .Content => 1
  | .Layout => 2
  | .Theme => 3

structure AppView (Value : Type) where
  state : AppState Value
  actionRegistry : ActionRegistry Value
  namedThemes : List Theme
  theme : ThemeResolution
  invalidation : Option Invalidation

/-- `merge_invalidation`. -/
def merge (pending : Option Invalidation) (incoming : Invalidation) : Option Invalidation :=
  match pending with
  | some current => some (if incoming.priority ≤ current.priority then current else incoming)
  | none => some incoming

def mergeEffect (pending : Option Invalidation) : Effect → Option Invalidation
  | .Redraw invalidation => merge pending invalidation
  | _ => pending

inductive InputOutcome where
  | Ignored
  | Handled (effects : List Effect)

/-- The calls of a host. -/
inductive ViewCall (Value : Type) where
  | withNamedThemes (namedThemes : List Theme)
  | setActionRegistry (registry : ActionRegistry Value)
  | takeInvalidation
  | dispatch (action : Action Value)
  | handleInput (event : Event)
  | draw

inductive ViewAnswer where
  | unit
  | taken (invalidation : Option Invalidation)
  | effects (effects : List Effect)
  | outcome (outcome : InputOutcome)

/-- The call ends what is pending. -/
def ViewCall.clears : ViewCall Value → Bool
  | .takeInvalidation => true
  | .draw => true
  | _ => false

section

variable [DecidableEq (RenderBlock Value)] (unicode : Unicode Value) (ratatui : Ratatui)

def AppView.dispatch (self : AppView Value) (action : Action Value) :
    List Effect × AppView Value :=
  let (effects, state) := reduce unicode ratatui self.state action
  (effects,
    { self with
      state := state
      invalidation := effects.foldl mergeEffect self.invalidation
      theme := resolveTheme state.themeSelection state.detectedBackground self.namedThemes })

def AppView.call (self : AppView Value) : ViewCall Value → ViewAnswer × AppView Value
  | .withNamedThemes namedThemes =>
      let resolved := resolveTheme self.state.themeSelection self.state.detectedBackground namedThemes
      (.unit,
        { self with
          namedThemes := namedThemes
          theme := resolved
          invalidation :=
            if resolved ≠ self.theme then merge self.invalidation .Theme else self.invalidation })
  | .setActionRegistry registry =>
      (.unit,
        { self with
          actionRegistry := registry, invalidation := merge self.invalidation .Content })
  | .takeInvalidation => (.taken self.invalidation, { self with invalidation := none })
  | .dispatch action =>
      let (effects, view) := self.dispatch unicode ratatui action
      (.effects effects, view)
  | .handleInput event =>
      match self.actionRegistry.actionForEvent event self.state with
      | some action =>
          let (effects, view) := self.dispatch unicode ratatui action
          (.outcome (.Handled effects), view)
      | none => (.outcome .Ignored, self)
  | .draw => (.unit, { self with invalidation := none })

end

/-! ## One action -/

/-- A redraw is among the effects exactly if the state is another. -/
def Truthful (state : AppState Value) (result : List Effect × AppState Value) : Prop :=
  (∃ invalidation, .Redraw invalidation ∈ result.1) ↔ result.2 ≠ state

theorem Truthful.same (state : AppState Value) {effects : List Effect}
    (h : ∀ invalidation, .Redraw invalidation ∉ effects) : Truthful state (effects, state) :=
  ⟨fun ⟨invalidation, hmem⟩ => absurd hmem (h invalidation), fun hne => absurd rfl hne⟩

theorem Truthful.changed {state next : AppState Value} {effects : List Effect}
    (h : ∃ invalidation, .Redraw invalidation ∈ effects) (hne : next ≠ state) :
    Truthful state (effects, next) :=
  ⟨fun _ => hne, fun _ => h⟩

theorem Truthful.edited {state : AppState Value} {result : LineEditor × Bool}
    (h : result.2 = true ↔ result.1 ≠ state.editor) : Truthful state (edited state result) := by
  unfold App.edited
  cases hchanged : result.2 with
  | false =>
      have hsame : result.1 = state.editor := by
        by_contra hne
        rw [h.2 hne] at hchanged
        cases hchanged
      rw [hsame]
      exact .same state (by simp)
  | true =>
      refine .changed ⟨.Content, by simp⟩ fun heq => ?_
      exact h.1 hchanged (congrArg AppState.editor heq)

theorem Truthful.scrolled {state : AppState Value} {result : Scrollback Value × Bool}
    (h : result.2 = true ↔ result.1 ≠ state.scrollback) :
    Truthful state (scrolled state result) := by
  unfold App.scrolled
  cases hchanged : result.2 with
  | false =>
      have hsame : result.1 = state.scrollback := by
        by_contra hne
        rw [h.2 hne] at hchanged
        cases hchanged
      rw [hsame]
      exact .same state (by simp)
  | true =>
      refine .changed ⟨.Content, by simp⟩ fun heq => ?_
      exact h.1 hchanged (congrArg AppState.scrollback heq)

/-! ## The editor and the container -/

theorem insertStr_ne (editor : LineEditor) {text : List Char} (h : text ≠ []) :
    editor.insertStr text ≠ editor := by
  intro heq
  have hcursor : editor.cursor + text.length = editor.cursor := congrArg LineEditor.cursor heq
  have hpos := List.length_pos_of_ne_nil h
  omega

theorem insert_changed (editor : LineEditor) (character : Char) :
    (editor.insert character).2 = true ↔ (editor.insert character).1 ≠ editor := by
  unfold LineEditor.insert
  split
  · simp
  · simpa using insertStr_ne editor (List.cons_ne_nil character [])

theorem paste_changed (editor : LineEditor) (text : List Char) :
    (editor.paste text).2 = true ↔ (editor.paste text).1 ≠ editor := by
  unfold LineEditor.paste
  split
  · simp
  · rename_i hne
    simpa using insertStr_ne editor hne

/-- The caret always moves back. -/
theorem prevGraphemeBoundary_lt (unicode : Unicode Value) (text : List Char) {index : Nat}
    (h : index ≠ 0) : LineEditor.prevGraphemeBoundary unicode text index < index := by
  unfold LineEditor.prevGraphemeBoundary
  dsimp only
  split
  · omega
  · cases hfound : (LineEditor.graphemeStarts 0 (unicode.graphemes text)).reverse.find?
        fun start => decide (start < min index text.length) with
    | none =>
        rw [Option.getD_none]
        omega
    | some start =>
        have hlt : start < min index text.length := by simpa using List.find?_some hfound
        rw [Option.getD_some]
        omega

theorem backspace_changed (unicode : Unicode Value) (editor : LineEditor) :
    (editor.backspace unicode).2 = true ↔ (editor.backspace unicode).1 ≠ editor := by
  unfold LineEditor.backspace
  split
  · simp
  · rename_i hcursor
    have hlt := prevGraphemeBoundary_lt unicode editor.buffer hcursor
    refine ⟨fun _ heq => ?_, fun _ => rfl⟩
    have hsame : LineEditor.prevGraphemeBoundary unicode editor.buffer editor.cursor =
        editor.cursor := congrArg LineEditor.cursor heq
    omega

theorem replaceInput_changed (editor : LineEditor) (text : List Char) :
    (editor.replace text).2 = true ↔ (editor.replace text).1 ≠ editor := by
  unfold LineEditor.replace
  split
  · simp
  · rename_i hne
    refine ⟨fun _ heq => ?_, fun _ => rfl⟩
    have hbuffer : text = editor.buffer := congrArg LineEditor.buffer heq
    have hcursor : text.length = editor.cursor := congrArg LineEditor.cursor heq
    exact hne ⟨hbuffer.symm, hcursor.symm⟩

theorem replace_changed [DecidableEq (RenderBlock Value)] (scrollback : Scrollback Value)
    (blocks : List (RenderBlock Value)) :
    (scrollback.replace blocks).2 = true ↔ (scrollback.replace blocks).1 ≠ scrollback := by
  unfold Scrollback.replace
  dsimp only
  split
  · rename_i hchanged
    refine ⟨fun _ heq => ?_, fun _ => rfl⟩
    rcases hchanged with hblocks | hoffset
    · exact hblocks (congrArg Scrollback.blocks heq).symm
    · exact hoffset (congrArg Scrollback.offset heq).symm
  · simp

theorem scrollBy_changed (unicode : Unicode Value) (scrollback : Scrollback Value)
    (olderLines : Int) (budget : MaterializeBudget) :
    (scrollback.scrollBy unicode olderLines budget).2 = true ↔
      (scrollback.scrollBy unicode olderLines budget).1 ≠ scrollback := by
  unfold Scrollback.scrollBy
  dsimp only
  generalize (if 0 ≤ olderLines then
    (materialize unicode scrollback.blocks ⟨budget.width, budget.height,
      if 0 ≤ olderLines then min (scrollback.offset + olderLines.toNat) USIZE_MAX
      else scrollback.offset - olderLines.natAbs⟩).offset
    else if 0 ≤ olderLines then min (scrollback.offset + olderLines.toNat) USIZE_MAX
      else scrollback.offset - olderLines.natAbs) = next
  split
  · simp
  · split
    · simp
    · rename_i hne
      refine ⟨fun _ heq => ?_, fun _ => rfl⟩
      exact hne (congrArg Scrollback.offset heq)

/-! ## Prompts -/

theorem Truthful.cleared {state : AppState Value} {prompt : InteractionPrompt}
    (h : state.interaction = some prompt) {effects : List Effect}
    (hredraw : ∃ invalidation, .Redraw invalidation ∈ effects) :
    Truthful state (effects, { state with interaction := none }) := by
  refine .changed hredraw fun heq => ?_
  have hnone : none = state.interaction := congrArg AppState.interaction heq
  rw [h] at hnone
  cases hnone

theorem Truthful.presented {state : AppState Value} {prompt : InteractionPrompt}
    (h : state.interaction ≠ some prompt) {effects : List Effect}
    (hredraw : ∃ invalidation, .Redraw invalidation ∈ effects) :
    Truthful state (effects, { state with interaction := some prompt }) :=
  .changed hredraw fun heq => h (congrArg AppState.interaction heq).symm

theorem presentInteraction_truthful (state : AppState Value) (prompt : InteractionPrompt) :
    Truthful state (presentInteraction state prompt) := by
  unfold presentInteraction
  cases hactive : state.interaction with
  | none =>
      dsimp only
      split
      · exact .same state (by simp [interactionCancelled])
      · exact .presented (by simp [hactive]) ⟨.Layout, by simp⟩
  | some current =>
      dsimp only
      split
      · split
        · exact .cleared hactive ⟨.Layout, by simp⟩
        · split
          · exact .cleared hactive ⟨.Layout, by simp⟩
          · exact .same state (by simp [interactionCancelled])
      · split
        · exact .same state (by simp [interactionCancelled])
        · split
          · rename_i hne
            exact .presented (by simpa [hactive] using hne) ⟨.Content, by simp⟩
          · exact .same state (by simp)

theorem cancelInteraction_truthful (state : AppState Value) :
    Truthful state (cancelInteraction state) := by
  unfold cancelInteraction
  cases hactive : state.interaction with
  | none => exact .same state (by simp)
  | some prompt => exact .cleared hactive ⟨.Layout, by simp⟩

theorem selectInteractionOption_truthful (state : AppState Value) (key : Char) :
    Truthful state (selectInteractionOption state key) := by
  unfold selectInteractionOption
  cases hactive : state.interaction with
  | none => exact .same state (by simp)
  | some prompt =>
      dsimp only
      split
      · exact .cleared hactive ⟨.Layout, by simp⟩
      · cases prompt.optionForKey key with
        | none => exact .same state (by simp)
        | some option => exact .cleared hactive ⟨.Layout, by simp⟩

theorem resize_truthful (state : AppState Value) (viewport : Viewport) :
    Truthful state (resize state viewport) := by
  unfold resize
  dsimp only
  by_cases hsame : state.viewport = viewport
  · subst hsame
    simp only [ne_eq, not_true_eq_false, decide_false, Bool.false_eq_true, if_false]
    cases hactive : state.interaction with
    | none =>
        have hstate : ({ state with interaction := none } : AppState Value) = state := by
          rw [← hactive]
        show Truthful state ([], { state with interaction := none })
        rw [hstate]
        exact .same state fun _ => List.not_mem_nil
    | some prompt =>
        dsimp only
        split
        · refine .changed ⟨.Layout, by simp⟩ fun heq => ?_
          have hnone : none = state.interaction := congrArg AppState.interaction heq
          rw [hactive] at hnone
          cases hnone
        · have hstate : ({ state with interaction := some prompt } : AppState Value) = state := by
            rw [← hactive]
          rw [hstate]
          exact .same state fun _ => List.not_mem_nil
  · simp only [ne_eq, hsame, not_false_eq_true, decide_true, if_true]
    have hviewport {next : AppState Value} (hnext : next.viewport = viewport) : next ≠ state :=
      fun heq => hsame (heq ▸ hnext)
    cases hactive : state.interaction with
    | none => exact .changed ⟨.Layout, by simp⟩ (hviewport rfl)
    | some prompt =>
        dsimp only
        split
        · exact .changed ⟨.Layout, by simp⟩ (hviewport rfl)
        · exact .changed ⟨.Layout, by simp⟩ (hviewport rfl)

/-! ## One step -/

section

variable [DecidableEq (RenderBlock Value)] (unicode : Unicode Value) (ratatui : Ratatui)

theorem applyAction_truthful (state : AppState Value) (action : Action Value) :
    Truthful state (applyAction unicode ratatui state action) := by
  cases action with
  | Insert character =>
      rw [applyAction]
      split
      · exact .edited (insert_changed ..)
      · exact .same state (by simp)
  | InsertNewline => exact .edited (insert_changed ..)
  | Backspace => exact .edited (backspace_changed ..)
  | Paste text =>
      rw [applyAction]
      split
      · exact .edited (paste_changed ..)
      · exact .same state (by simp)
  | ReplaceInput input => exact .edited (replaceInput_changed ..)
  | Submit =>
      rw [applyAction]
      split
      · rename_i hvisible
        refine .changed ⟨.Content, by simp⟩ fun heq => hvisible ?_
        have hempty : [] = state.editor.buffer :=
          congrArg (fun next : AppState Value => next.editor.buffer) heq
        rw [← hempty]
        rfl
      · exact .same state (by simp)
  | ReplaceBlocks blocks => exact .scrolled (replace_changed ..)
  | ScrollBy olderLines => exact .scrolled (scrollBy_changed ..)
  | SetStatus status =>
      rw [applyAction]
      split
      · rename_i hne
        exact .changed ⟨.Content, by simp⟩ fun heq => hne (congrArg AppState.status heq).symm
      · exact .same state (by simp)
  | PresentInteraction prompt => exact presentInteraction_truthful state prompt
  | SelectInteractionOption key => exact selectInteractionOption_truthful state key
  | CancelInteraction => exact cancelInteraction_truthful state
  | Resize viewport => exact resize_truthful state viewport
  | SelectTheme selection =>
      rw [applyAction]
      split
      · rename_i hne
        exact .changed ⟨.Theme, by simp⟩ fun heq => hne (congrArg AppState.themeSelection heq).symm
      · exact .same state (by simp)
  | DetectBackground background =>
      rw [applyAction, detectBackground]
      split
      · rename_i hne
        refine .changed ⟨_, List.mem_singleton.2 rfl⟩ fun heq => ?_
        exact hne (congrArg AppState.detectedBackground heq).symm
      · exact .same state (by simp)
  | ToggleHelp =>
      refine .changed ⟨.Content, by simp⟩ fun heq => ?_
      have hhelp : (!state.helpVisible) = state.helpVisible := congrArg AppState.helpVisible heq
      cases hvisible : state.helpVisible <;> simp [hvisible] at hhelp
  | Quit =>
      have hcancel := cancelInteraction_truthful state
      unfold Truthful at hcancel ⊢
      rw [applyAction]
      simpa using hcancel

omit [DecidableEq (RenderBlock Value)] in
theorem reclamp_redraw (state next : AppState Value) {effects : List Effect}
    (h : ∃ invalidation, .Redraw invalidation ∈ effects) :
    ∃ invalidation, .Redraw invalidation ∈ (reclamp unicode ratatui state next effects).1 := by
  obtain ⟨invalidation, hmem⟩ := h
  refine ⟨invalidation, ?_⟩
  unfold reclamp
  split
  · dsimp only
    split
    · exact List.mem_append_left _ hmem
    · exact hmem
  · exact hmem

omit [DecidableEq (RenderBlock Value)] in
theorem reclamp_region (state next : AppState Value) (effects : List Effect) :
    transcriptViewport ratatui (reclamp unicode ratatui state next effects).2 =
      transcriptViewport ratatui next := by
  unfold reclamp
  split <;> rfl

/-- A step requests a redraw exactly if it changed the state. -/
theorem reduce_truthful (state : AppState Value) (action : Action Value) :
    Truthful state (reduce unicode ratatui state action) := by
  have happly := applyAction_truthful unicode ratatui state action
  unfold reduce
  dsimp only
  by_cases hregion : transcriptViewport ratatui (applyAction unicode ratatui state action).2 =
      transcriptViewport ratatui state
  · unfold reclamp
    rw [if_neg (fun hne => hne hregion)]
    exact happly
  · -- Where the region is another, so is the state, also behind the cut of the offset.
    have hne : (applyAction unicode ratatui state action).2 ≠ state := by
      intro heq
      rw [heq] at hregion
      exact hregion rfl
    refine ⟨fun _ heq => ?_, fun _ => reclamp_redraw unicode ratatui _ _ (happly.2 hne)⟩
    have hsame := reclamp_region unicode ratatui state (applyAction unicode ratatui state action).2
      (applyAction unicode ratatui state action).1
    rw [heq] at hsame
    exact hregion hsame.symm

/-! ## What stays pending -/

/-- What is pending has at least this priority. -/
def Pending (invalidation : Invalidation) (pending : Option Invalidation) : Prop :=
  ∃ current, pending = some current ∧ invalidation.priority ≤ current.priority

end

theorem merge_keeps {invalidation : Invalidation} {pending : Option Invalidation}
    (h : Pending invalidation pending) (incoming : Invalidation) :
    Pending invalidation (merge pending incoming) := by
  obtain ⟨current, rfl, hle⟩ := h
  unfold merge
  dsimp only
  split
  · exact ⟨current, rfl, hle⟩
  · exact ⟨incoming, rfl, by omega⟩

theorem merge_pending (pending : Option Invalidation) (incoming : Invalidation) :
    Pending incoming (merge pending incoming) := by
  unfold merge
  cases pending with
  | none => exact ⟨incoming, rfl, Nat.le_refl _⟩
  | some current =>
      dsimp only
      split
      · rename_i hle
        exact ⟨current, rfl, hle⟩
      · exact ⟨incoming, rfl, Nat.le_refl _⟩

theorem mergeEffect_keeps {invalidation : Invalidation} {pending : Option Invalidation}
    (h : Pending invalidation pending) (effects : List Effect) :
    Pending invalidation (effects.foldl mergeEffect pending) := by
  induction effects generalizing pending with
  | nil => exact h
  | cons effect rest ih =>
      refine ih ?_
      cases effect with
      | Redraw incoming => exact merge_keeps h incoming
      | _ => exact h

theorem mergeEffect_pending {invalidation : Invalidation} {effects : List Effect}
    (h : .Redraw invalidation ∈ effects) (pending : Option Invalidation) :
    Pending invalidation (effects.foldl mergeEffect pending) := by
  induction effects generalizing pending with
  | nil => cases h
  | cons effect rest ih =>
      rcases List.mem_cons.1 h with rfl | hrest
      · exact mergeEffect_keeps (merge_pending pending invalidation) rest
      · exact ih hrest _

section

variable [DecidableEq (RenderBlock Value)] {unicode : Unicode Value} {ratatui : Ratatui}

theorem call_keeps {invalidation : Invalidation} {view : AppView Value}
    (h : Pending invalidation view.invalidation) {call : ViewCall Value}
    (hcall : call.clears = false) :
    Pending invalidation (view.call unicode ratatui call).2.invalidation := by
  cases call with
  | takeInvalidation => cases hcall
  | draw => cases hcall
  | withNamedThemes namedThemes =>
      rw [AppView.call]
      dsimp only
      split
      · exact merge_keeps h .Theme
      · exact h
  | setActionRegistry registry => exact merge_keeps h .Content
  | dispatch action => exact mergeEffect_keeps h _
  | handleInput event =>
      rw [AppView.call]
      split
      · exact mergeEffect_keeps h _
      · exact h

theorem calls_keep {invalidation : Invalidation} {view : AppView Value}
    (h : Pending invalidation view.invalidation) {calls : List (ViewCall Value)}
    (hcalls : ∀ call ∈ calls, call.clears = false) :
    Pending invalidation
      (Mealy.after (AppView.call unicode ratatui) view calls).invalidation := by
  induction calls generalizing view with
  | nil => exact h
  | cons call rest ih =>
      exact ih (call_keeps h (hcalls call (.head rest)))
        fun other hother => hcalls other (.tail call hother)

/-- Behind any actions a redraw is requested exactly if an action changes the state, and a view
keeps a request of its priority until it is taken or drawn. -/
theorem redraws_requested (unicode : Unicode Value) (ratatui : Ratatui) (viewport : Viewport)
    (actions : List (Action Value)) (action : Action Value) :
    (let state := Mealy.after (reduce unicode ratatui) (.new viewport) actions
    (∃ invalidation, .Redraw invalidation ∈ (reduce unicode ratatui state action).1) ↔
      (reduce unicode ratatui state action).2 ≠ state) ∧
    ∀ (view : AppView Value) (invalidation : Invalidation),
      .Redraw invalidation ∈ (view.dispatch unicode ratatui action).1 →
      ∀ calls : List (ViewCall Value), (∀ call ∈ calls, call.clears = false) →
        Pending invalidation (Mealy.after (AppView.call unicode ratatui)
          (view.dispatch unicode ratatui action).2 calls).invalidation := by
  refine ⟨reduce_truthful unicode ratatui _ action, ?_⟩
  intro view invalidation hmem calls hcalls
  exact calls_keep (mergeEffect_pending hmem view.invalidation) hcalls

end

end MCode.Tui.App
