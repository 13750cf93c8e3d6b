import MCode.Lib.Mealy
import MCode.Tui.Bindings

/-!
# Prompts are answered once and seen

Five actions touch the slot of the active prompt.  Each of them answers exactly
the requests that it takes out of the slot or refuses to put there, so the
answers to one request and the slot together count how often it was presented.

A prompt is only in the slot while the viewport can show it, and what can be
shown is computed with the same heights as what is drawn.
-/

namespace MCode.Tui.App

open MCode.Lib MCode.Render

variable {Value : Type}

/-! ## Counting -/

/-- The answers to a request among these effects. -/
def resolvedCount (id : List Char) (effects : List Effect) : Nat :=
  effects.countP fun
    | .InteractionResolved requestId _ => requestId = id
    | _ => false

/-- One if the request is the active one. -/
def AppState.activeCount (state : AppState Value) (id : List Char) : Nat :=
  if state.interaction.map InteractionPrompt.requestId = some id then 1 else 0

/-- One if the action presents the request and it is not the active one. -/
def AppState.presentCount (state : AppState Value) (id : List Char) : Action Value → Nat
  | .PresentInteraction prompt =>
      if prompt.requestId = id ∧ state.activeCount id = 0 then 1 else 0
  | _ => 0

/-- The answers to a request in a run. -/
def resolvedIn (id : List Char) (log : List (Action Value × List Effect)) : Nat :=
  (log.map fun entry => resolvedCount id entry.2).sum

/-- The action only edits, scrolls or changes what is around the prompt. -/
def Action.leavesPrompt : Action Value → Bool
  | .PresentInteraction _ => false
  | .SelectInteractionOption _ => false
  | .CancelInteraction => false
  | .Resize _ => false
  | .Quit => false
  | _ => true

/-- The effect answers no request. -/
def Effect.isQuiet : Effect → Bool
  | .InteractionResolved _ _ => false
  | _ => true

@[simp] theorem resolvedCount_nil (id : List Char) : resolvedCount id [] = 0 := rfl

@[simp] theorem resolvedCount_resolved (id requestId : List Char) (response : InteractionResponse)
    (rest : List Effect) :
    resolvedCount id (.InteractionResolved requestId response :: rest) =
      (if requestId = id then 1 else 0) + resolvedCount id rest := by
  simp [resolvedCount, List.countP_cons, Nat.add_comm]

@[simp] theorem resolvedCount_cancelled (id requestId : List Char) (rest : List Effect) :
    resolvedCount id (interactionCancelled requestId :: rest) =
      (if requestId = id then 1 else 0) + resolvedCount id rest :=
  resolvedCount_resolved ..

@[simp] theorem resolvedCount_redraw (id : List Char) (invalidation : Invalidation)
    (rest : List Effect) :
    resolvedCount id (.Redraw invalidation :: rest) = resolvedCount id rest := by
  simp [resolvedCount]

@[simp] theorem resolvedCount_quit (id : List Char) (rest : List Effect) :
    resolvedCount id (.RequestQuit :: rest) = resolvedCount id rest := by
  simp [resolvedCount]

theorem resolvedCount_append (id : List Char) (first second : List Effect) :
    resolvedCount id (first ++ second) = resolvedCount id first + resolvedCount id second :=
  List.countP_append

theorem activeCount_none {state : AppState Value} (h : state.interaction = none)
    (id : List Char) : state.activeCount id = 0 := by
  rw [AppState.activeCount, h]
  rfl

theorem activeCount_some {state : AppState Value} {prompt : InteractionPrompt}
    (h : state.interaction = some prompt) (id : List Char) :
    state.activeCount id = if prompt.requestId = id then 1 else 0 := by
  rw [AppState.activeCount, h]
  simp

theorem resolvedCount_quiet {effects : List Effect} (h : ∀ effect ∈ effects, effect.isQuiet = true)
    (id : List Char) : resolvedCount id effects = 0 := by
  rw [resolvedCount, List.countP_eq_zero]
  intro effect hmem
  have hquiet := h effect hmem
  cases effect with
  | InteractionResolved requestId response => cases hquiet
  | _ => simp

section

variable [DecidableEq (RenderBlock Value)] {unicode : Unicode Value} {ratatui : Ratatui}

/-- The presentations of a request in a run that were not of the active one. -/
def presentedIn (unicode : Unicode Value) (ratatui : Ratatui) (id : List Char) :
    AppState Value → List (Action Value) → Nat
  | _, [] => 0
  | state, action :: rest =>
      state.presentCount id action +
        presentedIn unicode ratatui id (reduce unicode ratatui state action).2 rest

/-! ## Actions beside the prompt -/

/-- What an action beside the prompt leaves as it is. -/
structure Beside (state : AppState Value) (result : List Effect × AppState Value) : Prop where
  interaction : result.2.interaction = state.interaction
  viewport : result.2.viewport = state.viewport
  quiet : ∀ effect ∈ result.1, effect.isQuiet = true

omit [DecidableEq (RenderBlock Value)] in
theorem Beside.refl (state : AppState Value) : Beside state ([], state) :=
  ⟨rfl, rfl, fun _ h => absurd h List.not_mem_nil⟩

omit [DecidableEq (RenderBlock Value)] in
theorem Beside.edited (state : AppState Value) (result : LineEditor × Bool) :
    Beside state (edited state result) := by
  refine ⟨rfl, rfl, ?_⟩
  unfold App.edited
  cases result.2 <;> simp [Effect.isQuiet]

omit [DecidableEq (RenderBlock Value)] in
theorem Beside.scrolled (state : AppState Value) (result : Scrollback Value × Bool) :
    Beside state (scrolled state result) := by
  refine ⟨rfl, rfl, ?_⟩
  unfold App.scrolled
  cases result.2 <;> simp [Effect.isQuiet]

variable (unicode ratatui) in
theorem applyAction_beside (state : AppState Value) {action : Action Value}
    (h : action.leavesPrompt = true) :
    Beside state (applyAction unicode ratatui state action) := by
  cases action with
  | PresentInteraction prompt => cases h
  | SelectInteractionOption key => cases h
  | CancelInteraction => cases h
  | Resize viewport => cases h
  | Quit => cases h
  | Insert character =>
      rw [applyAction]
      split
      · exact .edited ..
      · exact .refl state
  | InsertNewline => exact .edited ..
  | Backspace => exact .edited ..
  | Paste text =>
      rw [applyAction]
      split
      · exact .edited ..
      · exact .refl state
  | ReplaceInput input => exact .edited ..
  | Submit =>
      rw [applyAction]
      split
      · exact ⟨rfl, rfl, by simp [Effect.isQuiet]⟩
      · exact .refl state
  | ReplaceBlocks blocks => exact .scrolled ..
  | ScrollBy olderLines => exact .scrolled ..
  | SetStatus status =>
      rw [applyAction]
      split
      · exact ⟨rfl, rfl, by simp [Effect.isQuiet]⟩
      · exact .refl state
  | SelectTheme selection =>
      rw [applyAction]
      split
      · exact ⟨rfl, rfl, by simp [Effect.isQuiet]⟩
      · exact .refl state
  | DetectBackground background =>
      rw [applyAction, detectBackground]
      split
      · exact ⟨rfl, rfl, by simp [Effect.isQuiet]⟩
      · exact .refl state
  | ToggleHelp => exact ⟨rfl, rfl, by simp [applyAction, Effect.isQuiet]⟩

/-! ## One step -/

variable (unicode ratatui) in
omit [DecidableEq (RenderBlock Value)] in
/-- The last cut of the offset adds at most one effect, a redraw. -/
theorem reclamp_effects (state next : AppState Value) (effects : List Effect) :
    (reclamp unicode ratatui state next effects).1 = effects ∨
      (reclamp unicode ratatui state next effects).1 = effects ++ [.Redraw .Content] := by
  unfold reclamp
  split
  · dsimp only
    split
    · exact .inr rfl
    · exact .inl rfl
  · exact .inl rfl

omit [DecidableEq (RenderBlock Value)] in
theorem reclamp_resolved (state next : AppState Value) (effects : List Effect) (id : List Char) :
    resolvedCount id (reclamp unicode ratatui state next effects).1 = resolvedCount id effects := by
  rcases reclamp_effects unicode ratatui state next effects with h | h
  · rw [h]
  · rw [h]
    simp [resolvedCount]

omit [DecidableEq (RenderBlock Value)] in
theorem reclamp_interaction (state next : AppState Value) (effects : List Effect) :
    (reclamp unicode ratatui state next effects).2.interaction = next.interaction := by
  unfold reclamp
  split <;> rfl

omit [DecidableEq (RenderBlock Value)] in
theorem reclamp_viewport (state next : AppState Value) (effects : List Effect) :
    (reclamp unicode ratatui state next effects).2.viewport = next.viewport := by
  unfold reclamp
  split <;> rfl

/-- The answers of a step and the slot behind it. -/
def balance (id : List Char) (result : List Effect × AppState Value) : Nat :=
  resolvedCount id result.1 + result.2.activeCount id

omit [DecidableEq (RenderBlock Value)] in
theorem presentInteraction_balance (state : AppState Value) (prompt : InteractionPrompt)
    (id : List Char) :
    balance id (presentInteraction state prompt) =
      state.activeCount id + state.presentCount id (.PresentInteraction prompt) := by
  unfold presentInteraction balance AppState.presentCount
  cases hactive : state.interaction with
  | none =>
      rw [activeCount_none hactive]
      dsimp only
      split
      · simp [activeCount_none hactive]
      · simp [AppState.activeCount]
  | some current =>
      rw [activeCount_some hactive]
      dsimp only
      split
      · split
        · rename_i hsame
          rw [hsame]
          by_cases hid : prompt.requestId = id <;> simp [AppState.activeCount, hid]
        · rename_i hother
          split
          · by_cases hid : prompt.requestId = id
            · subst hid
              simp [AppState.activeCount, hother]
            · by_cases hcurrent : current.requestId = id <;>
                simp [AppState.activeCount, hid, hcurrent]
          · by_cases hid : prompt.requestId = id
            · subst hid
              simp [AppState.activeCount, hactive, hother]
            · simp [AppState.activeCount, hactive, hid]
      · split
        · rename_i hother
          by_cases hid : prompt.requestId = id
          · subst hid
            simp [AppState.activeCount, hactive, hother]
          · simp [AppState.activeCount, hactive, hid]
        · rename_i hsame
          have hrequest : current.requestId = prompt.requestId := Decidable.not_not.1 hsame
          split
          · by_cases hid : prompt.requestId = id <;>
              simp [AppState.activeCount, hrequest, hid]
          · by_cases hid : prompt.requestId = id <;>
              simp [AppState.activeCount, hactive, hrequest, hid]

omit [DecidableEq (RenderBlock Value)] in
/-- Taking the prompt out of the slot with an answer keeps the balance. -/
theorem cancelInteraction_balance (state : AppState Value) (id : List Char) :
    balance id (cancelInteraction state) = state.activeCount id := by
  unfold cancelInteraction balance
  cases hactive : state.interaction with
  | none => simp
  | some prompt => simp [AppState.activeCount, hactive]

omit [DecidableEq (RenderBlock Value)] in
theorem selectInteractionOption_balance (state : AppState Value) (key : Char) (id : List Char) :
    balance id (selectInteractionOption state key) = state.activeCount id := by
  unfold selectInteractionOption balance
  cases hactive : state.interaction with
  | none => simp
  | some prompt =>
      dsimp only
      split
      · simp [AppState.activeCount, hactive]
      · cases prompt.optionForKey key with
        | none => simp
        | some option => simp [AppState.activeCount, hactive]

omit [DecidableEq (RenderBlock Value)] in
theorem resize_balance (state : AppState Value) (viewport : Viewport) (id : List Char) :
    balance id (resize state viewport) = state.activeCount id := by
  have hredraw (changed : Bool) :
      resolvedCount id (if changed = true then [.Redraw .Layout] else []) = 0 := by
    cases changed <;> simp
  have hlast (changed : Bool) :
      resolvedCount id (if changed = true then [] else [.Redraw .Layout]) = 0 := by
    cases changed <;> simp
  unfold resize balance
  cases hactive : state.interaction with
  | none =>
      dsimp only
      rw [hredraw]
      simp [AppState.activeCount, hactive]
  | some prompt =>
      dsimp only
      split
      · rw [resolvedCount_append, resolvedCount_append, hredraw, hlast]
        simp [AppState.activeCount, hactive]
      · rw [hredraw]
        simp [AppState.activeCount, hactive]

variable (unicode ratatui) in
/-- A step answers what it takes out of the slot or does not put there. -/
theorem reduce_balance (state : AppState Value) (action : Action Value) (id : List Char) :
    balance id (reduce unicode ratatui state action) =
      state.activeCount id + state.presentCount id action := by
  have hreclamp : balance id (reduce unicode ratatui state action) =
      balance id (applyAction unicode ratatui state action) := by
    unfold reduce balance
    dsimp only
    rw [reclamp_resolved, AppState.activeCount, reclamp_interaction]
    rfl
  rw [hreclamp]
  cases hleaves : action.leavesPrompt with
  | true =>
      have hbeside := applyAction_beside unicode ratatui state hleaves
      have hpresent : state.presentCount id action = 0 := by
        cases action with
        | PresentInteraction prompt => cases hleaves
        | _ => rfl
      rw [balance, resolvedCount_quiet hbeside.quiet, hpresent, AppState.activeCount,
        hbeside.interaction, Nat.zero_add, Nat.add_zero]
      rfl
  | false =>
      cases action with
      | PresentInteraction prompt => exact presentInteraction_balance state prompt id
      | SelectInteractionOption key => exact selectInteractionOption_balance state key id
      | CancelInteraction => exact cancelInteraction_balance state id
      | Resize viewport => exact resize_balance state viewport id
      | Quit =>
          have hcancel := cancelInteraction_balance state id
          unfold balance at hcancel ⊢
          rw [applyAction, resolvedCount_append]
          simpa [AppState.presentCount] using hcancel
      | _ => cases hleaves

/-- In every run the answers to a request and the slot count its presentations. -/
theorem run_balance (id : List Char) (state : AppState Value) (actions : List (Action Value)) :
    resolvedIn id (Mealy.log (reduce unicode ratatui) state actions) +
        (Mealy.after (reduce unicode ratatui) state actions).activeCount id =
      state.activeCount id + presentedIn unicode ratatui id state actions := by
  induction actions generalizing state with
  | nil => simp [resolvedIn, presentedIn]
  | cons action rest ih =>
      have hstep := reduce_balance unicode ratatui state action id
      have hrest := ih (reduce unicode ratatui state action).2
      rw [Mealy.log, presentedIn]
      unfold balance at hstep
      unfold resolvedIn at hrest ⊢
      rw [List.map_cons, List.sum_cons]
      have hafter : Mealy.after (reduce unicode ratatui) state (action :: rest) =
          Mealy.after (reduce unicode ratatui) (reduce unicode ratatui state action).2 rest := rfl
      rw [hafter]
      dsimp only
      omega

/-! ## What is in the slot can be shown -/

/-- The active prompt can be shown in the current viewport. -/
def AppState.Presentable (state : AppState Value) : Prop :=
  ∀ prompt, state.interaction = some prompt → prompt.presentableIn state.viewport = true

omit [DecidableEq (RenderBlock Value)] in
theorem presentable_of_none {state : AppState Value} (h : state.interaction = none) :
    state.Presentable := by
  intro prompt hprompt
  rw [h] at hprompt
  cases hprompt

omit [DecidableEq (RenderBlock Value)] in
theorem presentInteraction_presentable {state : AppState Value} (h : state.Presentable)
    (prompt : InteractionPrompt) : (presentInteraction state prompt).2.Presentable := by
  have hput (hpresentable : ¬ ¬ prompt.presentableIn state.viewport = true) :
      ({ state with interaction := some prompt } : AppState Value).Presentable := by
    intro other hother
    rw [← Option.some.inj hother]
    exact Decidable.not_not.1 hpresentable
  unfold presentInteraction
  cases hactive : state.interaction with
  | none =>
      dsimp only
      split
      · exact h
      · rename_i hpresentable
        exact hput hpresentable
  | some current =>
      dsimp only
      split
      · split
        · exact presentable_of_none rfl
        · split
          · exact presentable_of_none rfl
          · exact h
      · rename_i hpresentable
        split
        · exact h
        · split
          · exact hput hpresentable
          · exact h

omit [DecidableEq (RenderBlock Value)] in
theorem cancelInteraction_presentable (state : AppState Value) :
    (cancelInteraction state).2.Presentable := by
  unfold cancelInteraction
  cases hactive : state.interaction with
  | none => exact presentable_of_none hactive
  | some prompt => exact presentable_of_none rfl

omit [DecidableEq (RenderBlock Value)] in
theorem selectInteractionOption_presentable {state : AppState Value} (h : state.Presentable)
    (key : Char) : (selectInteractionOption state key).2.Presentable := by
  unfold selectInteractionOption
  cases hactive : state.interaction with
  | none => exact h
  | some prompt =>
      dsimp only
      split
      · exact presentable_of_none rfl
      · cases prompt.optionForKey key with
        | none => exact h
        | some option => exact presentable_of_none rfl

omit [DecidableEq (RenderBlock Value)] in
theorem resize_presentable (state : AppState Value) (viewport : Viewport) :
    (resize state viewport).2.Presentable := by
  unfold resize
  cases hactive : state.interaction with
  | none => exact presentable_of_none rfl
  | some prompt =>
      dsimp only
      split
      · exact presentable_of_none rfl
      · rename_i hpresentable
        intro other hother
        rw [← Option.some.inj hother]
        exact Decidable.not_not.1 hpresentable

theorem reduce_presentable {state : AppState Value} (h : state.Presentable)
    (action : Action Value) : (reduce unicode ratatui state action).2.Presentable := by
  have happly : (applyAction unicode ratatui state action).2.Presentable := by
    cases hleaves : action.leavesPrompt with
    | true =>
        have hbeside := applyAction_beside unicode ratatui state hleaves
        unfold AppState.Presentable
        rw [hbeside.interaction, hbeside.viewport]
        exact h
    | false =>
        cases action with
        | PresentInteraction prompt => exact presentInteraction_presentable h prompt
        | SelectInteractionOption key => exact selectInteractionOption_presentable h key
        | CancelInteraction => exact cancelInteraction_presentable state
        | Resize viewport => exact resize_presentable state viewport
        | Quit => exact cancelInteraction_presentable state
        | _ => cases hleaves
  unfold reduce AppState.Presentable
  dsimp only
  rw [reclamp_interaction, reclamp_viewport]
  exact happly

/-! ## What is drawn -/

/-- The drawn lines have the title of the prompt, the first line of its body, and one row for
each option, in order; and no row falls off the region. -/
structure Shown (unicode : Unicode Value) (supportsUnicode : Bool)
    (registry : ActionRegistry Value) (state : AppState Value) (prompt : InteractionPrompt)
    (area : Viewport) (lines : List Line) : Prop where
  title : titleLine unicode supportsUnicode area.width prompt ∈ lines
  body : ∀ first, prompt.bodyLines.head? = some first →
    bodyLine unicode supportsUnicode area.width first ∈ lines
  options : ∃ rows, rows <:+: lines ∧
    (prompt.options.zipIdx.map fun (option, index) =>
      optionLine unicode supportsUnicode registry state area.width option index) = rows.map some
  fits : lines.length ≤ area.height

omit [DecidableEq (RenderBlock Value)] in
/-- With a prompt the region of the transcript is what `isReadable` asks for. -/
theorem transcriptViewport_interaction {state : AppState Value}
    (h : state.interaction.isSome = true) :
    transcriptViewport ratatui state =
      ⟨state.viewport.width - 2,
        interactionBodyHeight state.viewport - INTERACTION_BORDER_ROWS⟩ := by
  have hextra : state.extraInputLines = 0 := by
    unfold AppState.extraInputLines
    rw [if_pos (.inl h)]
  have hlogo : state.logoHeight state.viewport = 0 := by
    unfold AppState.logoHeight
    rw [if_pos h]
  unfold transcriptViewport viewLayout
  rw [hlogo, ratatui.body_eq, ratatui.inner_eq]
  · unfold AppState.inputHeight interactionBodyHeight statusHeight
    rw [hextra]
    dsimp only [INTERACTION_INPUT_ROWS, INTERACTION_STATUS_ROWS, INTERACTION_BORDER_ROWS]
    congr 1
    split <;> split <;> (try split) <;> omega
  · unfold AppState.inputHeight statusHeight
    rw [hextra]
    split <;> split <;> omega

/-- What is filtered out of a list without a gap is all of it. -/
theorem map_eq_filterMap {α β : Type} {f : α → Option β} {l : List α}
    (h : ∀ x ∈ l, (f x).isSome = true) : l.map f = (l.filterMap f).map some := by
  induction l with
  | nil => rfl
  | cons x rest ih =>
      obtain ⟨y, hy⟩ := Option.isSome_iff_exists.1 (h x (.head rest))
      rw [List.map_cons, List.filterMap_cons_some hy, List.map_cons, hy,
        ih fun z hz => h z (.tail x hz)]

omit [DecidableEq (RenderBlock Value)] in
/-- The rows of the options, one for each, since every option of a prompt has a digit. -/
theorem optionLines_total (unicode : Unicode Value) (supportsUnicode : Bool)
    (registry : ActionRegistry Value) (state : AppState Value) (prompt : InteractionPrompt)
    (width : Nat) :
    (prompt.options.zipIdx.map fun (option, index) =>
      optionLine unicode supportsUnicode registry state width option index) =
    (prompt.options.zipIdx.filterMap fun (option, index) =>
      optionLine unicode supportsUnicode registry state width option index).map some := by
  apply map_eq_filterMap
  rintro ⟨option, index⟩ hmem
  have hindex : index < prompt.options.length := by
    have hget := (List.mk_mem_zipIdx_iff_getElem? ..).1 hmem
    exact (List.getElem?_eq_some_iff.1 hget).1
  have hkey : ¬ INTERACTION_MAX_OPTIONS ≤ index := by
    have hmost := prompt.options_le
    omega
  show (optionLine unicode supportsUnicode registry state width option index).isSome = true
  unfold optionLine optionKey
  rw [if_neg hkey]
  rfl

/-- What `isReadable` leaves for the lines of a prompt. -/
theorem readable_rows {viewport : Viewport} {optionCount : Nat}
    (h : isReadable viewport optionCount = true) :
    2 + optionCount ≤ interactionBodyHeight viewport - INTERACTION_BORDER_ROWS := by
  unfold isReadable at h
  split at h
  · cases h
  · exact of_decide_eq_true h

/-- A row is spent only where one remains. -/
theorem spent_le (spends : Bool) {room : Nat} (h : spends = true → 0 < room) :
    (if spends = true then 1 else 0) ≤ room := by
  split
  · rename_i hspends
    exact h hspends
  · exact Nat.zero_le room

theorem length_spent (spends : Bool) (line : Line) :
    (if spends = true then [line] else []).length = if spends = true then 1 else 0 := by
  split <;> rfl

omit [DecidableEq (RenderBlock Value)] in
/-- In a region with room for the title, a body line and the options, the lines are these
parts, and they fit. -/
theorem interactionLines_parts [DecidableEq (Action Value)] {state : AppState Value}
    {prompt : InteractionPrompt} (hactive : state.interaction = some prompt) {area : Viewport}
    (hrows : 2 + prompt.options.length ≤ area.height) (unicode : Unicode Value)
    (supportsUnicode : Bool) (registry : ActionRegistry Value) :
    ∃ gapBefore bodyRows gapAfter cancel,
      interactionLines unicode supportsUnicode registry state area =
        [titleLine unicode supportsUnicode area.width prompt] ++ gapBefore ++
          (prompt.bodyLines.take bodyRows).map (bodyLine unicode supportsUnicode area.width) ++
          gapAfter ++
          (prompt.options.zipIdx.filterMap fun (option, index) =>
            optionLine unicode supportsUnicode registry state area.width option index) ++
          cancel ∧
      (prompt.bodyLines ≠ [] → 0 < bodyRows) ∧
      1 + gapBefore.length + min bodyRows prompt.bodyLines.length + gapAfter.length +
        prompt.options.length + cancel.length ≤ area.height := by
  unfold interactionLines
  rw [hactive]
  dsimp only
  generalize keyLabel registry state .CancelInteraction = cancelKeys
  obtain ⟨required, hrequired⟩ : ∃ required, (if prompt.bodyLines ≠ [] then 1 else 0) = required :=
    ⟨_, rfl⟩
  have hleast : required ≤ 1 ∧ required ≤ prompt.bodyLines.length ∧
      (prompt.bodyLines ≠ [] → 0 < required) := by
    rw [← hrequired]
    split
    · rename_i hbody
      exact ⟨Nat.le_refl 1, List.length_pos_iff.2 hbody, fun _ => Nat.one_pos⟩
    · rename_i hbody
      exact ⟨by omega, Nat.zero_le _, fun hne => absurd hne hbody⟩
  rw [hrequired, if_neg (by omega)]
  -- Each line that is added takes one of the rows that remain.
  generalize hroom : area.height - (1 + required + prompt.options.length) = room
  generalize hshow : decide (cancelKeys.isSome = true ∧ 0 < room) = showCancel
  have hcancel := spent_le showCancel fun htrue =>
    (of_decide_eq_true (hshow.trans htrue)).2
  generalize hbefore : decide (prompt.bodyLines ≠ [] ∧
    0 < room - if showCancel = true then 1 else 0) = gapBefore
  have hgapBefore := spent_le gapBefore fun htrue =>
    (of_decide_eq_true (hbefore.trans htrue)).2
  generalize hafter : decide (0 < (room - if showCancel = true then 1 else 0) -
    if gapBefore = true then 1 else 0) = gapAfter
  have hgapAfter := spent_le gapAfter fun htrue =>
    of_decide_eq_true (hafter.trans htrue)
  refine ⟨_, _, _, _, rfl, fun hbody => ?_, ?_⟩
  · have hone := hleast.2.2 hbody
    omega
  · rw [length_spent, length_spent]
    cases cancelKeys with
    | none =>
        dsimp only [List.length_nil]
        omega
    | some keys =>
        dsimp only
        rw [length_spent]
        omega

omit [DecidableEq (RenderBlock Value)] in
/-- A prompt that can be shown is drawn in full in the region that the layout gives it. -/
theorem interactionLines_shown [DecidableEq (Action Value)] {state : AppState Value}
    {prompt : InteractionPrompt} (hactive : state.interaction = some prompt)
    (hpresentable : prompt.presentableIn state.viewport = true) (supportsUnicode : Bool)
    (registry : ActionRegistry Value) :
    Shown unicode supportsUnicode registry state prompt (transcriptViewport ratatui state)
      (interactionLines unicode supportsUnicode registry state
        (transcriptViewport ratatui state)) := by
  have hrows : 2 + prompt.options.length ≤ (transcriptViewport ratatui state).height := by
    rw [transcriptViewport_interaction (by rw [hactive]; rfl)]
    exact readable_rows hpresentable
  obtain ⟨gapBefore, bodyRows, gapAfter, cancel, hlines, hfirst, hfits⟩ :=
    interactionLines_parts hactive hrows unicode supportsUnicode registry
  have htotal := optionLines_total unicode supportsUnicode registry state prompt
    (transcriptViewport ratatui state).width
  rw [hlines]
  generalize (prompt.options.zipIdx.filterMap fun (option, index) =>
    optionLine unicode supportsUnicode registry state (transcriptViewport ratatui state).width
      option index) = rows at htotal
  constructor
  · simp
  · intro first hhead
    have hbody : prompt.bodyLines ≠ [] := by
      intro hnil
      rw [hnil] at hhead
      cases hhead
    have hmem : first ∈ prompt.bodyLines.take bodyRows := by
      apply List.mem_of_mem_head?
      rw [List.head?_take, if_neg (Nat.ne_of_gt (hfirst hbody))]
      exact hhead
    have hline := List.mem_map_of_mem
      (f := bodyLine unicode supportsUnicode (transcriptViewport ratatui state).width) hmem
    simp only [List.mem_append]
    exact .inl (.inl (.inl (.inr hline)))
  · exact ⟨_, ⟨_, cancel, rfl⟩, htotal⟩
  · have hcount := congrArg List.length htotal
    rw [List.length_map, List.length_map, List.length_zipIdx] at hcount
    simp only [List.length_append, List.length_map, List.length_singleton, List.length_take]
    omega

/-! ## What is selected -/

/-- A selection answers the active prompt with the option at the digit that was pressed. -/
def Pressed (state : AppState Value) (action : Action Value) (id optionId : List Char) : Prop :=
  ∃ key prompt index option, action = .SelectInteractionOption key ∧
    state.interaction = some prompt ∧ prompt.requestId = id ∧
    optionKey index = some key ∧ prompt.options[index]? = some option ∧ option.id = optionId

/-- An effect that selects an option. -/
def Effect.isSelection : Effect → Bool
  | .InteractionResolved _ (.Selected _) => true
  | _ => false

omit [DecidableEq (RenderBlock Value)] in
theorem presentInteraction_selects (state : AppState Value) (prompt : InteractionPrompt) :
    ∀ effect ∈ (presentInteraction state prompt).1, effect.isSelection = false := by
  unfold presentInteraction
  cases state.interaction with
  | none =>
      dsimp only
      split <;> simp [Effect.isSelection, interactionCancelled]
  | some current =>
      dsimp only
      split
      · split
        · simp [Effect.isSelection, interactionCancelled]
        · split <;> simp [Effect.isSelection, interactionCancelled]
      · split
        · simp [Effect.isSelection, interactionCancelled]
        · split <;> simp [Effect.isSelection]

omit [DecidableEq (RenderBlock Value)] in
theorem cancelInteraction_selects (state : AppState Value) :
    ∀ effect ∈ (cancelInteraction state).1, effect.isSelection = false := by
  unfold cancelInteraction
  cases state.interaction <;> simp [Effect.isSelection, interactionCancelled]

omit [DecidableEq (RenderBlock Value)] in
theorem resize_selects (state : AppState Value) (viewport : Viewport) :
    ∀ effect ∈ (resize state viewport).1, effect.isSelection = false := by
  have hredraw (changed : Bool) : ∀ effect ∈ (if changed = true then [Effect.Redraw .Layout] else []),
      effect.isSelection = false := by cases changed <;> simp [Effect.isSelection]
  unfold resize
  cases state.interaction with
  | none => exact hredraw _
  | some prompt =>
      dsimp only
      split
      · intro effect hmem
        rcases List.mem_append.1 hmem with hmem | hmem
        · rcases List.mem_append.1 hmem with hmem | hmem
          · exact hredraw _ effect hmem
          · rw [List.mem_singleton.1 hmem]
            rfl
        · split at hmem
          · cases hmem
          · rw [List.mem_singleton.1 hmem]
            rfl
      · exact hredraw _

theorem reduce_pressed {state : AppState Value} {action : Action Value} {id optionId : List Char}
    (h : .InteractionResolved id (.Selected optionId) ∈ (reduce unicode ratatui state action).1) :
    Pressed state action id optionId := by
  have happly : .InteractionResolved id (.Selected optionId) ∈
      (applyAction unicode ratatui state action).1 := by
    unfold reduce at h
    dsimp only at h
    rcases reclamp_effects unicode ratatui state
      (applyAction unicode ratatui state action).2 (applyAction unicode ratatui state action).1
      with heffects | heffects
    · rwa [heffects] at h
    · rw [heffects] at h
      simpa using h
  cases hleaves : action.leavesPrompt with
  | true =>
      have hquiet := (applyAction_beside unicode ratatui state
        hleaves).quiet _ happly
      cases hquiet
  | false =>
      cases action with
      | PresentInteraction prompt => cases presentInteraction_selects state prompt _ happly
      | CancelInteraction => cases cancelInteraction_selects state _ happly
      | Resize viewport => cases resize_selects state viewport _ happly
      | Quit =>
          rcases List.mem_append.1 happly with hcancel | hquit
          · cases cancelInteraction_selects state _ hcancel
          · simp at hquit
      | SelectInteractionOption key =>
          rw [applyAction, selectInteractionOption] at happly
          cases hactive : state.interaction with
          | none => simp [hactive] at happly
          | some prompt =>
              rw [hactive] at happly
              dsimp only at happly
              split at happly
              · simp [interactionCancelled] at happly
              · cases hoption : prompt.optionForKey key with
                | none => simp [hoption] at happly
                | some option =>
                    rw [hoption] at happly
                    simp only [List.mem_cons, Effect.InteractionResolved.injEq,
                      InteractionResponse.Selected.injEq, reduceCtorEq, List.not_mem_nil,
                      or_false] at happly
                    obtain ⟨index, hkey, hindex⟩ := InteractionPrompt.optionForKey_eq_some hoption
                    exact ⟨key, prompt, index, option, rfl, hactive, happly.1.symm, hkey, hindex,
                      happly.2.symm⟩
      | _ => cases hleaves

/-! ## Keys under a prompt -/

/-- The action has no part in the input. -/
def Action.leavesInput : Action Value → Bool
  | .ToggleHelp => true
  | .Quit => true
  | .SelectInteractionOption _ => true
  | .CancelInteraction => true
  | .Resize _ => true
  | _ => false

def ActionId.leavesInput : ActionId → Bool
  | .ToggleHelp => true
  | .Quit => true
  | .SelectInteractionOption => true
  | .CancelInteraction => true
  | _ => false

omit [DecidableEq (RenderBlock Value)] in
theorem ActionId.action_leavesInput {actionId : ActionId} (h : actionId.leavesInput = true)
    {key : KeyEvent} {action : Action Value} (haction : actionId.action key = some action) :
    action.leavesInput = true := by
  cases actionId with
  | ToggleHelp | Quit | CancelInteraction =>
      cases haction
      rfl
  | SelectInteractionOption =>
      unfold ActionId.action at haction
      dsimp only at haction
      split at haction
      · split at haction
        · cases haction
          rfl
        · cases haction
      · cases haction
  | _ => cases h

omit [DecidableEq (RenderBlock Value)] in
theorem hidden_rejects {state : AppState Value} (h : state.interaction.isSome = true) :
    ¬ (When.INTERACTION_HIDDEN : When Value).predicate state = true := by
  show ¬ state.interaction.isNone = true
  rw [Option.isNone_iff_eq_none]
  intro hnone
  rw [hnone] at h
  cases h

omit [DecidableEq (RenderBlock Value)] in
/-- Under a prompt only bindings beside the input accept the state. -/
theorem default_accepts {state : AppState Value} (h : state.interaction.isSome = true) :
    ∀ binding ∈ (ActionRegistry.default : ActionRegistry Value).bindings,
      binding.condition.predicate state = true → binding.action.leavesInput = true := by
  intro binding hmem haccepts
  rcases List.mem_append.1 hmem with hmem | hcancel
  · rcases List.mem_append.1 hmem with hkeys | hdigits
    · simp only [List.mem_cons, List.not_mem_nil, or_false] at hkeys
      rcases hkeys with rfl | rfl | rfl | rfl | rfl | rfl | rfl | rfl | rfl
      all_goals first | exact absurd haccepts (hidden_rejects h) | rfl
    · obtain ⟨digit, _, rfl⟩ := List.mem_map.1 hdigits
      rfl
  · rw [List.mem_singleton.1 hcancel]
    rfl

omit [DecidableEq (RenderBlock Value)] in
theorem default_leavesInput {state : AppState Value} (h : state.interaction.isSome = true)
    {event : Event} {action : Action Value}
    (haction : ActionRegistry.default.actionForEvent event state = some action) :
    action.leavesInput = true := by
  have hkey {key : KeyEvent} (hresolve : ActionRegistry.default.resolveKey key state = some action) :
      action.leavesInput = true := by
    obtain ⟨tier, _, htier⟩ := List.exists_of_findSome?_eq_some hresolve
    obtain ⟨binding, hmem, hbinding⟩ := List.exists_of_findSome?_eq_some htier
    split at hbinding
    · rename_i hhits
      have hleaves := default_accepts h binding (List.mem_reverse.1 hmem) hhits.2.1
      exact ActionId.action_leavesInput hleaves hbinding
    · cases hbinding
  cases event with
  | Resize width height =>
      cases haction
      rfl
  | Paste data =>
      rw [ActionRegistry.actionForEvent, if_neg (hidden_rejects h)] at haction
      cases haction
  | Key key =>
      rw [ActionRegistry.actionForEvent] at haction
      split at haction
      · exact hkey haction
      · cases haction
  | FocusGained => cases haction
  | FocusLost => cases haction
  | Mouse => cases haction

/-- The result of a step that has no part in the input. -/
structure InputKept (state : AppState Value) (result : List Effect × AppState Value) : Prop where
  editor : result.2.editor = state.editor
  unsubmitted : ∀ input, .SubmitInput input ∉ result.1

omit [DecidableEq (RenderBlock Value)] in
theorem cancelInteraction_input (state : AppState Value) :
    InputKept state (cancelInteraction state) := by
  unfold cancelInteraction
  cases state.interaction with
  | none => exact ⟨rfl, by simp⟩
  | some prompt => exact ⟨rfl, by simp [interactionCancelled]⟩

omit [DecidableEq (RenderBlock Value)] in
theorem selectInteractionOption_input (state : AppState Value) (key : Char) :
    InputKept state (selectInteractionOption state key) := by
  unfold selectInteractionOption
  cases state.interaction with
  | none => exact ⟨rfl, by simp⟩
  | some prompt =>
      dsimp only
      split
      · exact ⟨rfl, by simp [interactionCancelled]⟩
      · cases prompt.optionForKey key with
        | none => exact ⟨rfl, by simp⟩
        | some option => exact ⟨rfl, by simp⟩

omit [DecidableEq (RenderBlock Value)] in
theorem resize_input (state : AppState Value) (viewport : Viewport) :
    InputKept state (resize state viewport) := by
  unfold resize
  cases state.interaction with
  | none =>
      refine ⟨rfl, fun input => ?_⟩
      dsimp only
      split <;> simp
  | some prompt =>
      dsimp only
      split
      · refine ⟨rfl, fun input => ?_⟩
        dsimp only
        split <;> simp [interactionCancelled]
      · refine ⟨rfl, fun input => ?_⟩
        dsimp only
        split <;> simp

theorem reduce_input {state : AppState Value} {action : Action Value}
    (h : action.leavesInput = true) :
    InputKept state (reduce unicode ratatui state action) := by
  have happly : InputKept state (applyAction unicode ratatui state action) := by
    cases action with
    | ToggleHelp => exact ⟨rfl, by simp [applyAction]⟩
    | Quit =>
        have hcancel := cancelInteraction_input state
        refine ⟨hcancel.editor, fun input hmem => ?_⟩
        rcases List.mem_append.1 hmem with hmem | hmem
        · exact hcancel.unsubmitted input hmem
        · simp at hmem
    | SelectInteractionOption key => exact selectInteractionOption_input state key
    | CancelInteraction => exact cancelInteraction_input state
    | Resize viewport => exact resize_input state viewport
    | _ => cases h
  unfold reduce
  dsimp only
  constructor
  · unfold reclamp
    split <;> exact happly.editor
  · intro input hmem
    rcases reclamp_effects unicode ratatui state
      (applyAction unicode ratatui state action).2 (applyAction unicode ratatui state action).1
      with heffects | heffects
    · rw [heffects] at hmem
      exact happly.unsubmitted input hmem
    · rw [heffects] at hmem
      rcases List.mem_append.1 hmem with hmem | hmem
      · exact happly.unsubmitted input hmem
      · simp at hmem

/-! ## Every run -/

/-- What holds of the prompts in a state behind these actions. -/
structure Answered (unicode : Unicode Value) (ratatui : Ratatui) [DecidableEq (Action Value)]
    (start : AppState Value) (actions : List (Action Value)) (state : AppState Value) :
    Prop where
  once : ∀ id, resolvedIn id (Mealy.log (reduce unicode ratatui) start actions) +
    state.activeCount id = presentedIn unicode ratatui id start actions
  presentable : ∀ prompt, state.interaction = some prompt →
    prompt.presentableIn state.viewport = true
  shown : ∀ prompt, state.interaction = some prompt → ∀ supportsUnicode registry,
    Shown unicode supportsUnicode registry state prompt (transcriptViewport ratatui state)
      (interactionLines unicode supportsUnicode registry state
        (transcriptViewport ratatui state))
  pressed : ∀ action id optionId,
    .InteractionResolved id (.Selected optionId) ∈ (reduce unicode ratatui state action).1 →
    Pressed state action id optionId
  isolated : state.interaction.isSome = true → ∀ event action,
    ActionRegistry.default.actionForEvent event state = some action →
    InputKept state (reduce unicode ratatui state action)

/-- Behind any actions, every prompt is answered as often as it was presented, and what is
active can be read. -/
theorem interactions_answered [DecidableEq (Action Value)] (unicode : Unicode Value)
    (ratatui : Ratatui) (viewport : Viewport) (actions : List (Action Value)) :
    Answered unicode ratatui (.new viewport) actions
      (Mealy.after (reduce unicode ratatui) (.new viewport) actions) := by
  have hpresentable : (Mealy.after (reduce unicode ratatui) (.new viewport) actions).Presentable :=
    Mealy.after_induction (presentable_of_none rfl)
      (fun _ action hstate => reduce_presentable hstate action) actions
  exact {
    once := fun id => by
      rw [run_balance, activeCount_none rfl, Nat.zero_add]
    presentable := hpresentable
    shown := fun prompt hactive supportsUnicode registry =>
      interactionLines_shown hactive (hpresentable prompt hactive) supportsUnicode registry
    pressed := fun _ _ _ hselected => reduce_pressed hselected
    isolated := fun hactive _ _ haction => reduce_input (default_leavesInput hactive haction) }

end

end MCode.Tui.App
