import MCode.Lib.Mealy
import MCode.Tui.Actions

/-!
# The range of the scroll offset

The offset is cut in two places: when it grows, and when the region of the
transcript is another than before.  Blocks are only replaced together with the
offset, and it is never too large before it grows; so in every state the window
that a view shows begins at the offset itself, and a step back moves it.

A region without a column or a row shows nothing, and keeps whatever offset it
had; the first region that shows something again is another one.
-/

namespace MCode.Tui.App

open MCode.Lib MCode.Render

variable {Value : Type} (unicode : Unicode Value) (ratatui : Ratatui)

/-! ## Windows -/

/-- The lines of the transcript in its region, from the newest back. -/
def AppState.transcript (state : AppState Value) : List (MaterializedLine Value) :=
  newestFirst unicode state.scrollback.blocks (transcriptViewport ratatui state).width

/-- The region shows something. -/
def AppState.Usable (state : AppState Value) : Prop :=
  (transcriptViewport ratatui state).width ≠ 0 ∧ (transcriptViewport ratatui state).height ≠ 0

/-- What is drawn of the blocks. -/
def AppState.view (state : AppState Value) : MaterializedView Value :=
  materialize unicode state.scrollback.blocks
    (.fromViewport (transcriptViewport ratatui state) state.scrollback.offset)

/-- The visible lines with their places, counted from the newest line. -/
def AppState.window (state : AppState Value) : List (MaterializedLine Value × Nat) :=
  (((state.transcript unicode ratatui).zipIdx.drop (state.view unicode ratatui).offset).take
    (transcriptViewport ratatui state).height).reverse

/-- The largest offset with a full window. -/
def AppState.oldestOffset (state : AppState Value) : Nat :=
  (state.transcript unicode ratatui).length - (transcriptViewport ratatui state).height

/-- The action replaces the blocks or moves the window. -/
def Action.moves : Action Value → Bool
  | .ReplaceBlocks _ => true
  | .ScrollBy _ => true
  | _ => false

variable {unicode ratatui}

/-! ## The container -/

theorem replace_offset [DecidableEq (RenderBlock Value)] (scrollback : Scrollback Value)
    (blocks : List (RenderBlock Value)) : (scrollback.replace blocks).1.offset = 0 := by
  unfold Scrollback.replace
  dsimp only
  split
  · rfl
  · rename_i hsame
    exact Decidable.not_not.1 fun h => hsame (.inr h)

theorem scrollBy_blocks (scrollback : Scrollback Value) (olderLines : Int)
    (budget : MaterializeBudget) :
    (scrollback.scrollBy unicode olderLines budget).1.blocks = scrollback.blocks := by
  unfold Scrollback.scrollBy
  dsimp only
  repeat' split
  all_goals rfl

theorem replace_kept [DecidableEq (RenderBlock Value)] {scrollback : Scrollback Value}
    (h : scrollback.Kept) (blocks : List (RenderBlock Value)) :
    (scrollback.replace blocks).1.Kept := by
  unfold Scrollback.replace
  dsimp only
  split
  · refine ⟨h.1, ?_⟩
    dsimp only
    unfold boundNewest
    split
    · exact Nat.zero_le _
    · rw [List.length_drop]
      omega
  · exact h

theorem scrollBy_kept {scrollback : Scrollback Value} (h : scrollback.Kept) (olderLines : Int)
    (budget : MaterializeBudget) : (scrollback.scrollBy unicode olderLines budget).1.Kept := by
  unfold Scrollback.scrollBy
  dsimp only
  repeat' split
  all_goals exact h

theorem scrollBy_offset {budget : MaterializeBudget}
    (h : budget.width ≠ 0 ∧ budget.height ≠ 0) {scrollback : Scrollback Value}
    (hkept : scrollback.Kept) (olderLines : Int) :
    (scrollback.scrollBy unicode olderLines budget).1.offset =
      if 0 ≤ olderLines then
        min (scrollback.offset + olderLines.toNat)
          ((newestFirst unicode scrollback.blocks budget.width).length - budget.height)
      else scrollback.offset - olderLines.natAbs := by
  have hcount := hkept.count unicode budget.width
  have hopen : ¬ (budget.width = 0 ∨ budget.height = 0) := by
    rintro (hwidth | hheight)
    · exact h.1 hwidth
    · exact h.2 hheight
  unfold Scrollback.scrollBy
  rw [if_neg hopen]
  dsimp only
  by_cases hnewer : 0 ≤ olderLines
  · have hwindow := materialize_window unicode scrollback.blocks
      ⟨budget.width, budget.height, min (scrollback.offset + olderLines.toNat) USIZE_MAX⟩ h hcount
    have hcut : min (min (scrollback.offset + olderLines.toNat) USIZE_MAX)
        ((newestFirst unicode scrollback.blocks budget.width).length - budget.height) =
        min (scrollback.offset + olderLines.toNat)
          ((newestFirst unicode scrollback.blocks budget.width).length - budget.height) := by
      omega
    rw [if_pos hnewer, if_pos hnewer, if_pos hnewer, hwindow.1, hcut]
    split
    · rename_i hsame
      exact hsame.symm
    · rfl
  · rw [if_neg hnewer, if_neg hnewer, if_neg hnewer]
    split
    · rename_i hsame
      exact hsame.symm
    · rfl

/-- The offset is at most the one of the oldest full window in this region. -/
def Scrollback.InRegion (unicode : Unicode Value) (scrollback : Scrollback Value)
    (region : Viewport) : Prop :=
  region.width ≠ 0 ∧ region.height ≠ 0 →
    scrollback.offset ≤
      (newestFirst unicode scrollback.blocks region.width).length - region.height

theorem replace_inRegion [DecidableEq (RenderBlock Value)] (scrollback : Scrollback Value)
    (blocks : List (RenderBlock Value)) (region : Viewport) :
    (scrollback.replace blocks).1.InRegion unicode region := by
  intro _
  rw [replace_offset]
  exact Nat.zero_le _

/-- A step to older lines is cut; a step to newer lines keeps the range. -/
theorem scrollBy_inRegion {scrollback : Scrollback Value} (hkept : scrollback.Kept)
    {olderLines : Int} {region : Viewport}
    (h : 0 ≤ olderLines ∨ scrollback.InRegion unicode region) :
    (scrollback.scrollBy unicode olderLines (.fromViewport region 0)).1.InRegion unicode
      region := by
  intro husable
  rw [scrollBy_blocks, scrollBy_offset husable hkept]
  split
  · exact Nat.min_le_right ..
  · rename_i hnewer
    rcases h with hnonneg | hrange
    · exact absurd hnonneg hnewer
    · have hle := hrange husable
      omega

/-! ## One step -/

theorem presentInteraction_scrollback (next : AppState Value) (prompt : InteractionPrompt) :
    (presentInteraction next prompt).2.scrollback = next.scrollback := by
  unfold presentInteraction
  repeat' split
  all_goals rfl

theorem selectInteractionOption_scrollback (next : AppState Value) (key : Char) :
    (selectInteractionOption next key).2.scrollback = next.scrollback := by
  unfold selectInteractionOption
  repeat' split
  all_goals rfl

theorem cancelInteraction_scrollback (next : AppState Value) :
    (cancelInteraction next).2.scrollback = next.scrollback := by
  unfold cancelInteraction
  split <;> rfl

theorem resize_scrollback (next : AppState Value) (viewport : Viewport) :
    (resize next viewport).2.scrollback = next.scrollback := by
  unfold resize
  dsimp only
  repeat' split
  all_goals rfl

section

variable [DecidableEq (RenderBlock Value)]

/-- Most actions leave the transcript alone. -/
theorem applyAction_scrollback (state : AppState Value) {action : Action Value}
    (h : action.moves = false) :
    (applyAction unicode ratatui state action).2.scrollback = state.scrollback := by
  cases action with
  | ReplaceBlocks blocks => cases h
  | ScrollBy olderLines => cases h
  | PresentInteraction prompt => exact presentInteraction_scrollback state prompt
  | SelectInteractionOption key => exact selectInteractionOption_scrollback state key
  | CancelInteraction => exact cancelInteraction_scrollback state
  | Quit => exact cancelInteraction_scrollback state
  | Resize viewport => exact resize_scrollback state viewport
  | Insert character => rw [applyAction]; split <;> rfl
  | InsertNewline => rfl
  | Backspace => rfl
  | Paste text => rw [applyAction]; split <;> rfl
  | ReplaceInput input => rfl
  | Submit => rw [applyAction]; split <;> rfl
  | SetStatus status => rw [applyAction]; split <;> rfl
  | SelectTheme selection => rw [applyAction]; split <;> rfl
  | DetectBackground background => rw [applyAction, detectBackground]; split <;> rfl
  | ToggleHelp => rfl

/-- An action on the transcript keeps its region. -/
theorem applyAction_region (state : AppState Value) {action : Action Value}
    (h : action.moves = true) :
    transcriptViewport ratatui (applyAction unicode ratatui state action).2 =
      transcriptViewport ratatui state := by
  cases action with
  | ReplaceBlocks blocks => rfl
  | ScrollBy olderLines => rfl
  | _ => cases h

/-- In its own region the offset is in range. -/
def AppState.InRange (unicode : Unicode Value) (ratatui : Ratatui) (state : AppState Value) :
    Prop := state.scrollback.InRegion unicode (transcriptViewport ratatui state)

variable (unicode ratatui) in
theorem applyAction_kept {state : AppState Value} (h : state.scrollback.Kept)
    (action : Action Value) :
    (applyAction unicode ratatui state action).2.scrollback.Kept := by
  cases hmoves : action.moves with
  | false =>
      rw [applyAction_scrollback state hmoves]
      exact h
  | true =>
      cases action with
      | ReplaceBlocks blocks => exact replace_kept h blocks
      | ScrollBy olderLines => exact scrollBy_kept h olderLines _
      | _ => cases hmoves

theorem applyAction_inRange {state : AppState Value} (hkept : state.scrollback.Kept)
    (h : state.InRange unicode ratatui) (action : Action Value) :
    (applyAction unicode ratatui state action).2.scrollback.InRegion unicode
      (transcriptViewport ratatui state) := by
  cases hmoves : action.moves with
  | false =>
      rw [applyAction_scrollback state hmoves]
      exact h
  | true =>
      cases action with
      | ReplaceBlocks blocks => exact replace_inRegion state.scrollback blocks _
      | ScrollBy olderLines => exact scrollBy_inRegion hkept (.inr h)
      | _ => cases hmoves

omit [DecidableEq (RenderBlock Value)] in
/-- Where the region changes, the offset is cut to it. -/
theorem reclamp_inRange {state next : AppState Value} (hkept : next.scrollback.Kept)
    (h : next.scrollback.InRegion unicode (transcriptViewport ratatui state))
    (effects : List Effect) :
    (reclamp unicode ratatui state next effects).2.InRange unicode ratatui := by
  unfold reclamp
  split
  · exact scrollBy_inRegion hkept (.inl (Int.le_refl 0))
  · rename_i hsame
    unfold AppState.InRange
    rw [Decidable.not_not.1 hsame]
    exact h

theorem reduce_kept {state : AppState Value} (h : state.scrollback.Kept) (action : Action Value) :
    (reduce unicode ratatui state action).2.scrollback.Kept := by
  have happly := applyAction_kept unicode ratatui h action
  unfold reduce reclamp
  dsimp only
  split
  · exact scrollBy_kept happly ..
  · exact happly

theorem reduce_inRange {state : AppState Value} (hkept : state.scrollback.Kept)
    (h : state.InRange unicode ratatui) (action : Action Value) :
    (reduce unicode ratatui state action).2.InRange unicode ratatui :=
  reclamp_inRange (applyAction_kept unicode ratatui hkept action)
    (applyAction_inRange hkept h action) _

variable (unicode ratatui) in
/-- The state behind any actions. -/
theorem after_inRange (viewport : Viewport) (actions : List (Action Value)) :
    (Mealy.after (reduce unicode ratatui) (.new viewport) actions).scrollback.Kept ∧
      (Mealy.after (reduce unicode ratatui) (.new viewport) actions).InRange unicode ratatui := by
  have hstep (state : AppState Value) (action : Action Value)
      (h : state.scrollback.Kept ∧ state.InRange unicode ratatui) :
      (reduce unicode ratatui state action).2.scrollback.Kept ∧
        (reduce unicode ratatui state action).2.InRange unicode ratatui :=
    ⟨reduce_kept h.1 action, reduce_inRange h.1 h.2 action⟩
  exact Mealy.after_induction
    (I := fun (state : AppState Value) => state.scrollback.Kept ∧ state.InRange unicode ratatui)
    ⟨⟨rfl, Nat.zero_le _⟩, fun _ => Nat.zero_le _⟩ hstep actions

/-! ## Windows that stay and windows that move -/

theorem reduce_same {state : AppState Value} {action : Action Value}
    (hregion : transcriptViewport ratatui (applyAction unicode ratatui state action).2 =
      transcriptViewport ratatui state) :
    (reduce unicode ratatui state action).2 = (applyAction unicode ratatui state action).2 := by
  unfold reduce reclamp
  dsimp only
  rw [if_neg (fun h => h hregion)]

omit [DecidableEq (RenderBlock Value)] in
/-- A window only depends on the region, the blocks and the offset. -/
theorem AppState.window_congr {state next : AppState Value}
    (hregion : transcriptViewport ratatui next = transcriptViewport ratatui state)
    (hblocks : next.scrollback.blocks = state.scrollback.blocks)
    (hoffset : next.scrollback.offset = state.scrollback.offset) :
    next.window unicode ratatui = state.window unicode ratatui := by
  unfold AppState.window AppState.transcript AppState.view
  rw [hregion, hblocks, hoffset]

omit [DecidableEq (RenderBlock Value)] in
/-- In range, a window begins at the offset. -/
theorem AppState.InRange.view_offset {state : AppState Value} (h : state.InRange unicode ratatui)
    (hkept : state.scrollback.Kept) (husable : state.Usable ratatui) :
    (state.view unicode ratatui).offset = state.scrollback.offset := by
  have hwindow := (materialize_window unicode state.scrollback.blocks
    (.fromViewport (transcriptViewport ratatui state) state.scrollback.offset) husable
    (hkept.count unicode _)).1
  have hrange := h husable
  unfold AppState.view
  rw [hwindow]
  exact Nat.min_eq_left hrange

/-- The window at a positive offset that is in range is not the one at another offset. -/
theorem windows_ne {α : Type} {lines : List α} {height first second : Nat} (hheight : height ≠ 0)
    (hfirst : 0 < first) (hrange : first ≤ lines.length - height) (hne : second ≠ first) :
    ((lines.zipIdx.drop second).take height).reverse ≠
      ((lines.zipIdx.drop first).take height).reverse := by
  intro hsame
  have hhead := congrArg (fun window => window[0]?.map Prod.snd) (List.reverse_injective hsame)
  have hplace (offset : Nat) : (((lines.zipIdx.drop offset).take height)[0]?).map Prod.snd =
      if offset < lines.length then some offset else none := by
    rw [List.getElem?_take_of_lt (Nat.pos_of_ne_zero hheight), List.getElem?_drop,
      List.getElem?_zipIdx]
    simp only [Nat.add_zero, Nat.zero_add]
    split
    · rename_i hlt
      rw [List.getElem?_eq_getElem hlt]
      rfl
    · rename_i hge
      rw [List.getElem?_eq_none (Nat.le_of_not_lt hge)]
      rfl
  have hlt : first < lines.length := by omega
  rw [hplace, hplace, if_pos hlt] at hhead
  split at hhead
  · exact hne (Option.some.inj hhead)
  · cases hhead

/-- What holds of the scroll position in one state. -/
structure ScrollOk (unicode : Unicode Value) (ratatui : Ratatui) (state : AppState Value) :
    Prop where
  in_range : state.Usable ratatui →
    state.scrollback.offset ≤ state.oldestOffset unicode ratatui
  newer_moves : state.Usable ratatui → 0 < state.scrollback.offset → ∀ newer : Nat, 0 < newer →
    (reduce unicode ratatui state (.ScrollBy (-newer))).2.window unicode ratatui ≠
      state.window unicode ratatui
  others_stay : ∀ action,
    transcriptViewport ratatui (reduce unicode ratatui state action).2 =
      transcriptViewport ratatui state →
    (reduce unicode ratatui state action).2.scrollback.blocks = state.scrollback.blocks →
    (action.moves = false ∨
      (reduce unicode ratatui state action).2.scrollback.offset = state.scrollback.offset) →
    (reduce unicode ratatui state action).2.window unicode ratatui = state.window unicode ratatui

theorem reduce_region (state : AppState Value) (action : Action Value) :
    transcriptViewport ratatui (reduce unicode ratatui state action).2 =
      transcriptViewport ratatui (applyAction unicode ratatui state action).2 := by
  unfold reduce reclamp
  dsimp only
  split <;> rfl

theorem newer_moves {state : AppState Value} (hkept : state.scrollback.Kept)
    (h : state.InRange unicode ratatui) (husable : state.Usable ratatui) (hoffset : 0 < state.scrollback.offset) {newer : Nat}
    (hnewer : 0 < newer) :
    (reduce unicode ratatui state (.ScrollBy (-newer))).2.window unicode ratatui ≠
      state.window unicode ratatui := by
  have hregion : transcriptViewport ratatui
      (applyAction unicode ratatui state (.ScrollBy (-newer))).2 =
      transcriptViewport ratatui state := applyAction_region state rfl
  have hnext := reduce_inRange hkept h (.ScrollBy (-newer))
  have hnextKept := applyAction_kept unicode ratatui hkept
    (.ScrollBy (-newer))
  rw [reduce_same hregion] at hnext ⊢
  have hscrollback : (applyAction unicode ratatui state (.ScrollBy (-newer))).2.scrollback =
      (state.scrollback.scrollBy unicode (-newer)
        (.fromViewport (transcriptViewport ratatui state) 0)).1 := rfl
  have hblocks : (applyAction unicode ratatui state (.ScrollBy (-newer))).2.scrollback.blocks =
      state.scrollback.blocks := by rw [hscrollback, scrollBy_blocks]
  have hmoved : (applyAction unicode ratatui state (.ScrollBy (-newer))).2.scrollback.offset =
      state.scrollback.offset - newer := by
    have hbudget : (MaterializeBudget.fromViewport (transcriptViewport ratatui state) 0).width ≠ 0 ∧
        (MaterializeBudget.fromViewport (transcriptViewport ratatui state) 0).height ≠ 0 := husable
    rw [hscrollback, scrollBy_offset hbudget hkept, if_neg (by omega), Int.natAbs_neg,
      Int.natAbs_natCast]
  have hnextUsable : (applyAction unicode ratatui state (.ScrollBy (-newer))).2.Usable ratatui := by
    unfold AppState.Usable
    rw [hregion]
    exact husable
  unfold AppState.window
  rw [hnext.view_offset hnextKept hnextUsable, h.view_offset hkept husable, hmoved]
  unfold AppState.transcript
  rw [hregion, hblocks]
  exact windows_ne husable.2 hoffset (h husable) (by omega)

theorem others_stay {state : AppState Value} {action : Action Value}
    (hregion : transcriptViewport ratatui (reduce unicode ratatui state action).2 =
      transcriptViewport ratatui state)
    (hblocks : (reduce unicode ratatui state action).2.scrollback.blocks = state.scrollback.blocks)
    (hoffset : action.moves = false ∨
      (reduce unicode ratatui state action).2.scrollback.offset = state.scrollback.offset) :
    (reduce unicode ratatui state action).2.window unicode ratatui =
      state.window unicode ratatui := by
  apply AppState.window_congr hregion hblocks
  rcases hoffset with hmoves | hsame
  · rw [reduce_region] at hregion
    rw [reduce_same hregion, applyAction_scrollback state hmoves]
  · exact hsame

/-- In every state behind any actions the scroll position is inside the transcript. -/
theorem scroll_position_ok (unicode : Unicode Value) (ratatui : Ratatui) (viewport : Viewport)
    (actions : List (Action Value)) :
    ScrollOk unicode ratatui
      (Mealy.after (reduce unicode ratatui) (.new viewport) actions) := by
  obtain ⟨hkept, hrange⟩ := after_inRange unicode ratatui viewport actions
  exact {
    in_range := hrange
    newer_moves := fun husable hoffset _ hnewer =>
      newer_moves hkept hrange husable hoffset hnewer
    others_stay := fun _ hregion hblocks hoffset => others_stay hregion hblocks hoffset }

end

end MCode.Tui.App
