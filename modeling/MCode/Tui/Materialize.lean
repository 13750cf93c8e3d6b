import MCode.Render.Marker
import MCode.Tui.Scrollback

/-!
# A view is a window of the full rendering

The walk of `materialize` begins at the newest block and stops as soon as it has
enough lines.  What it shows is nevertheless cut out of the rendering of all
blocks, the oldest first.

The lines of that rendering are counted by the source's integers; more of them
do not fit in memory.
-/

namespace MCode.Tui.App

open MCode.Lib.Paths MCode.Render MCode.Tools

variable {Value : Type} (unicode : Unicode Value)

/-- The lines of a block, at least one. -/
def plainLines (width : Nat) (block : RenderBlock Value) : List (List Char) :=
  if lines (block.toPlainText unicode width) = [] then [[]]
  else lines (block.toPlainText unicode width)

/-- The lines of all blocks, the oldest first, with an empty line between two blocks. -/
def fullLines (width : Nat) (blocks : List (RenderBlock Value)) : List (List Char) :=
  [[]].intercalate (blocks.map (plainLines unicode width))

/-- A block is never wider than the widest line. -/
theorem toPlainText_width (block : RenderBlock Value) (width : Nat) :
    block.toPlainText unicode (min width MAX_PLAIN_WIDTH) = block.toPlainText unicode width := by
  have hnew : PlainWriter.new (min width MAX_PLAIN_WIDTH) = PlainWriter.new width := by
    unfold PlainWriter.new
    rw [Nat.min_assoc, Nat.min_self]
  unfold RenderBlock.toPlainText
  rw [hnew]

theorem blockLines_text (width : Nat) (block : RenderBlock Value) :
    (blockLines unicode (min width MAX_PLAIN_WIDTH) block).map MaterializedLine.text =
      plainLines unicode width block := by
  unfold blockLines plainLines
  dsimp only
  rw [toPlainText_width, List.map_map]
  exact List.map_id _

theorem newestLines_text (width : Nat) (blocks : List (RenderBlock Value)) :
    (newestLines unicode (min width MAX_PLAIN_WIDTH) blocks).map MaterializedLine.text =
      (fullLines unicode width blocks.reverse).reverse := by
  induction blocks with
  | nil => rfl
  | cons block older ih =>
      have hblock : ((blockLines unicode (min width MAX_PLAIN_WIDTH) block).reverse).map
          MaterializedLine.text = (plainLines unicode width block).reverse := by
        rw [List.map_reverse, blockLines_text]
      rw [newestLines, List.map_append, List.map_append, ih, hblock, List.reverse_cons]
      unfold fullLines
      by_cases holder : older = []
      · subst holder
        simp
      · have hblocks : older.reverse.map (plainLines unicode width) ≠ [] := by simpa using holder
        rw [if_pos holder, List.map_append, List.map_singleton, List.map_singleton,
          intercalate_append hblocks (List.cons_ne_nil _ _)]
        simp

theorem newestFirst_text (blocks : List (RenderBlock Value)) (width : Nat) :
    (newestFirst unicode blocks width).map MaterializedLine.text =
      (fullLines unicode width blocks).reverse := by
  unfold newestFirst
  rw [newestLines_text, List.reverse_reverse]

/-- The lines of a transcript that is kept can be counted. -/
theorem Scrollback.Kept.fullLines_count {scrollback : Scrollback Value} (h : scrollback.Kept)
    (width : Nat) : (fullLines unicode width scrollback.blocks).length ≤ USIZE_MAX := by
  have hlength := congrArg List.length (newestFirst_text unicode scrollback.blocks width)
  rw [List.length_map, List.length_reverse] at hlength
  rw [← hlength]
  exact h.count unicode width

/-- A view shows the last lines of the full rendering before the offset, which is cut to the
oldest full window. -/
theorem materialize_full (blocks : List (RenderBlock Value)) (budget : MaterializeBudget)
    (hwidth : 1 ≤ budget.width) (hheight : 1 ≤ budget.height)
    (hcount : (fullLines unicode budget.width blocks).length ≤ USIZE_MAX) :
    (materialize unicode blocks budget).offset =
      min budget.offset ((fullLines unicode budget.width blocks).length - budget.height) ∧
    (materialize unicode blocks budget).lines.map MaterializedLine.text =
      ((fullLines unicode budget.width blocks).rdrop
        (min budget.offset
          ((fullLines unicode budget.width blocks).length - budget.height))).rtake
        budget.height := by
  have htext := newestFirst_text unicode blocks budget.width
  have hlength := congrArg List.length htext
  rw [List.length_map, List.length_reverse] at hlength
  obtain ⟨hoffset, hlines⟩ := materialize_window unicode blocks budget ⟨by omega, by omega⟩
    (by rw [hlength]; exact hcount)
  rw [hlength] at hoffset
  refine ⟨hoffset, ?_⟩
  calc (materialize unicode blocks budget).lines.map MaterializedLine.text
      = ((((newestFirst unicode blocks budget.width).map MaterializedLine.text).drop
          (materialize unicode blocks budget).offset).take budget.height).reverse := by
        rw [hlines, List.map_reverse, List.map_take, List.map_drop]
    _ = ((((fullLines unicode budget.width blocks).reverse).drop
          (materialize unicode blocks budget).offset).take budget.height).reverse := by
        rw [htext]
    _ = ((fullLines unicode budget.width blocks).rdrop
          (materialize unicode blocks budget).offset).rtake budget.height := by
        rw [List.rtake_eq_reverse_take_reverse, List.rdrop_eq_reverse_drop_reverse,
          List.reverse_reverse]
    _ = _ := by rw [hoffset]

/-- An offset past the oldest window of two blocks. -/
theorem materialize_full_two :
    (materialize monospace [.Text "a".toList, .Markdown "b".toList] ⟨5, 2, USIZE_MAX⟩).offset =
      min USIZE_MAX ((fullLines monospace 5 [.Text "a".toList, .Markdown "b".toList]).length - 2) ∧
    (materialize monospace [.Text "a".toList, .Markdown "b".toList] ⟨5, 2, USIZE_MAX⟩).lines.map
        MaterializedLine.text =
      ((fullLines monospace 5 [.Text "a".toList, .Markdown "b".toList]).rdrop
        (min USIZE_MAX
          ((fullLines monospace 5 [.Text "a".toList, .Markdown "b".toList]).length - 2))).rtake 2 :=
  materialize_full monospace _ ⟨5, 2, USIZE_MAX⟩ (by decide) (by decide)
    (Scrollback.Kept.fullLines_count monospace
      (show Scrollback.Kept ⟨_, DEFAULT_SCROLLBACK_BLOCKS, 0⟩ from ⟨rfl, by decide⟩) 5)

end MCode.Tui.App
