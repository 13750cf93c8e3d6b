import MCode.Render.Bounded
import MCode.Tui.Interaction

/-!
# Scrollback

`mcode-tui/src/scrollback.rs`: the blocks of the transcript, of which the newest
stay, and the lines that one view of them takes from the newest end.

The lines of the whole transcript from the newest back, `newestFirst`, have a
blank line between two blocks.  A view is a window of them: `materialize` stops
as soon as it has as many lines as it needs, and an offset past the oldest full
window is cut.  Sums saturate at the limit of the source's integers, which the
lines of a transcript never reach: a block has at most 4,096 of them.
-/

namespace MCode.Tui.App

open MCode.Render MCode.Tools

def DEFAULT_SCROLLBACK_BLOCKS : Nat := 1024

/-- `usize::MAX`. -/
def USIZE_MAX : Nat := 18446744073709551615

structure MaterializeBudget where
  width : Nat
  height : Nat
  offset : Nat

def MaterializeBudget.fromViewport (viewport : Viewport) (offset : Nat) : MaterializeBudget :=
  ⟨viewport.width, viewport.height, offset⟩

section

variable {Value : Type} (unicode : Unicode Value)

structure MaterializedLine (Value : Type) where
  text : List Char
  block : RenderBlock Value

structure MaterializedView (Value : Type) where
  lines : List (MaterializedLine Value)
  blocksExamined : Nat
  offset : Nat

/-- The lines of one block; a block without text has an empty line. -/
def blockLines (width : Nat) (block : RenderBlock Value) : List (MaterializedLine Value) :=
  let plain := lines (block.toPlainText unicode width)
  (if plain = [] then [[]] else plain).map fun text => ⟨text, block⟩

/-- The loop over the lines of one block. -/
def pushUntil (want : Nat) :
    List (MaterializedLine Value) → List (MaterializedLine Value) → List (MaterializedLine Value)
  | [], newestFirst => newestFirst
  | line :: rest, newestFirst =>
      if want ≤ (newestFirst ++ [line]).length then newestFirst ++ [line]
      else pushUntil want rest (newestFirst ++ [line])

/-- The loop over the blocks, the newest first: the lines and the number of blocks. -/
def collectLines (width want : Nat) :
    List (RenderBlock Value) → List (MaterializedLine Value) → Nat →
      List (MaterializedLine Value) × Nat
  | [], newestFirst, examined => (newestFirst, examined)
  | block :: older, newestFirst, examined =>
      if want ≤ newestFirst.length then (newestFirst, examined)
      else
        let newestFirst := pushUntil want (blockLines unicode width block).reverse newestFirst
        collectLines width want older
          (if older ≠ [] ∧ newestFirst.length < want then newestFirst ++ [⟨[], block⟩]
          else newestFirst)
          (examined + 1)

def materialize (blocks : List (RenderBlock Value)) (budget : MaterializeBudget) :
    MaterializedView Value :=
  if budget.width = 0 ∨ budget.height = 0 then ⟨[], 0, 0⟩
  else
    let want := min (budget.offset + budget.height) USIZE_MAX
    let (newestFirst, examined) :=
      collectLines unicode (min budget.width MAX_PLAIN_WIDTH) want blocks.reverse [] 0
    let offset := min budget.offset (newestFirst.length - budget.height)
    ⟨((newestFirst.drop offset).take budget.height).reverse, examined, offset⟩

/-! ## The container -/

structure Scrollback (Value : Type) where
  blocks : List (RenderBlock Value)
  capacity : Nat
  offset : Nat

def Scrollback.new (capacity : Nat) : Scrollback Value := ⟨[], capacity, 0⟩

def boundNewest (blocks : List (RenderBlock Value)) (capacity : Nat) :
    List (RenderBlock Value) :=
  if capacity = 0 then [] else blocks.drop (blocks.length - capacity)

/-- The container and whether it changed. -/
def Scrollback.replace [DecidableEq (RenderBlock Value)] (self : Scrollback Value)
    (blocks : List (RenderBlock Value)) : Scrollback Value × Bool :=
  let blocks := boundNewest blocks self.capacity
  if self.blocks ≠ blocks ∨ self.offset ≠ 0 then
    ({ self with blocks := blocks, offset := 0 }, true)
  else (self, false)

def Scrollback.scrollBy (self : Scrollback Value) (olderLines : Int)
    (budget : MaterializeBudget) : Scrollback Value × Bool :=
  if budget.width = 0 ∨ budget.height = 0 then (self, false)
  else
    let candidate :=
      if 0 ≤ olderLines then min (self.offset + olderLines.toNat) USIZE_MAX
      else self.offset - olderLines.natAbs
    let next :=
      if 0 ≤ olderLines then
        (materialize unicode self.blocks ⟨budget.width, budget.height, candidate⟩).offset
      else candidate
    if next = self.offset then (self, false) else ({ self with offset := next }, true)

end

/-! ## Windows of the transcript -/

section

variable {Value : Type} {unicode : Unicode Value}

/-- The lines of all blocks, from the newest back, the newest block first. -/
def newestLines (unicode : Unicode Value) (width : Nat) :
    List (RenderBlock Value) → List (MaterializedLine Value)
  | [] => []
  | block :: older =>
      (blockLines unicode width block).reverse ++ (if older ≠ [] then [⟨[], block⟩] else []) ++
        newestLines unicode width older

/-- The lines of the transcript at this width, from the newest back. -/
def newestFirst (unicode : Unicode Value) (blocks : List (RenderBlock Value)) (width : Nat) :
    List (MaterializedLine Value) :=
  newestLines unicode (min width MAX_PLAIN_WIDTH) blocks.reverse

theorem pushUntil_eq {want : Nat} {rest acc : List (MaterializedLine Value)}
    (h : acc.length < want) : pushUntil want rest acc = (acc ++ rest).take want := by
  induction rest generalizing acc with
  | nil =>
      rw [List.append_nil, List.take_of_length_le (Nat.le_of_lt h)]
      rfl
  | cons line rest ih =>
      have hlength : (acc ++ [line]).length = acc.length + 1 := by simp
      have hcons : acc ++ line :: rest = acc ++ [line] ++ rest := List.append_cons ..
      rw [pushUntil, hcons]
      split
      · rename_i hfull
        exact (List.take_left' (by omega)).symm
      · rename_i hroom
        exact ih (by omega)

/-- The loop takes the newest lines, as many as it wants. -/
theorem collectLines_eq (width want : Nat) {blocks : List (RenderBlock Value)}
    {acc : List (MaterializedLine Value)} (h : acc.length ≤ want) (examined : Nat) :
    (collectLines unicode width want blocks acc examined).1 =
      (acc ++ newestLines unicode width blocks).take want := by
  induction blocks generalizing acc examined with
  | nil =>
      rw [newestLines, List.append_nil, List.take_of_length_le h]
      rfl
  | cons block older ih =>
      rw [collectLines]
      split
      · rename_i hfull
        have hwant : want = acc.length := by omega
        rw [hwant, List.take_left]
      · rename_i hroom
        have hpushed : pushUntil want (blockLines unicode width block).reverse acc =
            (acc ++ (blockLines unicode width block).reverse).take want :=
          pushUntil_eq (Nat.lt_of_not_le hroom)
        dsimp only
        rw [newestLines, List.append_assoc, ← List.append_assoc acc]
        by_cases hshort : (acc ++ (blockLines unicode width block).reverse).length < want
        · rw [hpushed, List.take_of_length_le (Nat.le_of_lt hshort)]
          by_cases holder : older = []
          · subst holder
            rw [if_neg (by simp), if_neg (by simp), ih (Nat.le_of_lt hshort)]
            rfl
          · rw [if_pos ⟨holder, hshort⟩, if_pos holder, ih (by rw [List.length_append]; exact hshort)]
            simp only [List.append_assoc]
        · have hlength : (pushUntil want (blockLines unicode width block).reverse acc).length =
              want := by
            rw [hpushed, List.length_take]
            omega
          rw [if_neg (fun hmore => by omega), ih (Nat.le_of_eq hlength), List.take_left' hlength,
            hpushed]
          exact (List.take_append_of_le_length (Nat.le_of_not_lt hshort)).symm

variable (unicode) in
/-- A view is a window of a transcript whose lines can be counted, at the offset that it
applies. -/
theorem materialize_window (blocks : List (RenderBlock Value)) (budget : MaterializeBudget)
    (h : budget.width ≠ 0 ∧ budget.height ≠ 0)
    (hcount : (newestFirst unicode blocks budget.width).length ≤ USIZE_MAX) :
    (materialize unicode blocks budget).offset =
      min budget.offset ((newestFirst unicode blocks budget.width).length - budget.height) ∧
    (materialize unicode blocks budget).lines =
      (((newestFirst unicode blocks budget.width).drop
        (materialize unicode blocks budget).offset).take budget.height).reverse := by
  have hcollect : (collectLines unicode (min budget.width MAX_PLAIN_WIDTH)
      (min (budget.offset + budget.height) USIZE_MAX) blocks.reverse [] 0).1 =
      ([] ++ newestFirst unicode blocks budget.width).take
        (min (budget.offset + budget.height) USIZE_MAX) := collectLines_eq _ _ (Nat.zero_le _) 0
  have htake : (newestFirst unicode blocks budget.width).take
      (min (budget.offset + budget.height) USIZE_MAX) =
      (newestFirst unicode blocks budget.width).take (budget.offset + budget.height) := by
    rw [← List.take_take, List.take_of_length_le hcount]
  rw [List.nil_append, htake] at hcollect
  have hopen : ¬ (budget.width = 0 ∨ budget.height = 0) := by
    rintro (hwidth | hheight)
    · exact h.1 hwidth
    · exact h.2 hheight
  unfold materialize
  rw [if_neg hopen]
  dsimp only
  rw [hcollect, List.length_take]
  constructor
  · omega
  · rw [List.drop_take, List.take_take]
    congr 2
    omega

/-! ## Lines that can be counted -/

theorem linesBehind_length (reversed text : List Char) :
    (linesBehind reversed text).length ≤ (text.splitOn '\n').length := by
  induction text generalizing reversed with
  | nil => cases reversed <;> simp [linesBehind]
  | cons c rest ih =>
      by_cases hfeed : c = '\n'
      · subst hfeed
        have hrest := ih []
        rw [List.splitOn_cons_eq_if_modifyHead, if_pos (beq_self_eq_true _)]
        cases reversed <;> simpa [linesBehind] using hrest
      · have hrest := ih (c :: reversed)
        have hbehind : linesBehind reversed (c :: rest) = linesBehind (c :: reversed) rest := by
          cases reversed <;> simp [linesBehind]
        rw [hbehind, List.splitOn_cons_eq_if_modifyHead, if_neg (by simpa using hfeed),
          List.length_modifyHead]
        exact hrest

variable (unicode) in
theorem blockLines_length (width : Nat) (block : RenderBlock Value) :
    (blockLines unicode width block).length ≤ MAX_PLAIN_LINES := by
  have hplain : (lines (block.toPlainText unicode width)).length ≤ MAX_PLAIN_LINES :=
    Nat.le_trans (linesBehind_length [] _) (toPlainText_lines unicode block width).1
  unfold blockLines
  dsimp only
  rw [List.length_map]
  split
  · exact Nat.le_of_ble_eq_true rfl
  · exact hplain

variable (unicode) in
/-- A transcript has at most 4,097 lines for each of its blocks. -/
theorem newestLines_length (width : Nat) (blocks : List (RenderBlock Value)) :
    (newestLines unicode width blocks).length ≤ (MAX_PLAIN_LINES + 1) * blocks.length := by
  induction blocks with
  | nil => exact Nat.zero_le _
  | cons block older ih =>
      have hblock := blockLines_length unicode width block
      have hgap : (if older ≠ [] then [(⟨[], block⟩ : MaterializedLine Value)] else []).length ≤ 1 := by
        split <;> simp
      rw [newestLines, List.length_append, List.length_append, List.length_reverse,
        List.length_cons, Nat.mul_succ]
      omega

/-- The blocks that a container keeps have lines that can be counted. -/
def Scrollback.Kept (scrollback : Scrollback Value) : Prop :=
  scrollback.capacity = DEFAULT_SCROLLBACK_BLOCKS ∧
    scrollback.blocks.length ≤ scrollback.capacity

theorem Scrollback.Kept.count {scrollback : Scrollback Value} (h : scrollback.Kept)
    (unicode : Unicode Value) (width : Nat) :
    (newestFirst unicode scrollback.blocks width).length ≤ USIZE_MAX := by
  have hlines := newestLines_length unicode (min width MAX_PLAIN_WIDTH)
    scrollback.blocks.reverse
  obtain ⟨hcapacity, hblocks⟩ := h
  rw [hcapacity] at hblocks
  rw [List.length_reverse] at hlines
  unfold newestFirst
  unfold MAX_PLAIN_LINES at hlines
  unfold DEFAULT_SCROLLBACK_BLOCKS at hblocks
  unfold USIZE_MAX
  omega

end

end MCode.Tui.App
