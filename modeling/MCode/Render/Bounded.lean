import MCode.Lib.Paths
import MCode.Render.Plain

/-!
# Plain text is safe and bounded

The truncation of a line is measured with the display width of what it returns,
so its bound needs no law of widths: the loop ends with a line that fits or with
the ellipsis alone.  The removal of terminal sequences leaves no control
character but the line feeds, on which the writer splits.

Every kind of block writes through two functions only, and these keep the bound
on the number of lines and the two facts about each line.
-/

namespace MCode.Render

open MCode.Lib.Paths

variable {Value : Type} {unicode : Unicode Value}

/-! ## One line -/

theorem collectGraphemes_mem {contentWidth used : Nat} {graphemes : List (List Char)}
    {rendered : List Char} {graphemeEnds : List Nat} {c : Char}
    (h : c ∈ (collectGraphemes unicode contentWidth graphemes rendered graphemeEnds used).1) :
    c ∈ rendered ∨ c ∈ graphemes.flatten := by
  induction graphemes generalizing rendered graphemeEnds used with
  | nil => exact .inl h
  | cons grapheme rest ih =>
      rw [List.flatten_cons, List.mem_append]
      rw [collectGraphemes] at h
      split at h
      · exact .inl h
      · rcases ih h with hmem | hmem
        · rcases List.mem_append.1 hmem with hmem | hmem
          · exact .inl hmem
          · exact .inr (.inl hmem)
        · exact .inr (.inr hmem)

/-- What is taken back leaves a front of the graphemes and the ellipsis. -/
theorem backOff_mem {width : Nat} {graphemeEnds : List Nat} {rendered : List Char} {c : Char}
    (h : c ∈ backOff unicode width graphemeEnds rendered) : c ∈ rendered ∨ c ∈ ELLIPSIS := by
  induction graphemeEnds generalizing rendered with
  | nil =>
      rw [backOff] at h
      split at h
      · exact .inr h
      · exact .inl h
  | cons graphemeEnd graphemeEnds ih =>
      rw [backOff] at h
      split at h
      · rcases ih h with hmem | hmem
        · rcases List.mem_append.1 hmem with hmem | hmem
          · exact .inl (List.mem_of_mem_take (List.mem_of_mem_take hmem))
          · exact .inr hmem
        · exact .inr hmem
      · exact .inl h

theorem displayWidth_ellipsis : unicode.displayWidth ELLIPSIS = 1 := unicode.ellipsis

theorem backOff_le {width : Nat} (hwidth : 0 < width) (graphemeEnds : List Nat)
    (rendered : List Char) :
    unicode.displayWidth (backOff unicode width graphemeEnds rendered) ≤ width := by
  induction graphemeEnds generalizing rendered with
  | nil =>
      rw [backOff]
      split
      · rw [displayWidth_ellipsis]
        exact hwidth
      · omega
  | cons graphemeEnd graphemeEnds ih =>
      rw [backOff]
      split
      · exact ih _
      · omega

/-- A truncated line fits in its columns, whatever the widths of texts are. -/
theorem truncateDisplayWidth_le (text : List Char) (width : Nat) :
    unicode.displayWidth (truncateDisplayWidth unicode text width) ≤
      min width MAX_PLAIN_WIDTH := by
  unfold truncateDisplayWidth
  dsimp only
  split
  · rw [unicode.empty]
    exact Nat.zero_le _
  · rename_i hwidth
    split
    · rename_i hfits
      exact hfits.2
    · split
      · rw [unicode.empty]
        exact Nat.zero_le _
      · exact backOff_le (Nat.pos_of_ne_zero hwidth) ..

theorem truncateDisplayWidth_mem {text : List Char} {width : Nat} {c : Char}
    (h : c ∈ truncateDisplayWidth unicode text width) : c ∈ text ∨ c ∈ ELLIPSIS := by
  unfold truncateDisplayWidth at h
  dsimp only at h
  split at h
  · exact absurd h List.not_mem_nil
  · split at h
    · exact .inl h
    · split at h
      · exact absurd h List.not_mem_nil
      · rcases backOff_mem h with hmem | hmem
        · rcases List.mem_append.1 hmem with hmem | hmem
          · rcases collectGraphemes_mem hmem with hmem | hmem
            · exact absurd hmem List.not_mem_nil
            · rw [unicode.segments] at hmem
              exact .inl (List.mem_of_mem_take hmem)
          · exact .inr hmem
        · exact .inr hmem

/-! ## Terminal sequences -/

theorem next_clean {state : State} {character c : Char} {peek : Option Char}
    (h : c ∈ (state.next character peek).2) : c = '\n' ∨ ¬ isControl c := by
  have hspace : ¬ isControl ' ' := by decide
  cases state with
  | Text =>
      simp only [State.next] at h
      split_ifs at h <;> simp_all
  | Escape =>
      simp only [State.next] at h
      split_ifs at h <;> simp at h
  | Csi => exact absurd h List.not_mem_nil
  | String =>
      simp only [State.next] at h
      split_ifs at h <;> simp at h
  | StringEscape => exact absurd h List.not_mem_nil

theorem sanitizeFrom_clean {state : State} {text : List Char} {c : Char}
    (h : c ∈ sanitizeFrom state text) : c = '\n' ∨ ¬ isControl c := by
  induction text generalizing state with
  | nil => exact absurd h List.not_mem_nil
  | cons character rest ih =>
      rcases List.mem_append.1 h with hmem | hmem
      · exact next_clean hmem
      · exact ih hmem

/-- The lines of a text without terminal sequences have no control character. -/
theorem splitOn_clean {text line : List Char} {c : Char}
    (hline : line ∈ (sanitizeTerminalText text).splitOn '\n') (h : c ∈ line) : ¬ isControl c := by
  have hmem : c ∈ sanitizeTerminalText text := mem_of_mem_splitOn hline h
  rcases sanitizeFrom_clean hmem with hfeed | hclean
  · rw [hfeed] at h
    exact absurd h (not_mem_of_mem_splitOn hline)
  · exact hclean

/-! ## The writer -/

/-- The line fits in the columns and has no control character. -/
structure Safe (unicode : Unicode Value) (width : Nat) (line : List Char) : Prop where
  fits : unicode.displayWidth line ≤ width
  clean : ∀ c ∈ line, ¬ isControl c

/-- What holds of a writer of this width at every moment. -/
structure Bounded (unicode : Unicode Value) (width : Nat) (writer : PlainWriter) : Prop where
  width_eq : writer.width = min width MAX_PLAIN_WIDTH
  length_le : writer.lines.length ≤ MAX_PLAIN_LINES
  safe : ∀ line ∈ writer.lines, Safe unicode (min width MAX_PLAIN_WIDTH) line

/-- Both functions write the lines of the text. -/
theorem PlainWriter.pushLine_eq (self : PlainWriter) (line : List Char) :
    self.pushLine unicode line = self.pushText unicode line := by
  unfold pushLine pushText
  cases hsplit : (sanitizeTerminalText line).splitOn '\n' with
  | nil => exact absurd hsplit (List.splitOn_ne_nil _ _)
  | cons first rest =>
      rw [pushClean]
      by_cases hcapacity : self.hasCapacity <;> simp [hcapacity]

namespace Bounded

variable {width : Nat} {writer : PlainWriter}

theorem new (width : Nat) : Bounded unicode width (.new width) :=
  ⟨rfl, Nat.zero_le _, fun _ h => absurd h List.not_mem_nil⟩

theorem markTruncated (h : Bounded unicode width writer) :
    Bounded unicode width writer.markTruncated :=
  ⟨h.width_eq, h.length_le, h.safe⟩

/-- A line that the writer cuts fits. -/
theorem truncated (h : Bounded unicode width writer) {line : List Char}
    (hline : ∀ c ∈ line, ¬ isControl c) :
    Safe unicode (min width MAX_PLAIN_WIDTH)
      (truncateDisplayWidth unicode line writer.width) := by
  constructor
  · have hle : unicode.displayWidth (truncateDisplayWidth unicode line writer.width) ≤
        min writer.width MAX_PLAIN_WIDTH := truncateDisplayWidth_le ..
    have hwidth := h.width_eq
    omega
  · intro c hmem
    rcases truncateDisplayWidth_mem hmem with hmem | hmem
    · exact hline c hmem
    · rw [List.mem_singleton.1 hmem]
      decide

theorem pushCleanLine (h : Bounded unicode width writer) (hcapacity : writer.hasCapacity)
    {line : List Char} (hline : ∀ c ∈ line, ¬ isControl c) :
    Bounded unicode width (writer.pushCleanLine unicode line) := by
  refine ⟨h.width_eq, ?_, ?_⟩
  · simp only [PlainWriter.pushCleanLine, List.length_append, List.length_singleton]
    exact hcapacity
  · intro written hwritten
    rcases List.mem_append.1 hwritten with hwritten | hwritten
    · exact h.safe written hwritten
    · rw [List.mem_singleton.1 hwritten]
      exact h.truncated hline

theorem pushClean (h : Bounded unicode width writer) {lines : List (List Char)}
    (hlines : ∀ line ∈ lines, ∀ c ∈ line, ¬ isControl c) :
    Bounded unicode width (writer.pushClean unicode lines) := by
  induction lines generalizing writer with
  | nil => exact h
  | cons line rest ih =>
      rw [PlainWriter.pushClean]
      split
      · rename_i hcapacity
        have hline := hlines line List.mem_cons_self
        exact ih (h.pushCleanLine hcapacity hline)
          fun other hother => hlines other (List.mem_cons_of_mem _ hother)
      · exact h.markTruncated

theorem pushText (h : Bounded unicode width writer) (text : List Char) :
    Bounded unicode width (writer.pushText unicode text) :=
  h.pushClean fun _ hline _ => splitOn_clean hline

theorem pushLine (h : Bounded unicode width writer) (line : List Char) :
    Bounded unicode width (writer.pushLine unicode line) := by
  rw [PlainWriter.pushLine_eq]
  exact h.pushText line

/-! ### Blocks of each kind -/

theorem renderHunkLines (h : Bounded unicode width writer) (lines : List DiffLine) :
    Bounded unicode width (renderHunkLines unicode lines writer) := by
  induction lines generalizing writer with
  | nil => exact h
  | cons line rest ih =>
      rw [Render.renderHunkLines]
      split
      · exact ih (h.pushLine _)
      · exact h.markTruncated

theorem renderHunks (h : Bounded unicode width writer) (hunks : List DiffHunk) :
    Bounded unicode width (renderHunks unicode hunks writer) := by
  induction hunks generalizing writer with
  | nil => exact h
  | cons hunk rest ih =>
      rw [Render.renderHunks]
      split
      · exact ih ((h.pushLine _).renderHunkLines _)
      · exact h.markTruncated

theorem renderRows (h : Bounded unicode width writer) (rows : List (List (List Char))) :
    Bounded unicode width (renderRows unicode rows writer) := by
  induction rows generalizing writer with
  | nil => exact h
  | cons row rest ih =>
      rw [Render.renderRows]
      split
      · exact ih (h.pushLine _)
      · exact h.markTruncated

theorem renderTable (h : Bounded unicode width writer) (table : Table) :
    Bounded unicode width (renderTable unicode table writer) := by
  have hcaption : Bounded unicode width (renderCaption unicode table writer) := by
    unfold renderCaption
    split
    · exact h.pushLine _
    · exact h
  have hheader : Bounded unicode width
      (renderHeader unicode table (renderCaption unicode table writer)) := by
    unfold renderHeader
    split
    · exact (hcaption.pushLine _).pushLine _
    · exact hcaption
  unfold Render.renderTable
  dsimp only
  split
  · exact (hheader.renderRows _).pushLine _
  · exact hheader.renderRows _

/-- Every round of the tree's loop writes through the same functions. -/
theorem renderPending (pending : List Pending) (h : Bounded unicode width writer) :
    Bounded unicode width (renderPending unicode pending writer) := by
  fun_induction Render.renderPending unicode pending writer with
  | case1 => exact h
  | case2 current pending writer hcapacity pushed hdepth ih =>
      apply ih
      split
      · exact (h.pushLine _).pushLine _
      · exact h.pushLine _
  | case3 current pending writer hcapacity pushed hdepth childCount slots visibleCount marked ih =>
      apply ih
      show Bounded unicode width (if visibleCount < childCount then pushed.markTruncated else pushed)
      split
      · exact (h.pushLine _).markTruncated
      · exact h.pushLine _
  | case4 => exact h.markTruncated

theorem renderError (h : Bounded unicode width writer) (error : ErrorBlock) :
    Bounded unicode width (renderError unicode error writer) := by
  unfold Render.renderError
  have htitle := (h.pushLine ("Error: ".toList ++ error.title)).pushText error.message
  cases error.details with
  | none =>
      dsimp only
      split
      · exact htitle.pushLine _
      · exact htitle
  | some details =>
      dsimp only
      split
      · exact ((htitle.pushLine _).pushText _).pushLine _
      · exact (htitle.pushLine _).pushText _

theorem renderWidget (h : Bounded unicode width writer) (value : Value) :
    Bounded unicode width (renderWidget unicode value writer) := by
  unfold Render.renderWidget
  dsimp only
  split
  · exact (h.pushLine _).pushText _
  · exact (h.pushLine _).pushLine _

theorem renderBlock (h : Bounded unicode width writer) (block : RenderBlock Value) :
    Bounded unicode width (renderBlock unicode block writer) := by
  cases block with
  | Text text => exact h.pushText text
  | Markdown text => exact h.pushText text
  | Diff diff => exact ((h.pushLine _).pushLine _).renderHunks _
  | Table table => exact h.renderTable table
  | Tree tree => exact renderPending _ h
  | Progress progress => exact h.pushLine _
  | Error error => exact h.renderError error
  | Widget value => exact h.renderWidget value

/-- The marker takes the place of a line. -/
theorem finalLines (h : Bounded unicode width writer) :
    (writer.finalLines unicode).length ≤ MAX_PLAIN_LINES ∧
      ∀ line ∈ writer.finalLines unicode, Safe unicode (min width MAX_PLAIN_WIDTH) line := by
  have hclean : OUTPUT_TRUNCATED.all (fun c => ¬ isControl c) = true := by decide
  have hmarker : Safe unicode (min width MAX_PLAIN_WIDTH)
      (truncateDisplayWidth unicode OUTPUT_TRUNCATED writer.width) :=
    h.truncated (List.all_iff_forall_prop.1 hclean)
  have hlength := h.length_le
  unfold PlainWriter.finalLines
  dsimp only
  split
  · split
    · rename_i hne
      have hpos := List.length_pos_of_ne_nil hne
      refine ⟨by simp; omega, ?_⟩
      intro line hline
      rcases List.mem_append.1 hline with hline | hline
      · exact h.safe line (List.mem_of_mem_dropLast hline)
      · rw [List.mem_singleton.1 hline]
        exact hmarker
    · split
      · exact ⟨by simp [MAX_PLAIN_LINES], by simpa using hmarker⟩
      · exact ⟨Nat.zero_le _, fun _ hline => absurd hline List.not_mem_nil⟩
  · exact ⟨hlength, h.safe⟩

end Bounded

/-- The text splits back into the lines that were joined. -/
theorem splitOn_finish {writer : PlainWriter} {width : Nat} (h : Bounded unicode width writer) :
    (writer.finish unicode).splitOn '\n' = writer.finalLines unicode ∨
      (writer.finish unicode).splitOn '\n' = [[]] := by
  unfold PlainWriter.finish
  by_cases hne : writer.finalLines unicode = []
  · rw [hne]
    exact .inr rfl
  · refine .inl (List.splitOn_intercalate _ ?_ hne)
    intro line hline hfeed
    exact (h.finalLines.2 line hline).clean _ hfeed (by decide)

theorem toPlainText_lines (unicode : Unicode Value) (block : RenderBlock Value) (width : Nat) :
    ((block.toPlainText unicode width).splitOn '\n').length ≤ MAX_PLAIN_LINES ∧
      ∀ line ∈ (block.toPlainText unicode width).splitOn '\n',
        Safe unicode (min width MAX_PLAIN_WIDTH) line := by
  have hempty : ([[]] : List (List Char)).length ≤ MAX_PLAIN_LINES ∧
      ∀ line ∈ ([[]] : List (List Char)), Safe unicode (min width MAX_PLAIN_WIDTH) line :=
    ⟨by decide, fun line hline => List.mem_singleton.1 hline ▸
      ⟨by rw [unicode.empty]; exact Nat.zero_le _, nofun⟩⟩
  unfold RenderBlock.toPlainText
  dsimp only
  split
  · exact hempty
  · have hnew : Bounded unicode width (.new width) := .new width
    have hbounded := hnew.renderBlock block
    rcases splitOn_finish hbounded with hsplit | hsplit
    · rw [hsplit]
      exact hbounded.finalLines
    · rw [hsplit]
      exact hempty

/-- Every block has a plain text at every width: none at width 0, and never more than
4,096 lines, each of which fits and has no control character. -/
theorem plain_text_bounded (unicode : Unicode Value) (block : RenderBlock Value) :
    block.toPlainText unicode 0 = [] ∧
    ∀ width,
      ((block.toPlainText unicode width).splitOn '\n').length ≤ 4096 ∧
      ∀ line ∈ (block.toPlainText unicode width).splitOn '\n',
        unicode.displayWidth line ≤ min width 4096 ∧ ∀ c ∈ line, ¬ isControl c := by
  refine ⟨rfl, ?_⟩
  intro width
  obtain ⟨hlength, hsafe⟩ := toPlainText_lines unicode block width
  refine ⟨hlength, ?_⟩
  intro line hline
  exact ⟨(hsafe line hline).fits, (hsafe line hline).clean⟩

end MCode.Render
