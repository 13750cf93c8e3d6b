import MCode.Render.Bounded

/-!
# The listing behind a rendering

What a block would print without the limit of 4,096 lines: every line of a
diff, every row of a table, and every node of a tree in pre-order, with the
connector of its place among all its siblings.

A writer that only cuts what no longer fits shows a front of the listing, and
the marker is true.  That is how all kinds but trees are written.  The walk over
a tree reserves a line for each node on its stack, and leaves out children when
the reserved lines leave no room for them; it then goes on with what waits below
them on the stack.
-/

namespace MCode.Render

variable {Value : Type} (unicode : Unicode Value) (width : Nat)

/-! ## Listings -/

/-- The lines of a text, each cut to the columns. -/
def textLines (text : List Char) : List (List Char) :=
  ((sanitizeTerminalText text).splitOn '\n').map fun line =>
    truncateDisplayWidth unicode line width

def hunkLines (hunk : DiffHunk) : List (List Char) :=
  textLines unicode width hunk.header ++
    hunk.lines.flatMap fun line => textLines unicode width line.marked

def diffLines (diff : Diff) : List (List Char) :=
  textLines unicode width ("--- ".toList ++ diff.path) ++
    textLines unicode width ("+++ ".toList ++ diff.path) ++
    diff.hunks.flatMap (hunkLines unicode width)

def captionLines (table : Table) : List (List Char) :=
  match table.caption with
  | some caption => textLines unicode width caption
  | none => []

def headerLines (table : Table) : List (List Char) :=
  if table.headers ≠ [] then
    textLines unicode width (joinCells unicode table.headers width) ++
      textLines unicode width (separatorOf unicode table width)
  else []

def rowLines (rows : List (List (List Char))) : List (List Char) :=
  rows.flatMap fun row => textLines unicode width (joinCells unicode row width)

def tableLines (table : Table) : List (List Char) :=
  captionLines unicode width table ++ headerLines unicode width table ++
    rowLines unicode width table.rows ++
    if table.headers = [] ∧ table.rows = [] then
      textLines unicode width "(empty table)".toList
    else []

mutual

/-- A node and what is below it. -/
def nodeLines (linePrefix : List Char) (isLast isRoot : Bool) : TreeNode → List (List Char)
  | ⟨label, children⟩ =>
      textLines unicode width (Pending.text ⟨⟨label, children⟩, linePrefix, isLast, isRoot, 0⟩) ++
        childrenLines (Pending.childPrefix ⟨⟨label, children⟩, linePrefix, isLast, isRoot, 0⟩)
          children

/-- The children of one node, of which only the last has the last connector. -/
def childrenLines (linePrefix : List Char) : List TreeNode → List (List Char)
  | [] => []
  | child :: rest =>
      nodeLines linePrefix rest.isEmpty false child ++ childrenLines linePrefix rest

end

def errorLines (error : ErrorBlock) : List (List Char) :=
  textLines unicode width ("Error: ".toList ++ error.title) ++
    textLines unicode width error.message ++
    (match error.details with
      | some details =>
          textLines unicode width "Details:".toList ++ textLines unicode width details
      | none => []) ++
    if error.retryable then textLines unicode width "Retry available.".toList else []

def widgetLines (value : Value) : List (List Char) :=
  textLines unicode width "Widget:".toList ++
    match unicode.toStringPretty value with
    | some serialized => textLines unicode width serialized
    | none => textLines unicode width "[widget data unavailable]".toList

/-- The rendering of a block without the limit on its lines. -/
def RenderBlock.listing : RenderBlock Value → List (List Char)
  | .Text text => textLines unicode width text
  | .Markdown text => textLines unicode width text
  | .Diff diff => diffLines unicode width diff
  | .Table table => tableLines unicode width table
  | .Tree tree => nodeLines unicode width [] true true tree.root
  | .Progress progress => textLines unicode width progress.text
  | .Error error => errorLines unicode width error
  | .Widget value => widgetLines unicode width value

/-- What a listing should be cut to. -/
def shownLines (listing : List (List Char)) : List (List Char) :=
  if listing.length ≤ MAX_PLAIN_LINES then listing
  else listing.take (MAX_PLAIN_LINES - 1) ++ [OUTPUT_TRUNCATED]

/-! ## What the writer does -/

variable {unicode width}

theorem textLines_ne_nil (text : List Char) : textLines unicode width text ≠ [] := by
  simp [textLines]

variable (unicode width) in
theorem textLines_pos (text : List Char) : 0 < (textLines unicode width text).length :=
  List.length_pos_of_ne_nil (textLines_ne_nil text)

namespace PlainWriter

theorem pushClean_width (self : PlainWriter) (lines : List (List Char)) :
    (self.pushClean unicode lines).width = self.width := by
  induction lines generalizing self with
  | nil => rfl
  | cons line rest ih =>
      rw [pushClean]
      split
      · exact ih _
      · rfl

/-- The lines are added as far as there is room for them. -/
theorem pushClean_lines {self : PlainWriter} (h : self.lines.length ≤ MAX_PLAIN_LINES)
    (lines : List (List Char)) :
    (self.pushClean unicode lines).lines =
      (self.lines ++ lines.map fun line => truncateDisplayWidth unicode line self.width).take
        MAX_PLAIN_LINES := by
  induction lines generalizing self with
  | nil =>
      rw [List.map_nil, List.append_nil, List.take_of_length_le h]
      rfl
  | cons line rest ih =>
      rw [pushClean]
      split
      · rename_i hcapacity
        have hlength : (self.pushCleanLine unicode line).lines.length ≤ MAX_PLAIN_LINES := by
          simp only [pushCleanLine, List.length_append, List.length_singleton]
          exact hcapacity
        rw [ih hlength]
        simp [pushCleanLine]
      · rename_i hcapacity
        have hlength : MAX_PLAIN_LINES = self.lines.length := by
          unfold hasCapacity at hcapacity
          omega
        rw [hlength, List.take_left]
        rfl

/-- The writer is marked exactly when there is no room. -/
theorem pushClean_truncated {self : PlainWriter} (h : self.lines.length ≤ MAX_PLAIN_LINES)
    (lines : List (List Char)) :
    (self.pushClean unicode lines).truncated =
      (self.truncated || decide (MAX_PLAIN_LINES < self.lines.length + lines.length)) := by
  induction lines generalizing self with
  | nil => simp [pushClean, h]
  | cons line rest ih =>
      rw [pushClean]
      split
      · rename_i hcapacity
        have hlength : (self.pushCleanLine unicode line).lines.length = self.lines.length + 1 := by
          simp [pushCleanLine]
        rw [ih (by rw [hlength]; exact hcapacity), hlength]
        simp only [pushCleanLine, List.length_cons]
        congr 2
        simp only [eq_iff_iff]
        omega
      · rename_i hcapacity
        unfold hasCapacity at hcapacity
        have hover : MAX_PLAIN_LINES < self.lines.length + (line :: rest).length := by
          rw [List.length_cons]
          omega
        rw [decide_eq_true hover, Bool.or_true]
        rfl

theorem pushLine_width (self : PlainWriter) (line : List Char) :
    (self.pushLine unicode line).width = self.width := by
  rw [pushLine_eq]
  exact pushClean_width ..

theorem pushLine_lines {self : PlainWriter} (h : self.lines.length ≤ MAX_PLAIN_LINES)
    (line : List Char) :
    (self.pushLine unicode line).lines =
      (self.lines ++ textLines unicode self.width line).take MAX_PLAIN_LINES := by
  rw [pushLine_eq]
  exact pushClean_lines h _

theorem pushLine_truncated {self : PlainWriter} (h : self.lines.length ≤ MAX_PLAIN_LINES)
    (line : List Char) :
    (self.pushLine unicode line).truncated =
      (self.truncated ||
        decide (MAX_PLAIN_LINES < self.lines.length + (textLines unicode self.width line).length))
    := by
  rw [pushLine_eq, textLines, List.length_map]
  exact pushClean_truncated h _

end PlainWriter

/-! ## Writing a front -/

/-- The writer shows as much of the listing as there is room for, and is marked exactly
when that is not all of it. -/
structure Writes (width : Nat) (writer : PlainWriter) (listing : List (List Char)) : Prop where
  width_eq : writer.width = width
  lines_eq : writer.lines = listing.take MAX_PLAIN_LINES
  truncated_iff : writer.truncated = true ↔ MAX_PLAIN_LINES < listing.length

namespace Writes

variable {writer : PlainWriter} {listing : List (List Char)}

theorem new (width : Nat) : Writes (min width MAX_PLAIN_WIDTH) (.new width) [] :=
  ⟨rfl, rfl, by simp [PlainWriter.new]⟩

theorem pushText (h : Writes width writer listing) (text : List Char) :
    Writes width (writer.pushText unicode text) (listing ++ textLines unicode width text) := by
  have hlength : writer.lines.length ≤ MAX_PLAIN_LINES := by
    rw [h.lines_eq, List.length_take]
    exact Nat.min_le_left ..
  rw [← PlainWriter.pushLine_eq]
  refine ⟨(writer.pushLine_width text).trans h.width_eq, ?_, ?_⟩
  · rw [PlainWriter.pushLine_lines hlength, h.width_eq, h.lines_eq]
    simp only [List.take_append, List.take_take, List.length_take, Nat.min_self]
    congr 2
    omega
  · rw [PlainWriter.pushLine_truncated hlength, h.width_eq, Bool.or_eq_true, h.truncated_iff,
      decide_eq_true_eq, h.lines_eq, List.length_take, List.length_append]
    omega

theorem pushLine (h : Writes width writer listing) (line : List Char) :
    Writes width (writer.pushLine unicode line) (listing ++ textLines unicode width line) := by
  rw [PlainWriter.pushLine_eq]
  exact h.pushText line

/-- A loop that stops without room leaves out at least one line. -/
theorem markTruncated (h : Writes width writer listing) (hcapacity : ¬ writer.hasCapacity)
    {more : List (List Char)} (hmore : more ≠ []) :
    Writes width writer.markTruncated (listing ++ more) := by
  unfold PlainWriter.hasCapacity at hcapacity
  rw [h.lines_eq, List.length_take] at hcapacity
  have hpos := List.length_pos_of_ne_nil hmore
  refine ⟨h.width_eq, ?_, ?_⟩
  · rw [List.take_append_of_le_length (by omega)]
    exact h.lines_eq
  · rw [List.length_append]
    simp only [PlainWriter.markTruncated, true_iff]
    omega

/-! ### Blocks of each kind -/

theorem renderHunkLines (h : Writes width writer listing) (lines : List DiffLine) :
    Writes width (renderHunkLines unicode lines writer)
      (listing ++ lines.flatMap fun line => textLines unicode width line.marked) := by
  induction lines generalizing writer listing with
  | nil =>
      rw [List.flatMap_nil, List.append_nil]
      exact h
  | cons line rest ih =>
      rw [Render.renderHunkLines, List.flatMap_cons]
      split
      · rw [← List.append_assoc]
        exact ih (h.pushLine _)
      · rename_i hcapacity
        exact h.markTruncated hcapacity (by simp [textLines_ne_nil])

theorem renderHunks (h : Writes width writer listing) (hunks : List DiffHunk) :
    Writes width (renderHunks unicode hunks writer)
      (listing ++ hunks.flatMap (hunkLines unicode width)) := by
  induction hunks generalizing writer listing with
  | nil =>
      rw [List.flatMap_nil, List.append_nil]
      exact h
  | cons hunk rest ih =>
      rw [Render.renderHunks, List.flatMap_cons]
      split
      · rw [← List.append_assoc, hunkLines, ← List.append_assoc]
        exact ih ((h.pushLine _).renderHunkLines _)
      · rename_i hcapacity
        exact h.markTruncated hcapacity (by simp [hunkLines, textLines_ne_nil])

theorem renderDiff (h : Writes width writer listing) (diff : Diff) :
    Writes width (renderDiff unicode diff writer) (listing ++ diffLines unicode width diff) := by
  rw [diffLines, ← List.append_assoc, ← List.append_assoc]
  exact ((h.pushLine _).pushLine _).renderHunks _

theorem renderRows (h : Writes width writer listing) (rows : List (List (List Char))) :
    Writes width (renderRows unicode rows writer) (listing ++ rowLines unicode width rows) := by
  induction rows generalizing writer listing with
  | nil =>
      rw [rowLines, List.flatMap_nil, List.append_nil]
      exact h
  | cons row rest ih =>
      rw [Render.renderRows, rowLines, List.flatMap_cons]
      split
      · rw [← List.append_assoc, h.width_eq]
        exact ih (h.pushLine _)
      · rename_i hcapacity
        exact h.markTruncated hcapacity (by simp [textLines_ne_nil])

theorem renderTable (h : Writes width writer listing) (table : Table) :
    Writes width (renderTable unicode table writer) (listing ++ tableLines unicode width table) := by
  have hcaption : Writes width (renderCaption unicode table writer)
      (listing ++ captionLines unicode width table) := by
    unfold renderCaption captionLines
    cases table.caption with
    | none => rwa [List.append_nil]
    | some caption => exact h.pushLine caption
  have hheader : Writes width
      (renderHeader unicode table (renderCaption unicode table writer))
      (listing ++ captionLines unicode width table ++ headerLines unicode width table) := by
    unfold renderHeader headerLines
    split
    · rw [hcaption.width_eq, ← List.append_assoc]
      exact (hcaption.pushLine _).pushLine _
    · rwa [List.append_nil]
  unfold Render.renderTable tableLines
  dsimp only
  rw [← List.append_assoc, ← List.append_assoc, ← List.append_assoc]
  split
  · exact (hheader.renderRows _).pushLine _
  · rw [List.append_nil]
    exact hheader.renderRows _

theorem renderError (h : Writes width writer listing) (error : ErrorBlock) :
    Writes width (renderError unicode error writer) (listing ++ errorLines unicode width error) := by
  unfold Render.renderError errorLines
  dsimp only
  rw [← List.append_assoc, ← List.append_assoc, ← List.append_assoc]
  have hdetails : Writes width
      (match error.details with
        | some details =>
            (((writer.pushLine unicode ("Error: ".toList ++ error.title)).pushText unicode
              error.message).pushLine unicode "Details:".toList).pushText unicode details
        | none =>
            (writer.pushLine unicode ("Error: ".toList ++ error.title)).pushText unicode
              error.message)
      (listing ++ textLines unicode width ("Error: ".toList ++ error.title) ++
        textLines unicode width error.message ++
        match error.details with
        | some details =>
            textLines unicode width "Details:".toList ++ textLines unicode width details
        | none => []) := by
    cases error.details with
    | none =>
        rw [List.append_nil]
        exact (h.pushLine _).pushText _
    | some details =>
        rw [← List.append_assoc]
        exact (((h.pushLine _).pushText _).pushLine _).pushText details
  split
  · exact hdetails.pushLine _
  · rwa [List.append_nil]

theorem renderWidget (h : Writes width writer listing) (value : Value) :
    Writes width (renderWidget unicode value writer)
      (listing ++ widgetLines unicode width value) := by
  unfold Render.renderWidget widgetLines
  rw [← List.append_assoc]
  cases unicode.toStringPretty value with
  | none => exact (h.pushLine _).pushLine _
  | some serialized => exact (h.pushLine _).pushText serialized

end Writes

/-! ## The marker -/

/-- The marker fits in 18 columns. -/
theorem truncateDisplayWidth_marker (hmarker : unicode.displayWidth OUTPUT_TRUNCATED ≤ 18)
    (hwidth : 18 ≤ width) : truncateDisplayWidth unicode OUTPUT_TRUNCATED width =
      OUTPUT_TRUNCATED := by
  have hlength : OUTPUT_TRUNCATED.length = 18 := by decide
  unfold truncateDisplayWidth
  dsimp only [MAX_PLAIN_WIDTH, MAX_PLAIN_LINE_SCALARS, ZERO_WIDTH_SCALAR_ALLOWANCE]
  rw [if_neg (by omega), if_pos ⟨by omega, by omega⟩]

theorem Writes.finalLines {writer : PlainWriter} {listing : List (List Char)}
    (h : Writes width writer listing) (hmarker : unicode.displayWidth OUTPUT_TRUNCATED ≤ 18)
    (hwidth : 18 ≤ width) : writer.finalLines unicode = shownLines listing := by
  unfold PlainWriter.finalLines shownLines
  dsimp only
  rw [h.width_eq, truncateDisplayWidth_marker hmarker hwidth]
  split
  · rename_i htruncated
    have hlong := h.truncated_iff.1 htruncated
    have hne : writer.lines ≠ [] := by
      rw [← List.length_pos_iff, h.lines_eq, List.length_take]
      unfold MAX_PLAIN_LINES at hlong ⊢
      omega
    rw [if_pos hne, if_neg (by omega), h.lines_eq, List.dropLast_take hlong]
  · rename_i htruncated
    have hshort : ¬ MAX_PLAIN_LINES < listing.length := fun hlong =>
      htruncated (h.truncated_iff.2 hlong)
    rw [if_pos (by omega), h.lines_eq, List.take_of_length_le (by omega)]

end MCode.Render
