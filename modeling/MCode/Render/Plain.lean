import Mathlib

/-!
# Plain text of render blocks

`mcode-render/src/block.rs` and `plain.rs`: the blocks, the truncation of one
line to a number of columns, the removal of terminal sequences, and the writer
that gives every block at most 4,096 lines.

Strings are lists of characters, so that lengths and offsets count characters
where the source counts bytes; they are only used to take back what was pushed.
The Unicode tables are parameters: the display width is any function that gives
the ellipsis one column and nothing none, and a segmentation into graphemes is
any list of texts that together are the text.  So is the JSON of a widget, which
may fail.
-/

namespace MCode.Render

/-! ## Blocks -/

structure TreeNode where
  label : List Char
  children : List TreeNode

structure Tree where
  root : TreeNode

inductive DiffLineKind where
  | Context
  | Added
  | Removed
  deriving DecidableEq

/-- A line of a hunk; its numbers are not rendered. -/
structure DiffLine where
  kind : DiffLineKind
  text : List Char

structure DiffHunk where
  header : List Char
  lines : List DiffLine

structure Diff where
  path : List Char
  hunks : List DiffHunk

structure Table where
  caption : Option (List Char)
  headers : List (List Char)
  rows : List (List (List Char))

inductive ProgressState where
  | Pending
  | Running
  | Succeeded
  | Failed
  deriving DecidableEq

structure Progress where
  label : List Char
  current : Nat
  total : Option Nat
  state : ProgressState

structure ErrorBlock where
  title : List Char
  message : List Char
  details : Option (List Char)
  retryable : Bool

inductive RenderBlock (Value : Type) where
  | Text (text : List Char)
  | Markdown (text : List Char)
  | Diff (diff : Diff)
  | Table (table : Table)
  | Tree (tree : Tree)
  | Progress (progress : Progress)
  | Error (error : ErrorBlock)
  | Widget (value : Value)

/-! ## What is not in the repository -/

/-- The tables of `unicode-width` and `unicode-segmentation`, and
`serde_json::to_string_pretty`. -/
structure Unicode (Value : Type) where
  displayWidth : List Char → Nat
  graphemes : List Char → List (List Char)
  toStringPretty : Value → Option (List Char)
  ellipsis : displayWidth ['…'] = 1
  empty : displayWidth [] = 0
  segments : ∀ text, (graphemes text).flatten = text

def MAX_PLAIN_WIDTH : Nat := 4096
def MAX_PLAIN_LINES : Nat := 4096
def MAX_TREE_DEPTH : Nat := 128
def MAX_PLAIN_LINE_SCALARS : Nat := 16384
def ZERO_WIDTH_SCALAR_ALLOWANCE : Nat := 64
def ELLIPSIS : List Char := ['…']
def OUTPUT_TRUNCATED : List Char := "[output truncated]".toList
def NESTED_NODES_OMITTED : List Char := "[nested nodes omitted]".toList

section

variable {Value : Type} (unicode : Unicode Value)

/-! ## One line -/

/-- The loop over the graphemes: what is rendered, and where its graphemes end,
the last first.  A width past the limit of the source's integers is past the
content width as well. -/
def collectGraphemes (contentWidth : Nat) :
    List (List Char) → List Char → List Nat → Nat → List Char × List Nat
  | [], rendered, graphemeEnds, _ => (rendered, graphemeEnds)
  | grapheme :: rest, rendered, graphemeEnds, used =>
      if contentWidth < used + unicode.displayWidth grapheme then (rendered, graphemeEnds)
      else
        collectGraphemes contentWidth rest (rendered ++ grapheme)
          ((rendered ++ grapheme).length :: graphemeEnds)
          (used + unicode.displayWidth grapheme)

/-- The loop that takes graphemes back until the line fits. -/
def backOff (width : Nat) : List Nat → List Char → List Char
  | [], rendered => if width < unicode.displayWidth rendered then ELLIPSIS else rendered
  | _ :: graphemeEnds, rendered =>
      if width < unicode.displayWidth rendered then
        backOff width graphemeEnds
          ((rendered.take (rendered.length - ELLIPSIS.length)).take
            (graphemeEnds.head?.getD 0) ++ ELLIPSIS)
      else rendered

def truncateDisplayWidth (text : List Char) (width : Nat) : List Char :=
  let width := min width MAX_PLAIN_WIDTH
  if width = 0 then []
  else
    let scalarLimit := min (width * 4 + ZERO_WIDTH_SCALAR_ALLOWANCE) MAX_PLAIN_LINE_SCALARS
    if ¬ scalarLimit < text.length ∧ unicode.displayWidth text ≤ width then text
    else if width < unicode.displayWidth ELLIPSIS then []
    else
      let (rendered, graphemeEnds) :=
        collectGraphemes unicode (width - unicode.displayWidth ELLIPSIS)
          (unicode.graphemes (text.take scalarLimit)) [] [] 0
      backOff unicode width graphemeEnds (rendered ++ ELLIPSIS)

end

/-! ## Terminal sequences -/

/-- `char::is_control`: the general category Cc. -/
def isControl (character : Char) : Prop :=
  character.toNat < 0x20 ∨ (0x7f ≤ character.toNat ∧ character.toNat < 0xa0)

instance (character : Char) : Decidable (isControl character) := by
  unfold isControl; infer_instance

inductive State where
  | Text
  | Escape
  | Csi
  | String
  | StringEscape
  deriving DecidableEq

/-- One round of the loop: the next state and what is pushed. -/
def State.next (state : State) (character : Char) (peek : Option Char) : State × List Char :=
  match state with
  | .Text =>
      if character = '\u001b' then (.Escape, [])
      else if character = '\u009b' then (.Csi, [])
      else if character ∈ ['\u009d', '\u0090', '\u009e', '\u009f'] then (.String, [])
      else if character = '\r' then (.Text, if peek ≠ some '\n' then ['\n'] else [])
      else if character = '\n' then (.Text, ['\n'])
      else if character = '\t' then (.Text, [' ', ' ', ' ', ' '])
      else if ¬ isControl character then (.Text, [character])
      else (.Text, [])
  | .Escape =>
      if character = '[' then (.Csi, [])
      else if character ∈ [']', 'P', '^', '_'] then (.String, [])
      else (.Text, [])
  | .Csi => (if '@' ≤ character ∧ character ≤ '~' then .Text else .Csi, [])
  | .String =>
      if character = '\u0007' ∨ character = '\u009c' then (.Text, [])
      else if character = '\u001b' then (.StringEscape, [])
      else (.String, [])
  | .StringEscape => (if character = '\\' then .Text else .String, [])

def sanitizeFrom : State → List Char → List Char
  | _, [] => []
  | state, character :: rest =>
      (state.next character rest.head?).2 ++
        sanitizeFrom (state.next character rest.head?).1 rest

def sanitizeTerminalText (text : List Char) : List Char := sanitizeFrom .Text text

/-! ## The writer -/

structure PlainWriter where
  width : Nat
  lines : List (List Char)
  truncated : Bool
  deriving DecidableEq

namespace PlainWriter

def new (width : Nat) : PlainWriter := ⟨min width MAX_PLAIN_WIDTH, [], false⟩

def hasCapacity (self : PlainWriter) : Prop := self.lines.length < MAX_PLAIN_LINES

instance (self : PlainWriter) : Decidable self.hasCapacity := by
  unfold hasCapacity; infer_instance

def remainingCapacity (self : PlainWriter) : Nat := MAX_PLAIN_LINES - self.lines.length

def markTruncated (self : PlainWriter) : PlainWriter := { self with truncated := true }

variable {Value : Type} (unicode : Unicode Value)

def pushCleanLine (self : PlainWriter) (line : List Char) : PlainWriter :=
  { self with lines := self.lines ++ [truncateDisplayWidth unicode line self.width] }

/-- The loop of `push_text` and of the rest of `push_line`. -/
def pushClean (self : PlainWriter) : List (List Char) → PlainWriter
  | [] => self
  | line :: rest =>
      if self.hasCapacity then (self.pushCleanLine unicode line).pushClean rest
      else self.markTruncated

def pushText (self : PlainWriter) (text : List Char) : PlainWriter :=
  self.pushClean unicode ((sanitizeTerminalText text).splitOn '\n')

def pushLine (self : PlainWriter) (line : List Char) : PlainWriter :=
  if ¬ self.hasCapacity then self.markTruncated
  else
    match (sanitizeTerminalText line).splitOn '\n' with
    | [] => self
    | first :: rest => (self.pushCleanLine unicode first).pushClean unicode rest

/-- The lines that `finish` joins. -/
def finalLines (self : PlainWriter) : List (List Char) :=
  if self.truncated then
    let marker := truncateDisplayWidth unicode OUTPUT_TRUNCATED self.width
    if self.lines ≠ [] then self.lines.dropLast ++ [marker]
    else if 0 < self.width then [marker]
    else []
  else self.lines

def finish (self : PlainWriter) : List Char := ['\n'].intercalate (self.finalLines unicode)

end PlainWriter

/-! ## Blocks of each kind -/

section

variable {Value : Type} (unicode : Unicode Value)

def DiffLineKind.marker : DiffLineKind → Char
  | .Context => ' '
  | .Added => '+'
  | .Removed => '-'

def DiffLine.marked (line : DiffLine) : List Char := line.kind.marker :: line.text

/-- The loop over the lines of a hunk. -/
def renderHunkLines : List DiffLine → PlainWriter → PlainWriter
  | [], writer => writer
  | line :: rest, writer =>
      if writer.hasCapacity then renderHunkLines rest (writer.pushLine unicode line.marked)
      else writer.markTruncated

/-- The loop over the hunks. -/
def renderHunks : List DiffHunk → PlainWriter → PlainWriter
  | [], writer => writer
  | hunk :: rest, writer =>
      if writer.hasCapacity then
        renderHunks rest (renderHunkLines unicode hunk.lines (writer.pushLine unicode hunk.header))
      else writer.markTruncated

def renderDiff (diff : Diff) (writer : PlainWriter) : PlainWriter :=
  renderHunks unicode diff.hunks
    ((writer.pushLine unicode ("--- ".toList ++ diff.path)).pushLine unicode
      ("+++ ".toList ++ diff.path))

/-- The loop of `join_cells`; only the first cell has no separator. -/
def joinCellsFrom (width : Nat) : Bool → List (List Char) → List Char → List Char
  | _, [], joined => joined
  | first, cell :: rest, joined =>
      let separator := if first then [] else " | ".toList
      let remaining := width - unicode.displayWidth joined
      if remaining = 0 then joined
      else
        let joined := joined ++ truncateDisplayWidth unicode separator remaining
        let remaining := width - unicode.displayWidth joined
        if remaining = 0 then joined
        else
          let clean := (sanitizeTerminalText cell).map fun c => if c = '\n' then ' ' else c
          joinCellsFrom width false rest (joined ++ truncateDisplayWidth unicode clean remaining)

def joinCells (cells : List (List Char)) (width : Nat) : List Char :=
  joinCellsFrom unicode width true cells []

def renderCaption (table : Table) (writer : PlainWriter) : PlainWriter :=
  match table.caption with
  | some caption => writer.pushLine unicode caption
  | none => writer

/-- The line under the header of a table. -/
def separatorOf (table : Table) (width : Nat) : List Char :=
  List.replicate (min (max (unicode.displayWidth (joinCells unicode table.headers width)) 1) width)
    '-'

def renderHeader (table : Table) (writer : PlainWriter) : PlainWriter :=
  if table.headers ≠ [] then
    (writer.pushLine unicode (joinCells unicode table.headers writer.width)).pushLine unicode
      (separatorOf unicode table writer.width)
  else writer

/-- The loop over the rows. -/
def renderRows : List (List (List Char)) → PlainWriter → PlainWriter
  | [], writer => writer
  | row :: rest, writer =>
      if writer.hasCapacity then
        renderRows rest (writer.pushLine unicode (joinCells unicode row writer.width))
      else writer.markTruncated

def renderTable (table : Table) (writer : PlainWriter) : PlainWriter :=
  let writer := renderRows unicode table.rows
    (renderHeader unicode table (renderCaption unicode table writer))
  if table.headers = [] ∧ table.rows = [] then
    writer.pushLine unicode "(empty table)".toList
  else writer

/-! ### Trees -/

/-- A node that waits on the stack of `render_tree`. -/
structure Pending where
  node : TreeNode
  linePrefix : List Char
  isLast : Bool
  isRoot : Bool
  depth : Nat

def connector (isLast : Bool) : List Char := if isLast then "`- ".toList else "|- ".toList

/-- The line of a node. -/
def Pending.text (self : Pending) : List Char :=
  if self.isRoot then self.node.label
  else self.linePrefix ++ connector self.isLast ++ self.node.label

def Pending.childPrefix (self : Pending) : List Char :=
  if self.isRoot then []
  else self.linePrefix ++ if self.isLast then "   ".toList else "|  ".toList

/-- The entries of the first `visibleCount` children, the first on top. -/
def Pending.visible (self : Pending) (visibleCount : Nat) : List Pending :=
  (self.node.children.take visibleCount).mapIdx fun index child =>
    ⟨child, self.childPrefix, index + 1 = visibleCount, false, self.depth + 1⟩

theorem TreeNode.size_take (nodes : List TreeNode) (count : Nat) :
    ((nodes.take count).map sizeOf).sum < sizeOf nodes := by
  induction nodes generalizing count with
  | nil => simp
  | cons node rest ih =>
      cases count with
      | zero =>
          simp only [List.take_zero, List.map_nil, List.sum_nil, List.cons.sizeOf_spec]
          omega
      | succ count =>
          have := ih count
          simp only [List.take_succ_cons, List.map_cons, List.sum_cons, List.cons.sizeOf_spec]
          omega

theorem Pending.visible_node (self : Pending) (visibleCount : Nat) :
    (self.visible visibleCount).map Pending.node = self.node.children.take visibleCount := by
  unfold visible
  apply List.ext_getElem <;> simp

theorem Pending.visible_size (self : Pending) (visibleCount : Nat) :
    ((self.visible visibleCount).map fun entry => sizeOf entry.node).sum < sizeOf self.node := by
  have hmap := self.visible_node visibleCount
  have hsum := TreeNode.size_take self.node.children visibleCount
  rw [← hmap, List.map_map] at hsum
  have hnode : sizeOf self.node.children < sizeOf self.node := by
    obtain ⟨label, children⟩ := self.node
    simp only [TreeNode.mk.sizeOf_spec]
    omega
  exact Nat.lt_trans hsum hnode

/-- The loop of `render_tree`, over the stack with its top first. -/
def renderPending : List Pending → PlainWriter → PlainWriter
  | [], writer => writer
  | current :: pending, writer =>
      if writer.hasCapacity then
        let writer := writer.pushLine unicode current.text
        if MAX_TREE_DEPTH ≤ current.depth then
          renderPending pending
            (if current.node.children ≠ [] then
              writer.pushLine unicode
                (current.linePrefix ++ "  ".toList ++ NESTED_NODES_OMITTED)
            else writer)
        else
          let childCount := current.node.children.length
          let availableSlots := writer.remainingCapacity - pending.length
          let visibleCount := min childCount availableSlots
          let writer := if visibleCount < childCount then writer.markTruncated else writer
          renderPending (current.visible visibleCount ++ pending) writer
      else writer.markTruncated
  termination_by pending => (pending.map fun entry => sizeOf entry.node).sum
  decreasing_by
    · obtain ⟨node, linePrefix, isLast, isRoot, depth⟩ := current
      obtain ⟨label, children⟩ := node
      simp only [List.map_cons, List.sum_cons, TreeNode.mk.sizeOf_spec]
      omega
    · simp only [List.map_append, List.sum_append, List.map_cons, List.sum_cons]
      exact Nat.add_lt_add_right (current.visible_size _) _

def renderTree (tree : Tree) (writer : PlainWriter) : PlainWriter :=
  renderPending unicode [⟨tree.root, [], true, true, 0⟩] writer

/-! ### The other kinds -/

def ProgressState.text : ProgressState → List Char
  | .Pending => "Pending".toList
  | .Running => "Running".toList
  | .Succeeded => "Complete".toList
  | .Failed => "Failed".toList

/-- The one line of a progress. -/
def Progress.text (progress : Progress) : List Char :=
  let front := progress.state.text ++ ": ".toList ++ progress.label ++ " [".toList ++
    Nat.toDigits 10 progress.current
  match progress.total with
  | some total =>
      if 0 < total then
        front ++ "/".toList ++ Nat.toDigits 10 total ++ ", ".toList ++
          Nat.toDigits 10 (min progress.current total * 100 / total) ++ "%]".toList
      else front ++ "/".toList ++ Nat.toDigits 10 total ++ "]".toList
  | none => front ++ "]".toList

def renderProgress (progress : Progress) (writer : PlainWriter) : PlainWriter :=
  writer.pushLine unicode progress.text

def renderError (error : ErrorBlock) (writer : PlainWriter) : PlainWriter :=
  let writer := (writer.pushLine unicode ("Error: ".toList ++ error.title)).pushText unicode
    error.message
  let writer :=
    match error.details with
    | some details => (writer.pushLine unicode "Details:".toList).pushText unicode details
    | none => writer
  if error.retryable then writer.pushLine unicode "Retry available.".toList else writer

def renderWidget (value : Value) (writer : PlainWriter) : PlainWriter :=
  let writer := writer.pushLine unicode "Widget:".toList
  match unicode.toStringPretty value with
  | some serialized => writer.pushText unicode serialized
  | none => writer.pushLine unicode "[widget data unavailable]".toList

/-- The `match` of `render`. -/
def renderBlock : RenderBlock Value → PlainWriter → PlainWriter
  | .Text text, writer => writer.pushText unicode text
  | .Markdown text, writer => writer.pushText unicode text
  | .Diff diff, writer => renderDiff unicode diff writer
  | .Table table, writer => renderTable unicode table writer
  | .Tree tree, writer => renderTree unicode tree writer
  | .Progress progress, writer => renderProgress unicode progress writer
  | .Error error, writer => renderError unicode error writer
  | .Widget value, writer => renderWidget unicode value writer

/-- `RenderBlock::to_plain_text`. -/
def RenderBlock.toPlainText (block : RenderBlock Value) (width : Nat) : List Char :=
  let writer := PlainWriter.new width
  if writer.width = 0 then [] else (renderBlock unicode block writer).finish unicode

end

end MCode.Render
