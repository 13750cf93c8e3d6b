import MCode.Edit.Literal
import MCode.Edit.Splice
import MCode.Tools.Ignore

/-!
# Planning

The operations of `plan_edits` other than the literal one: regular expressions of
`mcode-tools/src/builtin/edit/engine.rs`, and the line ranges of `edit/line.rs`.
They push onto the plan and fail at once, in a `Planner`; the plan itself is only
looked at by `reserve_planned`.

A string is its characters, and offsets count the bytes of its UTF-8.
-/

namespace MCode.Edit

open MCode.Lib MCode.Tools
open MCode.Files (Bytes LF CR isCharBoundary)
open MCode.Edit.Template (Failure Captures expandCaptures)
open MCode.Edit.Literal (Text Pick Plan reservePlanned notFound)

/-- What pushes onto the plan, which `&mut planned` lends it. -/
abbrev Planner (β : Type) := StateT Plan (Except Failure) β

namespace Planner

def refuse {β : Type} (error : ToolError) : Planner β := fun _ => .error (.Error error)

/-- A step that leaves the plan alone. -/
def check {β : Type} (outcome : Except ToolError β) : Planner β :=
  fun plan => (outcome.mapError .Error).map (·, plan)

/-- `reserve_planned`. -/
def reserve (start stop : Nat) (replacement : Bytes) : Planner Unit :=
  fun plan => ((reservePlanned plan start stop replacement).mapError .Error).map ((), ·)

end Planner

/-! ## Regular expressions -/

/-- A match of `captures_iter`: the place of the whole match, and its captures. -/
structure RegexMatch where
  full : Option (Nat × Nat)
  captures : Captures

/-- `PreparedOp::Regex`, where the compiled expression is its matches in a text. -/
structure RegexOp where
  compiled : Text → List RegexMatch
  replacement : Text
  pick : Pick

def Literal.Pick.isNth : Pick → Bool
  | .Nth _ _ => true
  | _ => false

def Literal.Pick.isUnique : Pick → Bool
  | .Unique => true
  | _ => false

/-- The loop over the matches, of which so many are pushed. -/
def regexLoop (op : RegexOp) (bomLen : Nat) : List RegexMatch → Nat → Planner Unit
  | [], pushed => if pushed = 0 then .refuse (notFound "regex") else pure ()
  | caps :: rest, pushed =>
      match caps.full with
      | none => .refuse (.Execution "regex match is missing capture 0")
      | some (start, stop) =>
          if start = stop then .refuse (.InvalidArgs "regex matches must not be zero-width")
          else if op.pick.isUnique ∧ 0 < pushed then
            .refuse (.Execution ("regex pattern occurs 2 times; include more surrounding context " ++
              "to make it unique"))
          else do
            let expanded ← fun plan =>
              (expandCaptures caps.captures (Utf8.encode op.replacement)).map (·, plan)
            .reserve (start + bomLen) (stop + bomLen) expanded
            regexLoop op bomLen rest (pushed + 1)

def regexPlanned (op : RegexOp) (body : Text) (bomLen : Nat) : Planner Unit :=
  if op.pick.isNth then
    .refuse (.InvalidArgs "regex operations support occurrence unique or all, not nth")
  else regexLoop op bomLen (op.compiled body) 0

/-! ## Line ranges -/

/-- CRLF is one terminator. -/
def lineTerminatorLen (bytes : Bytes) (index : Nat) : Nat :=
  if bytes[index]? = some CR ∧ bytes[index + 1]? = some LF then 2
  else if bytes[index]? = some CR ∨ bytes[index]? = some LF then 1
  else 0

/-- The state of the scan of `locate_line_range`. -/
structure LineScan where
  targetStart : Option Nat
  targetEnd : Option Nat
  lineNo : Nat
  lineStart : Nat

/-- The scan goes on by a byte at least. -/
def lineLoop (bytes : Bytes) (startLine endLine : Nat) : Nat → Nat → LineScan → LineScan
  | 0, _, scan => scan
  | fuel + 1, index, scan =>
      if bytes.length ≤ index then scan
      else
        let termLen := lineTerminatorLen bytes index
        if 0 < termLen then
          let lineNo := scan.lineNo + 1
          lineLoop bytes startLine endLine fuel (index + termLen) {
            targetStart := if lineNo = startLine then some scan.lineStart else scan.targetStart
            targetEnd := if lineNo = endLine then some (index + termLen) else scan.targetEnd
            lineNo := lineNo
            lineStart := index + termLen }
        else lineLoop bytes startLine endLine fuel (index + 1) scan

def locateLineRange (bytes : Bytes) (startLine endLine : Nat) : Except ToolError (Nat × Nat) :=
  let scan := lineLoop bytes startLine endLine bytes.length 0 ⟨none, none, 0, 0⟩
  let hasPartial := scan.lineStart < bytes.length
  let targetStart :=
    if hasPartial ∧ scan.lineNo + 1 = startLine then some scan.lineStart else scan.targetStart
  let targetEnd :=
    if hasPartial ∧ scan.lineNo + 1 = endLine then some bytes.length else scan.targetEnd
  if bytes = [] ∧ startLine = 1 ∧ endLine = 1 then .ok (0, 0)
  else
    let totalLines := if bytes = [] then 1 else scan.lineNo + if hasPartial then 1 else 0
    let outside : ToolError := .Execution ("line_range " ++ toString startLine ++ "-" ++
      toString endLine ++ " is outside the file (" ++ toString totalLines ++ " lines)")
    match targetStart, targetEnd with
    | some start, some stop => if start ≤ stop then .ok (start, stop) else .error outside
    | _, _ => .error outside

/-- `PreparedOp::LineRange`. -/
structure LineRangeOp where
  startLine : Nat
  endLine : Nat
  expectedText : Option Text
  expectedHash : Option Text
  replacement : Text

def hashEq (expected actualHex : Text) : Bool :=
  let expected := trim ((expected.dropPrefix? "blake3:".toList).getD expected)
  expected.map Char.toLower == actualHex.map Char.toLower

/-- `line_range_planned`; `blake3` is the hash of bytes as hexadecimal digits. -/
def lineRangePlanned (blake3 : Bytes → Text) (op : LineRangeOp) (body : Bytes) (bomLen : Nat) :
    Except ToolError Planned := do
  let (start, stop) ← locateLineRange body op.startLine op.endLine
  let range := between body start stop
  if ∃ expected ∈ op.expectedText, range ≠ Utf8.encode expected then
    .error (.Execution "line range does not match expected_text; re-read the file")
  else if ∃ expected ∈ op.expectedHash, hashEq expected (blake3 range) = false then
    .error (.Execution "line range does not match expected_hash; re-read the file")
  else .ok ⟨start + bomLen, stop + bomLen, Utf8.encode op.replacement⟩

end MCode.Edit
