import MCode.Files.Window
import MCode.Tools.Stream

/-!
# Applying planned edits

`apply_planned` of `mcode-tools/src/builtin/edit/engine.rs`: edits that do not
overlap are applied to one snapshot in the order of their places.

A text is its bytes, and offsets count bytes.  The length of a text is far below
what `isize` can hold, so the sums do not saturate.
-/

namespace MCode.Edit

open MCode.Lib MCode.Tools
open MCode.Files (Bytes LF CR isCharBoundary truncateBytes)

def MAX_WRITE_BYTES : Nat := 8 * 1024 * 1024
def MAX_DIFF_SNIPPET : Nat := 80
def MAX_DIFF_SUMMARY_BYTES : Nat := 4096

/-- `\u{feff}`. -/
def UTF8_BOM : Bytes := [0xEF, 0xBB, 0xBF]

structure Planned where
  start : Nat
  stop : Nat
  replacement : Bytes
  deriving DecidableEq

structure Applied where
  text : Bytes
  replacements : Nat
  bytesBefore : Nat
  bytesAfter : Nat
  diff : Bytes
  deriving DecidableEq

def checkCancel (cancelled : Bool) : Except ToolError Unit :=
  if cancelled then .error (.Execution "file operation cancelled before completion") else .ok ()

/-! ## The summary -/

def snippet (text : Bytes) : Bytes :=
  let (cut, truncated) := truncateBytes text MAX_DIFF_SNIPPET
  let visible := cut.flatMap fun byte =>
    if byte = CR then Utf8.encode "\\r".toList
    else if byte = LF then Utf8.encode "\\n".toList
    else [byte]
  if truncated then visible ++ Utf8.encode ['…'] else visible

def appendDiff (diff old new : Bytes) : Bytes :=
  if old = new ∨ MAX_DIFF_SUMMARY_BYTES ≤ diff.length then diff
  else
    let hunk := Utf8.encode "- ".toList ++ snippet old ++ Utf8.encode "\n+ ".toList ++
      snippet new ++ [LF]
    if MAX_DIFF_SUMMARY_BYTES - diff.length < hunk.length then
      diff ++ Utf8.encode "[diff truncated]".toList
    else diff ++ hunk

/-! ## The edits -/

/-- The order of `sort_by_key` by start and end, which is stable. -/
def Planned.le (first second : Planned) : Prop :=
  first.start < second.start ∨ first.start = second.start ∧ first.stop ≤ second.stop

instance : DecidableRel Planned.le := fun _ _ => inferInstanceAs (Decidable (_ ∨ _))

def ordered (planned : List Planned) : List Planned := planned.insertionSort Planned.le

/-- `snapshot[start..stop]`. -/
def between (snapshot : Bytes) (start stop : Nat) : Bytes := (snapshot.take stop).drop start

def checkRanges (snapshot : Bytes) : List Planned → Except ToolError Unit
  | [] => .ok ()
  | item :: items =>
      if item.stop < item.start ∨ snapshot.length < item.stop
          ∨ isCharBoundary snapshot item.start = false
          ∨ isCharBoundary snapshot item.stop = false then
        .error (.Execution "edit match is not on a UTF-8 character boundary")
      else checkRanges snapshot items

/-- The loop over `windows(2)`. -/
def checkPairs : List Planned → Except ToolError Unit
  | first :: second :: items =>
      if second.start < first.stop then
        .error (.Execution
          "edit operations overlap on the snapshot; split them or make ranges unique")
      else if second.start = first.start then
        .error (.Execution "edit operations are order-dependent at the same byte range")
      else checkPairs (second :: items)
  | _ => .ok ()

/-- The length of the edited text, by the lengths of the edits. -/
def capacity (snapshot : Bytes) (items : List Planned) : Nat :=
  snapshot.length + (items.map fun item => item.replacement.length).sum -
    (items.map fun item => item.stop - item.start).sum

def tooLong : ToolError :=
  .InvalidArgs ("edited content exceeds " ++ toString MAX_WRITE_BYTES ++ " bytes")

/-- The loop over the edits, with the text and the summary so far. -/
def applyLoop (cancelled : Bool) (snapshot : Bytes) :
    List Planned → Nat → Bytes → Bytes → Except ToolError (Bytes × Bytes)
  | [], cursor, text, diff => .ok (text ++ snapshot.drop cursor, diff)
  | item :: items, cursor, text, diff => do
      checkCancel cancelled
      let text := text ++ between snapshot cursor item.start ++ item.replacement
      let diff := appendDiff diff (between snapshot item.start item.stop) item.replacement
      if MAX_WRITE_BYTES < text.length then .error tooLong
      else applyLoop cancelled snapshot items item.stop text diff

def hasBom (text : Bytes) : Bool := UTF8_BOM.isPrefixOf text

def applyPlanned (snapshot : Bytes) (planned : List Planned) (cancelled : Bool) :
    Except ToolError Applied := do
  checkCancel cancelled
  let items := ordered planned
  checkRanges snapshot items
  checkPairs items
  if MAX_WRITE_BYTES < capacity snapshot items then .error tooLong
  else
    let (text, diff) ← applyLoop cancelled snapshot items 0 [] []
    let text := if hasBom snapshot && !hasBom text then UTF8_BOM ++ text else text
    if MAX_WRITE_BYTES < text.length then .error tooLong
    else .ok ⟨text, items.length, snapshot.length, text.length, diff⟩

example : (applyPlanned [0x61, 0x62, 0x63] [⟨2, 3, []⟩, ⟨1, 1, [0x78]⟩] false).toOption.map
    Applied.text = some [0x61, 0x78, 0x62] := by decide

end MCode.Edit
