import MCode.Edit.Ast
import MCode.Edit.Fuzzy

/-!
# `plan_edits`

The operations of one call are planned one after the other, all against the same
snapshot.
-/

namespace MCode.Edit

open MCode.Lib MCode.Tools
open MCode.Files (Bytes)
open MCode.Edit.Template (Failure)
open MCode.Edit.Literal (Text LiteralOp Searchers Plan planLiteral stripBom)
open MCode.Edit.Fuzzy (Alphanumeric FuzzyOp planFuzzy)
open MCode.Edit.Ast (AstOp planAst)

/-- What planning takes from elsewhere: the searchers of literal patterns, the hash
of bytes as hexadecimal digits, and the table of letters and digits. -/
structure Crates where
  searchers : Searchers
  blake3 : Bytes → Text
  alphanumeric : Alphanumeric

variable {Language Tree : Type} [DecidableEq Language]

inductive PreparedOp (Language Tree : Type) where
  | Literal (op : LiteralOp)
  | Regex (op : RegexOp)
  | LineRange (op : LineRangeOp)
  | Fuzzy (op : FuzzyOp)
  | Ast (op : AstOp Language Tree)

structure AstSnapshot (Language Tree : Type) where
  language : Language
  tree : Tree

/-- One round of the loop over the operations. -/
def planOp (crates : Crates) (snapshot : Text) (astSnapshot : Option (AstSnapshot Language Tree))
    (cancelled : Bool) (op : PreparedOp Language Tree) : Planner Unit := do
  let (hadBom, body) := stripBom snapshot
  let bomLen := if hadBom then UTF8_BOM.length else 0
  .check (checkCancel cancelled)
  match op with
  | .Literal op => fun plan => (planLiteral crates.searchers snapshot op plan).map ((), ·)
  | .Regex op => regexPlanned op body bomLen
  | .LineRange op => do
      let range ← .check (lineRangePlanned crates.blake3 op (Utf8.encode body) bomLen)
      .reserve range.start range.stop range.replacement
  | .Fuzzy op => planFuzzy crates.alphanumeric body op bomLen cancelled
  | .Ast op =>
      match astSnapshot with
      | none => .refuse (.Execution "ast snapshot was not prepared")
      | some parsed =>
          if parsed.language ≠ op.language then
            .refuse (.Execution
              "ast snapshot language does not match the prepared operation")
          else planAst op parsed.tree (Utf8.encode body) bomLen cancelled

def planEdits (crates : Crates) (snapshot : Text) (ops : List (PreparedOp Language Tree))
    (astSnapshot : Option (AstSnapshot Language Tree)) (cancelled : Bool) :
    Except Failure (List Planned) :=
  (ops.forM (planOp crates snapshot astSnapshot cancelled) Plan.empty).map fun result =>
    result.2.planned

end MCode.Edit
