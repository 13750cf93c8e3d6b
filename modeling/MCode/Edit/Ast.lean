import MCode.Edit.Planner

/-!
# Syntax tree operations

`plan_ast` of `mcode-tools/src/builtin/edit/ast.rs`: the captures that a query
finds in the tree are replaced, each by a template that refers to captures of the
same match.

The query cursor is a parameter: its matches in order, and whether it exceeded its
limit of matches in progress.
-/

namespace MCode.Edit.Ast

open MCode.Lib MCode.Tools
open MCode.Files (Bytes)
open MCode.Edit.Literal (Text MAX_MATCHES)
open MCode.Edit.Template (MAX_CAPTURE_BYTES)

def MAX_AST_SCANNED : Nat := 8192
def AST_CAPTURE_CANCEL_INTERVAL : Nat := 256

/-- A capture of a match: the index of its name, and the range of its node. -/
structure QueryCapture where
  index : Nat
  startByte : Nat
  endByte : Nat

/-- What the cursor of a query gives for a tree. -/
structure QueryRun where
  matched : List (List QueryCapture)
  didExceedMatchLimit : Bool

structure CaptureValue where
  start : Nat
  stop : Nat
  name : Text
  text : Bytes

/-! ## Templates -/

inductive TemplatePart where
  | Text (text : Text)
  | LiteralAt
  | Capture (name : Text)

def portableCaptureNameStart (c : Char) : Bool := c.isAlphanum || c == '_' || c == '-'

def portableCaptureNameContinue (c : Char) : Bool :=
  portableCaptureNameStart c || c == '.' || c == '?' || c == '!'

/-- `ParsedTemplate::parse`, which each round shortens. -/
def parseWithin : Nat → Text → List TemplatePart
  | 0, _ => []
  | _ + 1, [] => []
  | fuel + 1, c :: rest =>
      if c ≠ '@' then
        .Text ((c :: rest).takeWhile (· ≠ '@')) :: parseWithin fuel (rest.dropWhile (· ≠ '@'))
      else
        match rest with
        | [] => [.LiteralAt]
        | next :: behind =>
            if next = '@' then .LiteralAt :: parseWithin fuel behind
            else if portableCaptureNameStart next = false then .LiteralAt :: parseWithin fuel rest
            else .Capture (next :: behind.takeWhile portableCaptureNameContinue) ::
              parseWithin fuel (behind.dropWhile portableCaptureNameContinue)

def parseTemplate (template : Text) : List TemplatePart := parseWithin template.length template

inductive IndexedCapture where
  | Unique (text : Bytes)
  | Ambiguous

/-- The entry of a name among the captures of `index_captures`. -/
def indexedCapture (values : List CaptureValue) (name : Text) : Option IndexedCapture :=
  match values.filter fun value => value.name == name with
  | [] => none
  | [value] => some (.Unique value.text)
  | _ => some .Ambiguous

def resolveTemplateCapture (name : Text) (target : CaptureValue) (values : List CaptureValue) :
    Except ToolError Bytes :=
  if name = target.name then .ok target.text
  else
    match indexedCapture values name with
    | some (.Unique text) => .ok text
    | some .Ambiguous =>
        .error (.InvalidArgs "ast replacement capture is ambiguous in this match")
    | none => .error (.InvalidArgs "ast replacement references an unknown capture in this match")

def pushBounded (out chunk : Bytes) : Except ToolError Bytes :=
  if MAX_CAPTURE_BYTES < out.length + chunk.length then
    .error (.InvalidArgs ("ast replacement exceeds " ++ toString MAX_CAPTURE_BYTES ++ " bytes"))
  else .ok (out ++ chunk)

/-- The loop of `expand`, with the index of the part. -/
def expandLoop (target : CaptureValue) (values : List CaptureValue) (cancelled : Bool) :
    List TemplatePart → Nat → Bytes → Except ToolError Bytes
  | [], _, out => do
      checkCancel cancelled
      .ok out
  | part :: parts, index, out => do
      if index % AST_CAPTURE_CANCEL_INTERVAL = 0 then checkCancel cancelled
      let chunk ←
        match part with
        | .Text text => .ok (Utf8.encode text)
        | .LiteralAt => .ok (Utf8.encode ['@'])
        | .Capture name => resolveTemplateCapture name target values
      let out ← pushBounded out chunk
      expandLoop target values cancelled parts (index + 1) out

/-! ## Planning -/

/-- The loop that reads the captures of a match. -/
def valuesLoop (names : List Text) (body : Bytes) (cancelled : Bool) :
    List QueryCapture → Nat → Except ToolError (List CaptureValue)
  | [], _ => .ok []
  | cap :: captures, captureIndex => do
      if captureIndex % AST_CAPTURE_CANCEL_INTERVAL = 0 then checkCancel cancelled
      if cap.startByte = cap.endByte then
        .error (.InvalidArgs "ast captures must not be zero-width")
      else
        match sliceGet body cap.startByte cap.endByte with
        | none => .error (.Execution "ast capture is not on a UTF-8 character boundary")
        | some text =>
            let rest ← valuesLoop names body cancelled captures (captureIndex + 1)
            .ok (⟨cap.startByte, cap.endByte, names.getD cap.index [], text⟩ :: rest)

/-- `PreparedOp::Ast`; `run` is the query in a tree. -/
structure AstOp (Language Tree : Type) where
  language : Language
  captureNames : List Text
  run : Tree → Bytes → QueryRun
  replacement : Text
  capture : Option Text

/-- The loop over the captures of a match, which counts those that are selected. -/
def targetLoop (template : List TemplatePart) (capture : Option Text)
    (values : List CaptureValue) (bomLen : Nat) (cancelled : Bool) :
    List CaptureValue → Nat → Nat → Planner Nat
  | [], _, selected => pure selected
  | target :: targets, targetIndex, selected => do
      .check (if targetIndex % AST_CAPTURE_CANCEL_INTERVAL = 0 then checkCancel cancelled else .ok ())
      if ∃ wanted ∈ capture, target.name ≠ wanted then
        targetLoop template capture values bomLen cancelled targets (targetIndex + 1) selected
      else
        let expanded ← .check (expandLoop target values cancelled template 0 [])
        .reserve (target.start + bomLen) (target.stop + bomLen) expanded
        targetLoop template capture values bomLen cancelled targets (targetIndex + 1) (selected + 1)

/-- The loop over the matches. -/
def matchLoop {Language Tree : Type} (op : AstOp Language Tree) (body : Bytes) (bomLen : Nat)
    (cancelled : Bool) : List (List QueryCapture) → Nat → Nat → Nat → Planner Nat
  | [], _, _, selected => pure selected
  | captures :: rest, scannedMatches, scannedCaptures, selected =>
      let scannedMatches := scannedMatches + 1
      let scannedCaptures := scannedCaptures + captures.length
      if MAX_AST_SCANNED < scannedMatches ∨ MAX_AST_SCANNED < scannedCaptures then
        .refuse (.InvalidArgs ("ast query exceeded " ++ toString MAX_AST_SCANNED ++
          " scanned matches or captures"))
      else do
        let values ← .check (valuesLoop op.captureNames body cancelled captures 0)
        let selected ← targetLoop (parseTemplate op.replacement) op.capture values bomLen cancelled
          values 0 selected
        matchLoop op body bomLen cancelled rest scannedMatches scannedCaptures selected

def planAst {Language Tree : Type} (op : AstOp Language Tree) (tree : Tree) (body : Bytes)
    (bomLen : Nat) (cancelled : Bool) : Planner Unit := do
  let found := op.run tree body
  let selected ← matchLoop op body bomLen cancelled found.matched 0 0 0
  .check (checkCancel cancelled)
  if found.didExceedMatchLimit then
    .refuse (.InvalidArgs ("ast query exceeded the " ++ toString MAX_MATCHES ++
      " in-progress match limit"))
  else if selected = 0 then
    .refuse (.Execution ("ast query matched no selected captures; re-read the file and adjust " ++
      "the query"))
  else pure ()

end MCode.Edit.Ast
