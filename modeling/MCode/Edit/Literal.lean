import MCode.Edit.Apply
import MCode.Edit.Template
import MCode.Lib.Spans

/-!
# Literal operations

The literal branch of `plan_edits` in `mcode-tools/src/builtin/edit/engine.rs`,
from the arguments of the operation to the ranges that it plans.  One pattern is
searched with a `memmem` finder that is started again one byte behind each hit;
several patterns are searched with an Aho-Corasick automaton that reports the
matches that overlap.  Either way every occurrence is found, and two that overlap
refuse the operation.

A string is its characters, and offsets count the bytes of its UTF-8.  The two
crates are `Searchers`.
-/

namespace MCode.Edit.Literal

open MCode.Lib MCode.Tools
open MCode.Files (Bytes isCharBoundary)
open MCode.Edit.Template (Failure USIZE_MAX)

def MAX_LITERAL_PATTERNS : Nat := 32
def MAX_MATCHES : Nat := 32768
def MAX_PATTERN_BYTES : Nat := 16 * 1024

abbrev Text := List Char

/-! ## The arguments -/

inductive Occurrence where
  | Unique
  | All
  | Nth

inductive Pick where
  | Unique
  | All
  | Nth (n : Nat) (atLeast : 1 ≤ n)

def pickFrom (occurrence : Occurrence) (n : Option Nat) (nthOk : Bool) : Except ToolError Pick :=
  match occurrence with
  | .Unique =>
      if n.isSome then .error (.InvalidArgs "n is only valid with occurrence=nth") else .ok .Unique
  | .All =>
      if n.isSome then .error (.InvalidArgs "n is only valid with occurrence=nth") else .ok .All
  | .Nth =>
      if nthOk = false then .error (.InvalidArgs "nth is not supported for this operation")
      else
        match n with
        | none => .error (.InvalidArgs "occurrence=nth requires a 1-based n")
        | some n =>
            if h : 1 ≤ n then .ok (.Nth n h) else .error (.InvalidArgs "n must be >= 1")

def boundPattern (label : String) (value : Text) : Except ToolError Unit :=
  if MAX_PATTERN_BYTES < (Utf8.encode value).length then
    .error (.InvalidArgs (label ++ " exceeds " ++ toString MAX_PATTERN_BYTES ++ " bytes"))
  else .ok ()

/-- The patterns of an operation with what each is replaced by. -/
structure Needles where
  patterns : List Text
  replacements : List Text
  present : patterns ≠ []
  few : patterns.length ≤ MAX_LITERAL_PATTERNS
  paired : patterns.length = replacements.length
  nonempty : ∀ pattern ∈ patterns, pattern ≠ []
  short : ∀ pattern ∈ patterns, (Utf8.encode pattern).length ≤ MAX_PATTERN_BYTES

def checkNeedle (needle : Text × Text) : Except ToolError Unit :=
  if needle.1 = [] then .error (.InvalidArgs "literal pattern must not be empty")
  else do
    boundPattern "literal pattern" needle.1
    boundPattern "literal replacement" needle.2

theorem checkNeedle_ok {needle : Text × Text} (h : checkNeedle needle = .ok ()) :
    needle.1 ≠ [] ∧ (Utf8.encode needle.1).length ≤ MAX_PATTERN_BYTES := by
  unfold checkNeedle at h
  split at h
  · cases h
  · rename_i hne
    obtain ⟨hbound, -⟩ := Results.bind_unit_ok.1 h
    unfold boundPattern at hbound
    split at hbound
    · cases hbound
    · rename_i hle
      exact ⟨hne, Nat.not_lt.1 hle⟩

theorem checkNeedles_ok {patterns replacements : List Text}
    (hpaired : patterns.length = replacements.length)
    (h : (patterns.zip replacements).forM checkNeedle = .ok ()) :
    ∀ pattern ∈ patterns, pattern ≠ [] ∧ (Utf8.encode pattern).length ≤ MAX_PATTERN_BYTES := by
  intro pattern hpattern
  obtain ⟨i, hi, rfl⟩ := List.getElem_of_mem hpattern
  have hmem : (patterns[i], replacements[i]) ∈ patterns.zip replacements := by
    have hzip : i < (patterns.zip replacements).length := by
      rw [List.length_zip]
      omega
    have hat := List.getElem_mem hzip
    rw [List.getElem_zip] at hat
    exact hat
  exact checkNeedle_ok (Results.forM_ok.1 h _ hmem)

def literalNeedles (pattern replacement : Option Text) (patterns replacements : Option (List Text)) :
    Except ToolError Needles :=
  match pattern, replacement, patterns, replacements with
  | some pattern, some replacement, none, none =>
      match h : checkNeedle (pattern, replacement) with
      | .error error => .error error
      | .ok () =>
          .ok {
            patterns := [pattern]
            replacements := [replacement]
            present := List.cons_ne_nil _ _
            few := by rw [List.length_singleton]; decide
            paired := rfl
            nonempty := fun other hother => List.mem_singleton.1 hother ▸ (checkNeedle_ok h).1
            short := fun other hother => List.mem_singleton.1 hother ▸ (checkNeedle_ok h).2 }
  | none, none, some patterns, some replacements =>
      if hsome : patterns = [] then .error (.InvalidArgs "literal patterns must not be empty")
      else if hfew : MAX_LITERAL_PATTERNS < patterns.length then
        .error (.InvalidArgs
          ("at most " ++ toString MAX_LITERAL_PATTERNS ++ " literal patterns are allowed"))
      else if hpaired : patterns.length ≠ replacements.length then
        .error (.InvalidArgs "patterns and replacements must have the same length")
      else
        match h : (patterns.zip replacements).forM checkNeedle with
        | .error error => .error error
        | .ok () =>
            .ok {
              patterns := patterns
              replacements := replacements
              present := hsome
              few := Nat.not_lt.1 hfew
              paired := Decidable.not_not.1 hpaired
              nonempty := fun other hother =>
                (checkNeedles_ok (Decidable.not_not.1 hpaired) h other hother).1
              short := fun other hother =>
                (checkNeedles_ok (Decidable.not_not.1 hpaired) h other hother).2 }
  | _, _, _, _ =>
      .error (.InvalidArgs
        "literal operations require pattern+replacement or patterns+replacements")

/-- `PreparedOp::Literal`. -/
structure LiteralOp where
  needles : Needles
  pick : Pick

/-- The literal branch of `prepare_op`. -/
def prepareLiteral (pattern replacement : Option Text) (patterns replacements : Option (List Text))
    (occurrence : Occurrence) (n : Option Nat) : Except ToolError LiteralOp := do
  let pick ← pickFrom occurrence n true
  let needles ← literalNeedles pattern replacement patterns replacements
  pure ⟨needles, pick⟩

/-! ## Searching -/

structure Found where
  start : Nat
  stop : Nat
  patternId : Nat
  deriving DecidableEq

/-- `find` is `Finder::find` of a needle in a haystack; `build` is the automaton of
some patterns, as its overlapping matches in a haystack. -/
structure Searchers where
  find : Bytes → Bytes → Option Nat
  build : List Bytes → Except String (Bytes → List Found)

def tooManyMatches : ToolError :=
  .InvalidArgs ("edit produced more than " ++ toString MAX_MATCHES ++ " matches")

/-- The loop of `memmem_matches`, with room for so many more matches. -/
def memmemLoop (s : Searchers) (haystack needle : Bytes) :
    Nat → Nat → List Found → Except ToolError (List Found)
  | room, cursor, found =>
      match s.find needle (haystack.drop cursor) with
      | none => .ok found
      | some relative =>
          match room with
          | 0 => .error tooManyMatches
          | room + 1 =>
              let start := cursor + relative
              memmemLoop s haystack needle room (start + 1)
                (found ++ [⟨start, start + needle.length, 0⟩])

def memmemMatches (s : Searchers) (haystack needle : Bytes) : Except ToolError (List Found) :=
  if needle = [] then .error (.InvalidArgs "literal patterns must not be empty")
  else memmemLoop s haystack needle MAX_MATCHES 0 []

/-- The loop of `ac_matches`. -/
def acLoop : Nat → List Found → List Found → Except ToolError (List Found)
  | _, [], found => .ok found
  | 0, _ :: _, _ => .error tooManyMatches
  | room + 1, mat :: matches', found => acLoop room matches' (found ++ [mat])

def acMatches (s : Searchers) (haystack : Bytes) (patterns : List Bytes) :
    Except ToolError (List Found) :=
  match s.build patterns with
  | .error error => .error (.InvalidArgs ("invalid literal patterns: " ++ error))
  | .ok automaton => acLoop MAX_MATCHES (automaton haystack) []

def literalMatches (s : Searchers) (haystack : Bytes) (patterns : List Bytes) :
    Except ToolError (List Found) :=
  match patterns with
  | [needle] => memmemMatches s haystack needle
  | patterns => acMatches s haystack patterns

/-! ## Planning -/

/-- The order of `sort_by_key` by start and end, which is stable. -/
def Found.le (first second : Found) : Prop :=
  first.start < second.start ∨ first.start = second.start ∧ first.stop ≤ second.stop

instance : DecidableRel Found.le := fun _ _ => inferInstanceAs (Decidable (_ ∨ _))

def positional (found : List Found) : List Found := found.insertionSort Found.le

/-- The loop over `windows(2)`. -/
def rejectOverlappingCandidates : List Found → Except ToolError Unit
  | first :: second :: found =>
      if second.start < first.stop then
        .error (.InvalidArgs
          "literal patterns overlap in the same operation; make the matched ranges unique")
      else rejectOverlappingCandidates (second :: found)
  | _ => .ok ()

def notFound (label : String) : ToolError :=
  .Execution (label ++ " pattern not found; re-read the file and provide the exact text")

def selectMatches (found : List Found) (pick : Pick) (label : String) :
    Except ToolError (List Found) :=
  match pick with
  | .Unique =>
      match found.length with
      | 0 => .error (notFound label)
      | 1 => .ok found
      | n => .error (.Execution (label ++ " pattern occurs " ++ toString n ++
          " times; include more surrounding lines to make it unique"))
  | .All => if found.isEmpty then .error (notFound label) else .ok found
  | .Nth n _ =>
      match found[n - 1]? with
      | none => .error (.Execution (label ++ " nth=" ++ toString n ++ " requested but only " ++
          toString found.length ++ " match" ++ if found.length = 1 then "" else "es"))
      | some chosen => .ok [chosen]

/-- What is planned so far, with the bytes of the replacements. -/
@[ext] structure Plan where
  planned : List Planned
  replacementBytes : Nat
  few : planned.length ≤ MAX_MATCHES
  small : replacementBytes ≤ MAX_WRITE_BYTES

def Plan.empty : Plan := ⟨[], 0, Nat.zero_le _, Nat.zero_le _⟩

def reservePlanned (plan : Plan) (start stop : Nat) (replacement : Bytes) : Except ToolError Plan :=
  if hfew : MAX_MATCHES ≤ plan.planned.length then .error tooManyMatches
  else
    let replacementBytes := min USIZE_MAX (plan.replacementBytes + replacement.length)
    if hsmall : MAX_WRITE_BYTES < replacementBytes then
      .error (.InvalidArgs
        ("planned replacements exceed " ++ toString MAX_WRITE_BYTES ++ " bytes"))
    else
      .ok {
        planned := plan.planned ++ [⟨start, stop, replacement⟩]
        replacementBytes := replacementBytes
        few := by rw [List.length_append, List.length_singleton]; omega
        small := Nat.not_lt.1 hsmall }

def stripBom : Text → Bool × Text
  | c :: rest => if c = '\uFEFF' then (true, rest) else (false, c :: rest)
  | [] => (false, [])

/-- The index of the replacement panics outside the list. -/
def reserveFound (op : LiteralOp) (bomLen : Nat) (plan : Plan) (found : Found) :
    Except Failure Plan :=
  match op.needles.replacements[found.patternId]? with
  | none => .error .Panic
  | some replacement =>
      (reservePlanned plan (found.start + bomLen) (found.stop + bomLen)
        (Utf8.encode replacement)).mapError .Error

/-- The literal branch of `plan_edits`. -/
def planLiteral (s : Searchers) (snapshot : Text) (op : LiteralOp) (plan : Plan) :
    Except Failure Plan := do
  let (hadBom, body) := stripBom snapshot
  let bomLen := if hadBom then UTF8_BOM.length else 0
  let found ← (literalMatches s (Utf8.encode body)
    (op.needles.patterns.map Utf8.encode)).mapError .Error
  let found := positional found
  (rejectOverlappingCandidates found).mapError .Error
  let chosen ← (selectMatches found op.pick "literal").mapError .Error
  chosen.foldlM (reserveFound op bomLen) plan

end MCode.Edit.Literal
