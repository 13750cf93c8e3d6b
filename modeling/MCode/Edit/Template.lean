import MCode.Files.Window
import MCode.Lib.Results
import MCode.Tools.Stream

/-!
# Replacement templates

`expand_captures` of `mcode-tools/src/builtin/edit/engine.rs`: the template of a
regex operation, expanded with the captures of one match.  The scanner goes over
the bytes of the template and slices it at dollars and at the ends of references.

The regex crate's documented syntax is stated over characters: `Expands` says what
a template may become, given what a name stands for.

The length of a text is far below `usize::MAX`, so the sums do not saturate.
-/

namespace MCode.Edit.Template

open MCode.Lib MCode.Tools
open MCode.Files (Bytes isCharBoundary)

def MAX_CAPTURE_BYTES : Nat := 1024 * 1024

/-- `usize::MAX`. -/
def USIZE_MAX : Nat := 18446744073709551615

/-- `b'$'` and the like. -/
def byte (c : Char) : UInt8 := UInt8.ofNat c.toNat

/-- A slice off the boundaries of characters panics. -/
inductive Failure where
  | Panic
  | Error (error : ToolError)

/-- The captures of one match: the texts of the groups, and the groups with a name.
A name begins with a letter or an underscore. -/
structure Captures where
  groups : List (Option Bytes)
  names : List (List Char × Nat)
  count : groups.length ≤ USIZE_MAX
  named : ∀ entry ∈ names, ∃ first rest, entry.1 = first :: rest ∧
    first.isDigit = false ∧ first ≠ '+'

def Captures.get (caps : Captures) (index : Nat) : Option Bytes := caps.groups[index]?.join

def Captures.name (caps : Captures) (name : List Char) : Option Bytes :=
  (caps.names.lookup name).bind caps.get

/-- The number that decimal digits write. -/
def decimal (digits : List Char) : Nat :=
  digits.foldl (fun value digit => value * 10 + (digit.toNat - '0'.toNat)) 0

/-- A plus sign that a number may begin with. -/
def withoutPlus : List Char → List Char
  | '+' :: digits => digits
  | digits => digits

def isNumber (name : List Char) : Bool := !name.isEmpty && name.all Char.isDigit

/-- `str::parse::<usize>`. -/
def parseUsize (text : List Char) : Option Nat :=
  let digits := withoutPlus text
  if isNumber digits = false then none
  else if decimal digits ≤ USIZE_MAX then some (decimal digits) else none

def captureText (caps : Captures) (name : List Char) : Bytes :=
  match parseUsize name with
  | some index => (caps.get index).getD []
  | none => (caps.name name).getD []

def tooLong : ToolError :=
  .InvalidArgs ("capture replacement exceeds " ++ toString MAX_CAPTURE_BYTES ++ " bytes")

def pushBounded (out chunk : Bytes) : Except Failure Bytes :=
  if MAX_CAPTURE_BYTES < out.length + chunk.length then .error (.Error tooLong)
  else .ok (out ++ chunk)

/-- ASCII letters, digits and the underscore. -/
def isNameCode (code : Nat) : Bool :=
  (48 ≤ code && code ≤ 57) || (65 ≤ code && code ≤ 90) || (97 ≤ code && code ≤ 122) || code == 95

/-- `std::str::from_utf8` of a name. -/
def capture (caps : Captures) (name : Bytes) (consumed : Nat) : Except Failure (Nat × Bytes) :=
  match Utf8.decode name with
  | none => .error (.Error (.InvalidArgs "capture name is not UTF-8"))
  | some name => .ok (consumed, captureText caps name)

def parseCaptureRef (rest : Bytes) (caps : Captures) : Except Failure (Nat × Bytes) :=
  if rest[1]? = some (byte '{') then
    match rest.findIdx? (· == byte '}') with
    | none => .error (.Error (.InvalidArgs "unterminated capture replacement"))
    | some close => capture caps ((rest.take close).drop 2) (close + 1)
  else
    let stop := 1 + ((rest.drop 1).takeWhile fun b => isNameCode b.toNat).length
    if stop = 1 then .ok (1, [byte '$'])
    else capture caps ((rest.take stop).drop 1) stop

/-- `&template[start..stop]`. -/
def slice (template : Bytes) (start stop : Nat) : Except Failure Bytes :=
  if start ≤ stop ∧ isCharBoundary template start ∧ isCharBoundary template stop then
    .ok ((template.take stop).drop start)
  else .error .Panic

/-- The loop over the template, from `index` on. -/
def expandLoop (caps : Captures) (template : Bytes) :
    Nat → Nat → Bytes → Except Failure Bytes
  | 0, _, out => .ok out
  | fuel + 1, index, out =>
      match template.drop index with
      | [] => .ok out
      | first :: rest => do
          if first ≠ byte '$' then
            let stop := index + ((first :: rest).takeWhile (· ≠ byte '$')).length
            let chunk ← slice template index stop
            let out ← pushBounded out chunk
            expandLoop caps template fuel stop out
          else if rest.head? = some (byte '$') then
            let out ← pushBounded out [byte '$']
            expandLoop caps template fuel (index + 2) out
          else
            let (consumed, capture) ← parseCaptureRef (first :: rest) caps
            let out ← pushBounded out capture
            expandLoop caps template fuel (index + consumed) out

/-- Every round takes a byte at least. -/
def expandCaptures (caps : Captures) (template : Bytes) : Except Failure Bytes :=
  expandLoop caps template template.length 0 []

/-! ## The documented syntax -/

def isNameChar (c : Char) : Bool := isNameCode c.toNat

/-- What a template becomes, where `group` says what a name stands for. -/
inductive Expands (group : List Char → Bytes) : List Char → Bytes → Prop where
  | nil : Expands group [] []
  | literal {c : Char} {rest : List Char} {out : Bytes} (hplain : c ≠ '$')
      (hrest : Expands group rest out) : Expands group (c :: rest) (Utf8.encode [c] ++ out)
  /-- `$$` -/
  | dollar {rest : List Char} {out : Bytes} (hrest : Expands group rest out) :
      Expands group ('$' :: '$' :: rest) (Utf8.encode ['$'] ++ out)
  /-- `${name}` -/
  | braced {body name rest : List Char} {out : Bytes} (hbody : body = name ++ '}' :: rest)
      (hname : '}' ∉ name) (hrest : Expands group rest out) :
      Expands group ('$' :: '{' :: body) (group name ++ out)
  /-- `$name` -/
  | bare {body name rest : List Char} {out : Bytes} (hbody : body = name ++ rest)
      (hne : name ≠ []) (hname : ∀ c ∈ name, isNameChar c = true)
      (hlongest : ∀ c ∈ rest.head?, isNameChar c = false) (hrest : Expands group rest out) :
      Expands group ('$' :: body) (group name ++ out)
  /-- Any other dollar. -/
  | lone {rest : List Char} {out : Bytes}
      (hother : ∀ c ∈ rest.head?, c ≠ '$' ∧ c ≠ '{' ∧ isNameChar c = false)
      (hrest : Expands group rest out) :
      Expands group ('$' :: rest) (Utf8.encode ['$'] ++ out)

/-- A name of digits is the number of a group. -/
def documentedGroup (caps : Captures) (name : List Char) : Bytes :=
  if isNumber name then (caps.get (decimal name)).getD [] else (caps.name name).getD []

/-- A name of digits is the number of a group, with a plus sign or without. -/
def groupText (caps : Captures) (name : List Char) : Bytes :=
  if isNumber (withoutPlus name) then (caps.get (decimal (withoutPlus name))).getD []
  else (caps.name name).getD []

/-- Each `${` is followed by a later `}`. -/
def Closed (template : List Char) : Prop :=
  ∀ front rest, template = front ++ '$' :: '{' :: rest → '}' ∈ rest

/-- Each dollar written twice. -/
def doubled (text : List Char) : List Char :=
  text.flatMap fun c => if c = '$' then ['$', '$'] else [c]

/-! ## Names -/

theorem lookup_eq_none {caps : Captures} {name : List Char}
    (h : ∀ first rest, name = first :: rest → first.isDigit = true ∨ first = '+') :
    caps.name name = none := by
  have hlookup : caps.names.lookup name = none := by
    rw [List.lookup_eq_none_iff]
    intro entry hin
    obtain ⟨first, rest, heq, hdigit, hplus⟩ := caps.named entry hin
    rw [bne_iff_ne]
    rintro rfl
    cases h first rest heq with
    | inl hdigit' =>
        rw [hdigit] at hdigit'
        exact absurd hdigit' (by decide)
    | inr hplus' => exact hplus hplus'
  rw [Captures.name, hlookup, Option.bind_none]

theorem number_first {name : List Char} (h : isNumber (withoutPlus name) = true) :
    ∀ first rest, name = first :: rest → first.isDigit = true ∨ first = '+' := by
  rintro first rest rfl
  by_cases hplus : first = '+'
  · exact Or.inr hplus
  · have hsame : withoutPlus (first :: rest) = first :: rest := by
      unfold withoutPlus
      split
      · rename_i heq
        exact absurd (List.cons.inj heq).1 hplus
      · rfl
    rw [hsame] at h
    simp only [isNumber, Bool.and_eq_true, List.all_cons] at h
    exact Or.inl h.2.1

/-- A number beyond `usize` is no group and no name. -/
theorem captureText_eq (caps : Captures) (name : List Char) :
    captureText caps name = groupText caps name := by
  unfold captureText groupText parseUsize
  dsimp only
  cases hnumber : isNumber (withoutPlus name) with
  | false => rfl
  | true =>
      by_cases hfits : decimal (withoutPlus name) ≤ USIZE_MAX
      · simp only [Bool.true_eq_false, if_false, if_pos hfits, if_true]
      · have hget : caps.get (decimal (withoutPlus name)) = none := by
          have hcount := caps.count
          rw [Captures.get, List.getElem?_eq_none (by omega), Option.join_none]
        simp only [Bool.true_eq_false, if_false, if_neg hfits, if_true, hget,
          lookup_eq_none (number_first hnumber)]

/-! ## Bytes and characters -/

theorem byte_eq_iff {d : Char} (hd : d.toNat < 128) (c : Char) {b : UInt8}
    (hin : b ∈ String.utf8EncodeChar c) : (b == byte d) = (c == d) := by
  have h := Utf8.encodeChar_eq_ascii hd hin
  by_cases hc : c = d
  · rw [beq_iff_eq.2 hc, beq_iff_eq]
    exact h.2 hc
  · rw [beq_eq_false_iff_ne.2 hc, beq_eq_false_iff_ne]
    exact fun hb => hc (h.1 hb)

theorem isNameCode_byte (c : Char) {b : UInt8} (hin : b ∈ String.utf8EncodeChar c) :
    isNameCode b.toNat = isNameChar c := by
  by_cases hc : c.toNat < 128
  · rw [Utf8.encodeChar_ascii hc, List.mem_singleton] at hin
    rw [hin, Utf8.toNat_byte (by omega)]
    rfl
  · have hhigh := Utf8.encodeChar_high (by omega) hin
    have hfalse {code : Nat} (h : 128 ≤ code) : isNameCode code = false := by
      rw [← Bool.not_eq_true]
      simp only [isNameCode, Bool.or_eq_true, Bool.and_eq_true, decide_eq_true_eq, beq_iff_eq]
      omega
    rw [isNameChar, hfalse hhigh, hfalse (by omega)]

theorem encode_ascii {c : Char} (hc : c.toNat < 128) (rest : List Char) :
    Utf8.encode (c :: rest) = byte c :: Utf8.encode rest := by
  rw [Utf8.encode_cons, Utf8.encodeChar_ascii hc]
  rfl

theorem head_encode {d : Char} (hd : d.toNat < 128) (text : List Char) :
    (Utf8.encode text).head? = some (byte d) ↔ text.head? = some d := by
  cases text with
  | nil => simp [Utf8.encode]
  | cons c text =>
      obtain ⟨first, rest, hbytes, -⟩ := Utf8.takeChar_encodeChar c []
      have hfirst : (first == byte d) = (c == d) :=
        byte_eq_iff hd c (hbytes ▸ List.mem_cons_self ..)
      rw [Utf8.encode_cons, hbytes, List.cons_append, List.head?_cons, List.head?_cons,
        Option.some_inj, Option.some_inj, ← beq_iff_eq, hfirst, beq_iff_eq]

theorem boundary (front rest : List Char) :
    isCharBoundary (Utf8.encode (front ++ rest)) (Utf8.encode front).length = true := by
  rw [Utf8.encode_append, isCharBoundary, List.getElem?_append_right (Nat.le_refl _), Nat.sub_self]
  cases hbytes : Utf8.encode rest with
  | nil =>
      rw [List.append_nil]
      exact decide_eq_true rfl
  | cons first more =>
      show (_ || _) = true
      rw [Utf8.encode_head hbytes, Bool.not_false, Bool.or_true]

/-! ## References -/

theorem capture_encode (caps : Captures) (name : List Char) (consumed : Nat) :
    capture caps (Utf8.encode name) consumed = .ok (consumed, groupText caps name) := by
  rw [capture, Utf8.decode_encode, ← captureText_eq]

theorem parseCaptureRef_braced (caps : Captures) {name : List Char} (h : '}' ∉ name)
    (rest : List Char) :
    parseCaptureRef (Utf8.encode ('$' :: '{' :: (name ++ '}' :: rest))) caps =
      .ok ((Utf8.encode ('$' :: '{' :: (name ++ ['}']))).length, groupText caps name) := by
  have hbytes : Utf8.encode ('$' :: '{' :: (name ++ '}' :: rest)) =
      (byte '$' :: byte '{' :: Utf8.encode name) ++ byte '}' :: Utf8.encode rest := by
    rw [encode_ascii (by decide), encode_ascii (by decide), Utf8.encode_append,
      encode_ascii (by decide)]
    rfl
  have hfree : ∀ b ∈ byte '$' :: byte '{' :: Utf8.encode name, (b == byte '}') = false := by
    intro b hin
    rw [List.mem_cons, List.mem_cons] at hin
    obtain rfl | rfl | hin := hin
    · decide
    · decide
    · obtain ⟨c, hc, hb⟩ := List.mem_flatMap.1 hin
      rw [byte_eq_iff (by decide) c hb, beq_eq_false_iff_ne]
      exact fun heq => h (heq ▸ hc)
  have hclose : (Utf8.encode ('$' :: '{' :: (name ++ '}' :: rest))).findIdx? (· == byte '}') =
      some (byte '$' :: byte '{' :: Utf8.encode name).length := by
    rw [hbytes, List.findIdx?_append, List.findIdx?_eq_none_iff.2 hfree, List.findIdx?_cons,
      if_pos (beq_self_eq_true _), Option.map_some, Nat.zero_add]
    rfl
  have hlength : (Utf8.encode ('$' :: '{' :: (name ++ ['}']))).length =
      (byte '$' :: byte '{' :: Utf8.encode name).length + 1 := by
    rw [encode_ascii (by decide), encode_ascii (by decide), Utf8.encode_append,
      encode_ascii (by decide), List.length_cons, List.length_cons, List.length_append]
    rfl
  unfold parseCaptureRef
  rw [if_pos (by rw [hbytes]; rfl), hclose]
  dsimp only
  rw [hbytes, List.take_left, hlength]
  exact capture_encode caps name _

/-- The longest run of a class, in front of what is not in it. -/
theorem takeWhile_longest {p : Char → Bool} {run rest : List Char} (hrun : ∀ c ∈ run, p c = true)
    (hrest : ∀ c ∈ rest.head?, p c = false) : (run ++ rest).takeWhile p = run := by
  have hstop : rest.takeWhile p = [] := by
    cases rest with
    | nil => rfl
    | cons c rest => rw [List.takeWhile_cons, if_neg (by rw [hrest c rfl]; exact nofun)]
  rw [List.takeWhile_append_of_pos hrun, hstop, List.append_nil]

theorem takeWhile_name {name rest : List Char} (hname : ∀ c ∈ name, isNameChar c = true)
    (hlongest : ∀ c ∈ rest.head?, isNameChar c = false) :
    (Utf8.encode (name ++ rest)).takeWhile (fun b => isNameCode b.toNat) = Utf8.encode name := by
  rw [Utf8.takeWhile_encode (fun c b hin => isNameCode_byte c hin),
    takeWhile_longest hname hlongest]

theorem not_brace {rest : List Char} (h : ∀ c ∈ rest.head?, c ≠ '{') :
    ¬ (Utf8.encode ('$' :: rest))[1]? = some (byte '{') := by
  rw [encode_ascii (by decide), List.getElem?_cons_succ, ← List.head?_eq_getElem?,
    head_encode (by decide)]
  exact fun hbrace => h '{' hbrace rfl

theorem parseCaptureRef_bare (caps : Captures) {name rest : List Char} (hne : name ≠ [])
    (hname : ∀ c ∈ name, isNameChar c = true) (hlongest : ∀ c ∈ rest.head?, isNameChar c = false) :
    parseCaptureRef (Utf8.encode ('$' :: (name ++ rest))) caps =
      .ok ((Utf8.encode ('$' :: name)).length, groupText caps name) := by
  have hbrace : ∀ c ∈ (name ++ rest).head?, c ≠ '{' := by
    cases name with
    | nil => exact absurd rfl hne
    | cons first name =>
        intro c hc
        cases hc
        rintro rfl
        exact absurd (hname '{' (List.mem_cons_self ..)) (by decide)
  have hsize : 0 < (Utf8.encode name).length := by
    cases name with
    | nil => exact absurd rfl hne
    | cons first name =>
        rw [Utf8.encode_cons_length]
        have hpos := first.utf8Size_pos
        omega
  unfold parseCaptureRef
  rw [if_neg (not_brace hbrace), encode_ascii (by decide), List.drop_succ_cons, List.drop_zero,
    takeWhile_name hname hlongest, if_neg (by omega), Utf8.encode_append, Nat.add_comm,
    List.take_succ_cons, List.take_left, List.drop_succ_cons, List.drop_zero,
    encode_ascii (by decide), List.length_cons]
  exact capture_encode caps name _

theorem parseCaptureRef_lone (caps : Captures) {rest : List Char}
    (h : ∀ c ∈ rest.head?, c ≠ '$' ∧ c ≠ '{' ∧ isNameChar c = false) :
    parseCaptureRef (Utf8.encode ('$' :: rest)) caps = .ok (1, [byte '$']) := by
  have hempty := @takeWhile_name [] rest (fun _ hin => nomatch hin) fun c hc => (h c hc).2.2
  unfold parseCaptureRef
  rw [if_neg (not_brace fun c hc => (h c hc).2.1), encode_ascii (by decide), List.drop_succ_cons,
    List.drop_zero]
  rw [List.nil_append] at hempty
  rw [hempty]
  rfl

/-! ## The loop -/

/-- What the bound leaves of an expansion. -/
def bounded (text : Bytes) : Except Failure Bytes :=
  if text.length ≤ MAX_CAPTURE_BYTES then .ok text else .error (.Error tooLong)

/-- A text that is too long stays so, whatever follows. -/
theorem pushBounded_bind {out chunk more : Bytes} {next : Bytes → Except Failure Bytes}
    (h : (out ++ chunk).length ≤ MAX_CAPTURE_BYTES →
      next (out ++ chunk) = bounded (out ++ chunk ++ more)) :
    (pushBounded out chunk >>= next) = bounded (out ++ (chunk ++ more)) := by
  rw [← List.append_assoc]
  unfold pushBounded
  by_cases hfits : (out ++ chunk).length ≤ MAX_CAPTURE_BYTES
  · rw [if_neg (by rw [← List.length_append]; omega)]
    exact h hfits
  · have hlong : ¬ (out ++ chunk ++ more).length ≤ MAX_CAPTURE_BYTES := by
      rw [List.length_append]
      omega
    rw [if_pos (by rw [← List.length_append]; omega), bounded, if_neg hlong]
    rfl

variable {group : List Char → Bytes} {caps : Captures}

/-- A run without dollars stands for itself. -/
theorem Expands.run {template : List Char} {expansion : Bytes}
    (h : Expands group template expansion) :
    ∃ more, expansion = Utf8.encode (template.takeWhile (· ≠ '$')) ++ more ∧
      Expands group (template.dropWhile (· ≠ '$')) more := by
  induction h with
  | nil => exact ⟨[], rfl, .nil⟩
  | @literal c rest out hplain hrest ih =>
      obtain ⟨more, rfl, hmore⟩ := ih
      have hc : (decide (c ≠ '$')) = true := decide_eq_true hplain
      refine ⟨more, ?_, ?_⟩
      · rw [List.takeWhile_cons, if_pos hc, ← List.append_assoc, ← Utf8.encode_append]
        rfl
      · rw [List.dropWhile_cons, if_pos hc]
        exact hmore
  | dollar hrest ih => exact ⟨_, rfl, .dollar hrest⟩
  | braced hbody hname hrest ih => exact ⟨_, rfl, .braced hbody hname hrest⟩
  | bare hbody hne hname hlongest hrest ih => exact ⟨_, rfl, .bare hbody hne hname hlongest hrest⟩
  | lone hother hrest ih => exact ⟨_, rfl, .lone hother hrest⟩

/-- Behind a piece of the template the loop goes on. -/
theorem expandLoop_behind (front piece rest : List Char) (fuel : Nat) (out : Bytes) :
    expandLoop caps (Utf8.encode (front ++ (piece ++ rest))) fuel
        ((Utf8.encode front).length + (Utf8.encode piece).length) out =
      expandLoop caps (Utf8.encode ((front ++ piece) ++ rest)) fuel
        (Utf8.encode (front ++ piece)).length out := by
  rw [List.append_assoc, Utf8.encode_append front piece, List.length_append]

theorem drop_front (front rest : List Char) :
    (Utf8.encode (front ++ rest)).drop (Utf8.encode front).length = Utf8.encode rest := by
  rw [Utf8.encode_append, List.drop_left]

/-- A run of the template, sliced between two characters. -/
theorem slice_piece (front piece rest : List Char) :
    slice (Utf8.encode (front ++ (piece ++ rest))) (Utf8.encode front).length
      ((Utf8.encode front).length + (Utf8.encode piece).length) = .ok (Utf8.encode piece) := by
  have hstop : (Utf8.encode front).length + (Utf8.encode piece).length =
      (Utf8.encode (front ++ piece)).length := by
    rw [Utf8.encode_append, List.length_append]
  have hbound := boundary (front ++ piece) rest
  rw [List.append_assoc, ← hstop] at hbound
  have htext : Utf8.encode (front ++ (piece ++ rest)) =
      Utf8.encode front ++ Utf8.encode piece ++ Utf8.encode rest := by
    rw [Utf8.encode_append, Utf8.encode_append, List.append_assoc]
  rw [slice, if_pos ⟨Nat.le_add_right _ _, boundary front (piece ++ rest), hbound⟩, htext,
    ← List.length_append, List.take_left, List.drop_left]

/-- One round at a dollar that is no other dollar's. -/
theorem expandLoop_reference {front piece rest : List Char} {fuel : Nat} {out text more : Bytes}
    (hsecond : (piece ++ rest).head? ≠ some '$')
    (href : parseCaptureRef (Utf8.encode ('$' :: (piece ++ rest))) caps =
      .ok ((Utf8.encode ('$' :: piece)).length, text))
    (hnext : (out ++ text).length ≤ MAX_CAPTURE_BYTES →
      expandLoop caps (Utf8.encode ((front ++ '$' :: piece) ++ rest)) fuel
        (Utf8.encode (front ++ '$' :: piece)).length (out ++ text) =
        bounded (out ++ text ++ more)) :
    expandLoop caps (Utf8.encode (front ++ '$' :: (piece ++ rest))) (fuel + 1)
      (Utf8.encode front).length out = bounded (out ++ (text ++ more)) := by
  have hbytes : Utf8.encode ('$' :: (piece ++ rest)) = byte '$' :: Utf8.encode (piece ++ rest) :=
    encode_ascii (by decide) _
  rw [expandLoop, drop_front, hbytes]
  dsimp only
  rw [if_neg (by simp), if_neg (by rw [head_encode (by decide)]; exact hsecond), ← hbytes, href]
  refine pushBounded_bind fun hfits => ?_
  rw [← List.cons_append, expandLoop_behind]
  exact hnext hfits

theorem run_size {c : Char} (hplain : c ≠ '$') (rest : List Char) :
    (Utf8.encode ((c :: rest).dropWhile (· ≠ '$'))).length < (Utf8.encode (c :: rest)).length := by
  have hc : (decide (c ≠ '$')) = true := decide_eq_true hplain
  have hpos := c.utf8Size_pos
  have hsplit := congrArg (fun text => (Utf8.encode text).length)
    (List.takeWhile_append_dropWhile (p := fun c => decide (c ≠ '$')) (l := rest))
  rw [Utf8.encode_append, List.length_append] at hsplit
  rw [List.dropWhile_cons, if_pos hc, Utf8.encode_cons_length]
  omega

/-- One round over a run without dollars. -/
theorem expandLoop_run {c : Char} (hplain : c ≠ '$') (front rest : List Char) (fuel : Nat)
    (out : Bytes) :
    expandLoop caps (Utf8.encode (front ++ c :: rest)) (fuel + 1) (Utf8.encode front).length out =
      (pushBounded out (Utf8.encode ((c :: rest).takeWhile (· ≠ '$'))) >>= fun out =>
        expandLoop caps
          (Utf8.encode ((front ++ (c :: rest).takeWhile (· ≠ '$')) ++
            (c :: rest).dropWhile (· ≠ '$'))) fuel
          (Utf8.encode (front ++ (c :: rest).takeWhile (· ≠ '$'))).length out) := by
  have hclass : ∀ c, ∀ b ∈ String.utf8EncodeChar c,
      (decide (b ≠ byte '$')) = decide (c ≠ '$') := by
    intro c b hin
    exact decide_eq_decide.2 (not_congr (Utf8.encodeChar_eq_ascii (by decide) hin))
  have hrun := Utf8.takeWhile_encode hclass (c :: rest)
  have hsplit : (c :: rest).takeWhile (· ≠ '$') ++ (c :: rest).dropWhile (· ≠ '$') = c :: rest :=
    List.takeWhile_append_dropWhile
  have hslice := slice_piece front ((c :: rest).takeWhile (· ≠ '$'))
    ((c :: rest).dropWhile (· ≠ '$'))
  rw [hsplit] at hslice
  rw [expandLoop, drop_front]
  cases hbytes : Utf8.encode (c :: rest) with
  | nil =>
      have hpos := run_size hplain rest
      rw [hbytes] at hpos
      exact absurd hpos (Nat.not_lt_zero _)
  | cons first bytes =>
      have hfirst : first ≠ byte '$' := by
        have hhead := @head_encode '$' (by decide) (c :: rest)
        rw [hbytes] at hhead
        rintro rfl
        exact hplain (Option.some.inj (hhead.1 rfl))
      dsimp only
      rw [if_pos hfirst, ← hbytes, hrun, hslice]
      show (pushBounded out _ >>= fun out => _) = _
      congr 1
      funext out
      rw [← expandLoop_behind, hsplit]

/-- The loop writes what the rest of the template becomes. -/
theorem expandLoop_eq {rest : List Char} {expansion : Bytes}
    (h : Expands (groupText caps) rest expansion) (front : List Char) (fuel : Nat) (out : Bytes)
    (hfuel : (Utf8.encode rest).length ≤ fuel) (hout : out.length ≤ MAX_CAPTURE_BYTES) :
    expandLoop caps (Utf8.encode (front ++ rest)) fuel (Utf8.encode front).length out =
      bounded (out ++ expansion) := by
  have hdone (out : Bytes) (hout : out.length ≤ MAX_CAPTURE_BYTES) :
      (.ok out : Except Failure Bytes) = bounded (out ++ []) := by
    rw [List.append_nil, bounded, if_pos hout]
  induction fuel generalizing rest expansion front out with
  | zero =>
      cases rest with
      | nil =>
          cases h
          exact hdone out hout
      | cons c rest =>
          have hpos := c.utf8Size_pos
          rw [Utf8.encode_cons_length] at hfuel
          omega
  | succ fuel ih =>
      cases h with
      | nil =>
          rw [expandLoop, drop_front]
          exact hdone out hout
      | @literal c rest tail hplain hrest =>
          obtain ⟨more, hexpansion, hmore⟩ := (Expands.literal hplain hrest).run
          have hrun := @expandLoop_run caps c hplain front rest fuel out
          rw [hexpansion, hrun]
          refine pushBounded_bind fun hfits => ?_
          refine ih hmore _ _ ?_ hfits
          have hsize := run_size hplain rest
          omega
      | @dollar rest tail hrest =>
          have hbytes : Utf8.encode ('$' :: '$' :: rest) =
              byte '$' :: byte '$' :: Utf8.encode rest := by
            rw [encode_ascii (by decide), encode_ascii (by decide)]
          rw [expandLoop, drop_front, hbytes]
          dsimp only
          rw [if_neg (by simp), List.head?_cons, if_pos rfl]
          refine pushBounded_bind fun hfits => ?_
          have hbehind := @expandLoop_behind caps front ['$', '$'] rest fuel (out ++ [byte '$'])
          rw [List.cons_append, List.singleton_append] at hbehind
          refine hbehind.trans (ih hrest _ _ ?_ hfits)
          rw [hbytes, List.length_cons, List.length_cons] at hfuel
          omega
      | @braced body name rest tail hbody hname hrest =>
          subst hbody
          have href := parseCaptureRef_braced caps hname rest
          have hassoc : '{' :: (name ++ '}' :: rest) = '{' :: (name ++ ['}']) ++ rest := by simp
          rw [hassoc] at href hfuel ⊢
          refine expandLoop_reference (by simp) href fun hfits => ih hrest _ _ ?_ hfits
          rw [encode_ascii (by decide), Utf8.encode_append, List.length_cons,
            List.length_append] at hfuel
          omega
      | @bare body name rest tail hbody hne hname hlongest hrest =>
          subst hbody
          have hsecond : (name ++ rest).head? ≠ some '$' := by
            cases name with
            | nil => exact absurd rfl hne
            | cons first name =>
                intro heq
                have hfirst : first = '$' := Option.some.inj heq
                exact absurd (hname first (List.mem_cons_self ..)) (by rw [hfirst]; decide)
          refine expandLoop_reference hsecond (parseCaptureRef_bare caps hne hname hlongest)
            fun hfits => ih hrest _ _ ?_ hfits
          rw [encode_ascii (by decide), Utf8.encode_append, List.length_cons,
            List.length_append] at hfuel
          omega
      | @lone rest tail hother hrest =>
          have hsecond : ([] ++ rest).head? ≠ some '$' := fun heq => (hother '$' heq).1 rfl
          refine expandLoop_reference hsecond (parseCaptureRef_lone caps hother)
            fun hfits => ih hrest _ _ ?_ hfits
          rw [encode_ascii (by decide), List.length_cons] at hfuel
          omega

/-! ## One expansion -/

theorem run_unique {p : Char → Bool} {name other rest more : List Char}
    (heq : name ++ rest = other ++ more) (hname : ∀ c ∈ name, p c = true)
    (hother : ∀ c ∈ other, p c = true) (hrest : ∀ c ∈ rest.head?, p c = false)
    (hmore : ∀ c ∈ more.head?, p c = false) : name = other ∧ rest = more := by
  have hsame : name = other := by
    rw [← takeWhile_longest hname hrest, heq, takeWhile_longest hother hmore]
  subst hsame
  exact ⟨rfl, List.append_cancel_left heq⟩

/-- A name's first character is no dollar and no brace. -/
theorem name_head {body name rest : List Char} (hbody : body = name ++ rest) (hne : name ≠ [])
    (hname : ∀ c ∈ name, isNameChar c = true) : ∃ c ∈ body.head?, isNameChar c = true := by
  cases name with
  | nil => exact absurd rfl hne
  | cons c name => exact ⟨c, by rw [hbody]; rfl, hname c (List.mem_cons_self ..)⟩

theorem Expands.unique {template : List Char} {first second : Bytes}
    (hfirst : Expands group template first) (hsecond : Expands group template second) :
    first = second := by
  induction hfirst generalizing second with
  | nil =>
      cases hsecond
      rfl
  | literal hplain hrest ih =>
      cases hsecond with
      | literal _ hrest' => rw [ih hrest']
      | dollar => exact absurd rfl hplain
      | braced => exact absurd rfl hplain
      | bare => exact absurd rfl hplain
      | lone => exact absurd rfl hplain
  | dollar hrest ih =>
      cases hsecond with
      | literal hplain => exact absurd rfl hplain
      | dollar hrest' => rw [ih hrest']
      | bare hbody hne hname =>
          obtain ⟨c, hc, hclass⟩ := name_head hbody hne hname
          cases hc
          exact absurd hclass (by decide)
      | lone hother => exact absurd rfl (hother '$' rfl).1
  | braced hbody hname hrest ih =>
      cases hsecond with
      | literal hplain => exact absurd rfl hplain
      | braced hbody' hname' hrest' =>
          have hopen {name : List Char} (hname : '}' ∉ name) :
              ∀ c ∈ name, decide (c ≠ '}') = true :=
            fun c hc => decide_eq_true fun heq => hname (heq ▸ hc)
          have hclose {rest : List Char} :
              ∀ c ∈ ('}' :: rest).head?, decide (c ≠ '}') = false := by
            rintro c ⟨⟩
            decide
          obtain ⟨rfl, hrests⟩ :=
            run_unique (hbody.symm.trans hbody') (hopen hname) (hopen hname') hclose hclose
          cases hrests
          rw [ih hrest']
      | bare hbody' hne hname' =>
          obtain ⟨c, hc, hclass⟩ := name_head hbody' hne hname'
          cases hc
          exact absurd hclass (by decide)
      | lone hother => exact absurd rfl (hother '{' rfl).2.1
  | bare hbody hne hname hlongest hrest ih =>
      obtain ⟨c, hc, hclass⟩ := name_head hbody hne hname
      cases hsecond with
      | literal hplain => exact absurd rfl hplain
      | dollar =>
          cases hc
          exact absurd hclass (by decide)
      | braced =>
          cases hc
          exact absurd hclass (by decide)
      | bare hbody' _ hname' hlongest' hrest' =>
          obtain ⟨rfl, rfl⟩ :=
            run_unique (hbody.symm.trans hbody') hname hname' hlongest hlongest'
          rw [ih hrest']
      | lone hother =>
          rw [(hother c hc).2.2] at hclass
          exact absurd hclass (by decide)
  | lone hother hrest ih =>
      cases hsecond with
      | literal hplain => exact absurd rfl hplain
      | dollar => exact absurd rfl (hother '$' rfl).1
      | braced => exact absurd rfl (hother '{' rfl).2.1
      | bare hbody hne hname =>
          obtain ⟨c, hc, hclass⟩ := name_head hbody hne hname
          rw [(hother c hc).2.2] at hclass
          exact absurd hclass (by decide)
      | lone _ hrest' => rw [ih hrest']

theorem Closed.behind {piece rest : List Char} (h : Closed (piece ++ rest)) : Closed rest := by
  rintro front more rfl
  exact h (piece ++ front) more (by rw [List.append_assoc])

theorem exists_expands (group : List Char → Bytes) {template : List Char} (h : Closed template) :
    ∃ expansion, Expands group template expansion := by
  generalize hlength : template.length = length
  induction length using Nat.strongRecOn generalizing template with
  | ind length ih =>
      have hshorter {piece rest : List Char} (heq : template = piece ++ rest)
          (hpiece : piece ≠ []) : ∃ expansion, Expands group rest expansion := by
        subst heq
        have hpos := List.length_pos_iff.2 hpiece
        rw [List.length_append] at hlength
        exact ih rest.length (by omega) h.behind rfl
      cases template with
      | nil => exact ⟨[], .nil⟩
      | cons c rest =>
          by_cases hc : c = '$'
          · subst hc
            cases rest with
            | nil => exact ⟨_, .lone (fun _ hnone => nomatch hnone) .nil⟩
            | cons second rest =>
                by_cases hdollar : second = '$'
                · subst hdollar
                  obtain ⟨out, hout⟩ := @hshorter ['$', '$'] rest rfl (by simp)
                  exact ⟨_, .dollar hout⟩
                by_cases hbrace : second = '{'
                · subst hbrace
                  obtain ⟨name, more, rfl, hname⟩ :=
                    List.eq_append_cons_of_mem (h [] rest rfl)
                  obtain ⟨out, hout⟩ := @hshorter ('$' :: '{' :: (name ++ ['}'])) more
                    (by simp) (by simp)
                  exact ⟨_, .braced rfl hname hout⟩
                by_cases hname : isNameChar second = true
                · have hsplit : (second :: rest).takeWhile isNameChar ++
                      (second :: rest).dropWhile isNameChar = second :: rest :=
                    List.takeWhile_append_dropWhile
                  obtain ⟨out, hout⟩ := @hshorter
                    ('$' :: (second :: rest).takeWhile isNameChar)
                    ((second :: rest).dropWhile isNameChar)
                    (by rw [List.cons_append, hsplit]) (by simp)
                  refine ⟨_, .bare hsplit.symm ?_ (fun c hc => List.mem_takeWhile_imp hc) ?_ hout⟩
                  · rw [List.takeWhile_cons, if_pos hname]
                    exact List.cons_ne_nil _ _
                  · intro c hc
                    have hstop := List.head?_dropWhile_not isNameChar (second :: rest)
                    rw [hc] at hstop
                    exact hstop
                · obtain ⟨out, hout⟩ := @hshorter ['$'] (second :: rest) rfl (by simp)
                  refine ⟨_, .lone (fun c hc => ?_) hout⟩
                  cases hc
                  exact ⟨hdollar, hbrace, Bool.not_eq_true _ ▸ hname⟩
          · obtain ⟨out, hout⟩ := @hshorter [c] rest rfl (by simp)
            exact ⟨_, .literal hc hout⟩

theorem expands_doubled (group : List Char → Bytes) (text : List Char) :
    Expands group (doubled text) (Utf8.encode text) := by
  induction text with
  | nil => exact .nil
  | cons c text ih =>
      have hencode : Utf8.encode (c :: text) = Utf8.encode [c] ++ Utf8.encode text :=
        Utf8.encode_append [c] text
      rw [hencode, doubled, List.flatMap_cons]
      by_cases hc : c = '$'
      · subst hc
        exact .dollar ih
      · rw [if_neg hc]
        exact .literal hc ih

/-! ## Expansion -/

theorem expandCaptures_eq {template : List Char} {expansion : Bytes}
    (h : Expands (groupText caps) template expansion) :
    expandCaptures caps (Utf8.encode template) = bounded expansion := by
  have hloop := expandLoop_eq h [] (Utf8.encode template).length [] (Nat.le_refl _)
    (Nat.zero_le _)
  rwa [List.nil_append, List.nil_append] at hloop

/-- A template whose braces are closed has one expansion, and that is what the
scanner writes, up to the bound; a text whose dollars are doubled expands to
itself. -/
theorem expandCaptures_documented (caps : Captures) :
    (∀ template, Closed template → ∃ expansion,
      (∀ out, Expands (groupText caps) template out ↔ out = expansion) ∧
        expandCaptures caps (Utf8.encode template) =
          if expansion.length ≤ MAX_CAPTURE_BYTES then .ok expansion
          else .error (.Error tooLong)) ∧
    ∀ text, expandCaptures caps (Utf8.encode (doubled text)) =
      if (Utf8.encode text).length ≤ MAX_CAPTURE_BYTES then .ok (Utf8.encode text)
      else .error (.Error tooLong) := by
  refine ⟨fun template hclosed => ?_, fun text => expandCaptures_eq (expands_doubled _ text)⟩
  obtain ⟨expansion, hexpansion⟩ := exists_expands (groupText caps) hclosed
  refine ⟨expansion, fun out => ⟨fun hout => hout.unique hexpansion, ?_⟩,
    expandCaptures_eq hexpansion⟩
  rintro rfl
  exact hexpansion

/-- A match `ab` whose first group is `b`. -/
def twoGroups : Captures where
  groups := [some (Utf8.encode ['a', 'b']), some (Utf8.encode ['b'])]
  names := []
  count := by decide
  named := fun _ h => nomatch h

/-- `${+1}` is taken for a number, though its name is not of digits only. -/
theorem plus_is_number : Closed "${+1}".toList ∧
    (∀ out, Expands (documentedGroup twoGroups) "${+1}".toList out → out = []) ∧
    expandCaptures twoGroups (Utf8.encode "${+1}".toList) = .ok (Utf8.encode ['b']) := by
  have hexpands (group : List Char → Bytes) :
      Expands group "${+1}".toList (group ['+', '1'] ++ []) :=
    @Expands.braced group ['+', '1', '}'] ['+', '1'] [] [] rfl (by decide) .nil
  refine ⟨fun front rest heq => ?_, fun out hout => ?_, ?_⟩
  · cases front with
    | nil =>
        cases heq
        decide
    | cons c front =>
        have htail : ['{', '+', '1', '}'] = front ++ '$' :: '{' :: rest := (List.cons.inj heq).2
        have hdollar : '$' ∈ ['{', '+', '1', '}'] := by
          rw [htail]
          simp
        exact absurd hdollar (by decide)
  · exact hout.unique (hexpands _)
  · rw [expandCaptures_eq (hexpands _)]
    rfl

end MCode.Edit.Template
