import MCode.Files.Window
import MCode.Tools.Stream

/-!
# The lines of an edit

`locate_line_range` of `mcode-tools/src/builtin/edit/line.rs` finds the bytes of
a range of lines in one scan, in which CR, LF and CRLF each end a line.  A read
numbers the lines of `str::lines`, where a carriage return alone ends none, and
an empty text has no line where an edit has one.

The scan is compared with the ranges that it passes, and these with the lines:
reads and edits number the lines of a text alike unless it is empty or has a
carriage return without a line feed behind it.
-/

namespace MCode.Files

open MCode.Tools

/-! ## The source's functions -/

/-- `line_terminator_len`, of the bytes from the index on. -/
def lineTerminatorLen : Bytes → Nat
  | [] => 0
  | byte :: rest =>
      if byte = CR ∧ rest.head? = some LF then 2
      else if byte = CR ∨ byte = LF then 1
      else 0

/-- The variables of the scan. -/
structure Scan where
  targetStart : Option Nat
  targetEnd : Option Nat
  lineNo : Nat
  lineStart : Nat
  index : Nat

def Scan.start : Scan := ⟨none, none, 0, 0, 0⟩

/-- A line has ended with a terminator of this length. -/
def Scan.terminate (self : Scan) (startLine endLine termLen : Nat) : Scan :=
  { targetStart := if self.lineNo + 1 = startLine then some self.lineStart else self.targetStart
    targetEnd :=
      if self.lineNo + 1 = endLine then some (self.index + termLen) else self.targetEnd
    lineNo := self.lineNo + 1
    lineStart := self.index + termLen
    index := self.index + termLen }

def Scan.advance (self : Scan) : Scan := { self with index := self.index + 1 }

/-- The loop, over the bytes from the index on. -/
def scanLines (startLine endLine : Nat) : Bytes → Scan → Scan
  | [], self => self
  | [byte], self =>
      if lineTerminatorLen [byte] = 0 then self.advance
      else self.terminate startLine endLine (lineTerminatorLen [byte])
  | byte :: next :: rest, self =>
      match lineTerminatorLen (byte :: next :: rest) with
      | 0 => scanLines startLine endLine (next :: rest) self.advance
      | 1 => scanLines startLine endLine (next :: rest) (self.terminate startLine endLine 1)
      | termLen => scanLines startLine endLine rest (self.terminate startLine endLine termLen)

/-- The last line, when it has no terminator. -/
def Scan.finish (self : Scan) (startLine endLine length : Nat) : Scan :=
  if self.lineStart < length then
    { self with
      targetStart :=
        if self.lineNo + 1 = startLine then some self.lineStart else self.targetStart
      targetEnd := if self.lineNo + 1 = endLine then some length else self.targetEnd }
  else self

/-- `total_lines` of the message; the lines that are counted do not depend on the
range. -/
def editTotalLines (text : Bytes) : Nat :=
  let scan := scanLines 0 0 text .start
  if text = [] then 1
  else scan.lineNo + if scan.lineStart < text.length then 1 else 0

def locateLineRange (text : Bytes) (startLine endLine : Nat) : Except ToolError (Nat × Nat) :=
  let scan := (scanLines startLine endLine text .start).finish startLine endLine text.length
  let outside := ToolError.Execution ("line_range " ++ toString startLine ++ "-" ++
    toString endLine ++ " is outside the file (" ++ toString (editTotalLines text) ++ " lines)")
  if text = [] ∧ startLine = 1 ∧ endLine = 1 then .ok (0, 0)
  else
    match scan.targetStart, scan.targetEnd with
    | some start, some stop => if start ≤ stop then .ok (start, stop) else .error outside
    | _, _ => .error outside

/-! ## The ranges that the scan passes -/

/-- A byte ends its line, with what follows it. -/
def endsLine (byte : UInt8) (rest : Bytes) : Bool :=
  byte = LF || byte = CR && rest.head? ≠ some LF

/-- The ranges of the lines with a terminator from `index` on, the first of which
starts at `lineStart`, and the start of what follows them. -/
def closedRanges (lineStart index : Nat) : Bytes → List (Nat × Nat) × Nat
  | [] => ([], lineStart)
  | byte :: rest =>
      if endsLine byte rest then
        ((lineStart, index + 1) :: (closedRanges (index + 1) (index + 1) rest).1,
          (closedRanges (index + 1) (index + 1) rest).2)
      else closedRanges lineStart (index + 1) rest

/-- The ranges of all lines. -/
def lineRanges (text : Bytes) : List (Nat × Nat) :=
  (closedRanges 0 0 text).1 ++
    if (closedRanges 0 0 text).2 < text.length then
      [((closedRanges 0 0 text).2, text.length)]
    else []

/-- The line with this number, among lines of which the first is the next one. -/
def numbered {α : Type*} (lineNo : Nat) (all : List α) (wanted : Nat) : Option α :=
  if lineNo < wanted then all[wanted - lineNo - 1]? else none

@[simp] theorem numbered_nil {α : Type*} (lineNo wanted : Nat) :
    numbered lineNo ([] : List α) wanted = none := by
  simp [numbered]

theorem numbered_cons {α : Type*} (lineNo : Nat) (first : α) (rest : List α) (wanted : Nat) :
    numbered lineNo (first :: rest) wanted =
      if lineNo + 1 = wanted then some first else numbered (lineNo + 1) rest wanted := by
  unfold numbered
  by_cases hfirst : lineNo + 1 = wanted
  · subst hfirst
    rw [if_pos (Nat.lt_succ_self _), if_pos rfl, Nat.add_sub_cancel_left]
    rfl
  · rw [if_neg hfirst]
    by_cases hlt : lineNo + 1 < wanted
    · obtain ⟨more, hmore⟩ : ∃ more, wanted - lineNo - 1 = more + 1 := ⟨wanted - lineNo - 2, by omega⟩
      have hrest : wanted - (lineNo + 1) - 1 = more := by omega
      rw [if_pos hlt, if_pos (by omega), hmore, hrest, List.getElem?_cons_succ]
    · rw [if_neg hlt, if_neg (by omega)]

/-- The scan of the rest of a text. -/
structure Scanned (startLine endLine : Nat) (before after : Scan)
    (closed : List (Nat × Nat) × Nat) (length : Nat) : Prop where
  targetStart : after.targetStart =
    ((numbered before.lineNo closed.1 startLine).map Prod.fst).or before.targetStart
  targetEnd : after.targetEnd =
    ((numbered before.lineNo closed.1 endLine).map Prod.snd).or before.targetEnd
  lineNo : after.lineNo = before.lineNo + closed.1.length
  lineStart : after.lineStart = closed.2
  index : after.index = before.index + length

theorem lineTerminatorLen_eq (byte : UInt8) (rest : Bytes) :
    (endsLine byte rest = true ∧ lineTerminatorLen (byte :: rest) = 1) ∨
    (endsLine byte rest = false ∧ byte = CR ∧ rest.head? = some LF ∧
      lineTerminatorLen (byte :: rest) = 2) ∨
    (endsLine byte rest = false ∧ byte ≠ CR ∧ byte ≠ LF ∧
      lineTerminatorLen (byte :: rest) = 0) := by
  have hne : CR ≠ LF := by decide
  unfold endsLine lineTerminatorLen
  by_cases hlf : byte = LF
  · subst hlf
    simp [Ne.symm hne]
  · by_cases hcr : byte = CR
    · subst hcr
      by_cases hhead : rest.head? = some LF
      · simp [hhead, hne]
      · simp [hhead]
    · simp [hlf, hcr]

theorem Scanned.refl (startLine endLine : Nat) (self : Scan) :
    Scanned startLine endLine self self ([], self.lineStart) 0 := by
  constructor <;> simp

theorem numbered_self {α : Type*} (lineNo : Nat) (all : List α) :
    numbered lineNo all lineNo = none := if_neg (Nat.lt_irrefl _)

/-- The target that a terminator sets is that of its line. -/
theorem numbered_terminate {α : Type*} (lineNo wanted : Nat) (range : Nat × Nat)
    (closed : List (Nat × Nat)) (part : Nat × Nat → α) (old : Option α) :
    ((numbered (lineNo + 1) closed wanted).map part).or
        (if lineNo + 1 = wanted then some (part range) else old) =
      ((numbered lineNo (range :: closed) wanted).map part).or old := by
  rw [numbered_cons]
  by_cases hfirst : lineNo + 1 = wanted
  · subst hfirst
    rw [numbered_self, if_pos rfl, if_pos rfl]
    rfl
  · rw [if_neg hfirst, if_neg hfirst]

theorem Scanned.terminate {startLine endLine termLen length : Nat} {self after : Scan}
    {closed : List (Nat × Nat) × Nat}
    (h : Scanned startLine endLine (self.terminate startLine endLine termLen) after closed
      length) :
    Scanned startLine endLine self after
      ((self.lineStart, self.index + termLen) :: closed.1, closed.2) (length + termLen) where
  targetStart := by
    rw [h.targetStart]
    exact numbered_terminate self.lineNo startLine (self.lineStart, self.index + termLen) closed.1
      Prod.fst self.targetStart
  targetEnd := by
    rw [h.targetEnd]
    exact numbered_terminate self.lineNo endLine (self.lineStart, self.index + termLen) closed.1
      Prod.snd self.targetEnd
  lineNo := by
    rw [h.lineNo, List.length_cons]
    simp only [Scan.terminate]
    omega
  lineStart := h.lineStart
  index := by
    rw [h.index]
    simp only [Scan.terminate]
    omega

theorem Scanned.advance {startLine endLine length : Nat} {self after : Scan}
    {closed : List (Nat × Nat) × Nat}
    (h : Scanned startLine endLine self.advance after closed length) :
    Scanned startLine endLine self after closed (length + 1) where
  targetStart := h.targetStart
  targetEnd := h.targetEnd
  lineNo := h.lineNo
  lineStart := h.lineStart
  index := by
    rw [h.index]
    simp only [Scan.advance]
    omega

/-- The scan finds the ranges. -/
theorem scanLines_spec (startLine endLine : Nat) (rest : Bytes) (self : Scan) :
    Scanned startLine endLine self (scanLines startLine endLine rest self)
      (closedRanges self.lineStart self.index rest) rest.length := by
  induction rest, self using scanLines.induct startLine endLine with
  | case1 self => exact Scanned.refl ..
  | case2 byte self hnone =>
      rw [scanLines, if_pos hnone, closedRanges]
      cases lineTerminatorLen_eq byte [] with
      | inl hone => exact absurd (hone.2.symm.trans hnone) (by decide)
      | inr hrest =>
          cases hrest with
          | inl htwo => exact absurd (htwo.2.2.2.symm.trans hnone) (by decide)
          | inr hzero =>
              rw [if_neg (by simp [hzero.1])]
              exact (Scanned.refl startLine endLine self.advance).advance
  | case3 byte self hsome =>
      rw [scanLines, if_neg hsome, closedRanges]
      cases lineTerminatorLen_eq byte [] with
      | inl hone =>
          rw [if_pos hone.1, hone.2]
          exact (Scanned.refl startLine endLine _).terminate
      | inr hrest =>
          cases hrest with
          | inl htwo => exact absurd htwo.2.2.1 (by simp)
          | inr hzero => exact absurd hzero.2.2.2 hsome
  | case4 byte next rest self hlen ih =>
      rw [scanLines, hlen, closedRanges]
      cases lineTerminatorLen_eq byte (next :: rest) with
      | inl hone => exact absurd (hone.2.symm.trans hlen) (by decide)
      | inr hrest =>
          cases hrest with
          | inl htwo => exact absurd (htwo.2.2.2.symm.trans hlen) (by decide)
          | inr hzero =>
              rw [if_neg (by simp [hzero.1])]
              exact ih.advance
  | case5 byte next rest self hlen ih =>
      rw [scanLines, hlen, closedRanges]
      cases lineTerminatorLen_eq byte (next :: rest) with
      | inl hone =>
          rw [if_pos hone.1]
          exact ih.terminate
      | inr hrest =>
          cases hrest with
          | inl htwo => exact absurd (htwo.2.2.2.symm.trans hlen) (by decide)
          | inr hzero => exact absurd (hzero.2.2.2.symm.trans hlen) (by decide)
  | case6 byte next rest self hzero hone ih =>
      -- the two bytes of a CRLF end one line
      cases lineTerminatorLen_eq byte (next :: rest) with
      | inl hlen => exact absurd hlen.2 hone
      | inr hrest =>
          cases hrest with
          | inr hlen => exact absurd hlen.2.2.2 hzero
          | inl htwo =>
              obtain ⟨hopen, hcr, hnext, hlen⟩ := htwo
              have hlf : next = LF := Option.some.inj hnext
              have hends : endsLine next rest = true := by simp [endsLine, hlf]
              rw [hlen] at ih
              rw [scanLines, hlen, closedRanges, if_neg (by simp [hopen]), closedRanges,
                if_pos hends]
              exact ih.terminate

theorem numbered_append {α : Type*} (lineNo : Nat) (first second : List α) (wanted : Nat) :
    numbered lineNo (first ++ second) wanted =
      (numbered lineNo first wanted).or (numbered (lineNo + first.length) second wanted) := by
  induction first generalizing lineNo with
  | nil => simp
  | cons head first ih =>
      rw [List.cons_append, numbered_cons, numbered_cons, ih, List.length_cons,
        Nat.add_assoc, Nat.add_comm 1]
      split <;> rfl

theorem numbered_snoc {α β : Type*} (all : List α) (last : α) (part : α → β) (wanted : Nat) :
    (numbered 0 (all ++ [last]) wanted).map part =
      if all.length + 1 = wanted then some (part last) else (numbered 0 all wanted).map part := by
  rw [numbered_append, numbered_cons, numbered_nil, Nat.zero_add]
  by_cases hlast : all.length + 1 = wanted
  · have hout : numbered 0 all wanted = none := by
      unfold numbered
      rw [if_pos (by omega), List.getElem?_eq_none (by omega)]
    rw [if_pos hlast, if_pos hlast, hout]
    rfl
  · rw [if_neg hlast, if_neg hlast, Option.or_none]

/-- The targets of a finished scan are the ends of its lines. -/
theorem finish_spec (text : Bytes) (startLine endLine : Nat) :
    ((scanLines startLine endLine text .start).finish startLine endLine text.length).targetStart =
      (numbered 0 (lineRanges text) startLine).map Prod.fst ∧
    ((scanLines startLine endLine text .start).finish startLine endLine text.length).targetEnd =
      (numbered 0 (lineRanges text) endLine).map Prod.snd := by
  have hscan : Scanned startLine endLine .start (scanLines startLine endLine text .start)
      (closedRanges 0 0 text) text.length := scanLines_spec startLine endLine text .start
  unfold lineRanges
  generalize scanLines startLine endLine text .start = scan at hscan ⊢
  generalize closedRanges 0 0 text = closed at hscan ⊢
  have hstart : scan.targetStart = (numbered 0 closed.1 startLine).map Prod.fst := by
    rw [hscan.targetStart]
    exact Option.or_none
  have hend : scan.targetEnd = (numbered 0 closed.1 endLine).map Prod.snd := by
    rw [hscan.targetEnd]
    exact Option.or_none
  have hno : scan.lineNo = closed.1.length := by
    rw [hscan.lineNo]
    exact Nat.zero_add _
  unfold Scan.finish
  rw [hscan.lineStart]
  by_cases hpartial : closed.2 < text.length
  · rw [if_pos hpartial, if_pos hpartial, numbered_snoc, numbered_snoc, hno, hstart, hend]
    exact ⟨rfl, rfl⟩
  · rw [if_neg hpartial, if_neg hpartial, List.append_nil]
    exact ⟨hstart, hend⟩

theorem totalLines_eq {text : Bytes} (hne : text ≠ []) :
    editTotalLines text = (lineRanges text).length := by
  have hscan : Scanned 0 0 .start (scanLines 0 0 text .start) (closedRanges 0 0 text)
      text.length := scanLines_spec 0 0 text .start
  have hno : (scanLines 0 0 text .start).lineNo = (closedRanges 0 0 text).1.length := by
    rw [hscan.lineNo]
    exact Nat.zero_add _
  rw [editTotalLines, if_neg hne, hno, hscan.lineStart, lineRanges, List.length_append]
  split <;> rfl

/-! ## The lines of the ranges -/

/-- The bytes of a range. -/
def slice (text : Bytes) (range : Nat × Nat) : Bytes := (text.take range.2).drop range.1

/-- The lines with their terminators, behind the front of the first one. -/
def rawLines (front : Bytes) : Bytes → List Bytes
  | [] => if front = [] then [] else [front]
  | byte :: rest =>
      if endsLine byte rest then (front ++ [byte]) :: rawLines [] rest
      else rawLines (front ++ [byte]) rest

theorem slice_middle (done line rest : Bytes) :
    slice (done ++ line ++ rest) (done.length, done.length + line.length) = line := by
  rw [slice, List.take_append_of_le_length (by simp),
    List.take_of_length_le (by simp), List.drop_left]

/-- The ranges hold the lines, from any line start on. -/
theorem closedRanges_slices (done front rest : Bytes) :
    let text := done ++ front ++ rest
    let closed := closedRanges done.length (done.length + front.length) rest
    (closed.1 ++ if closed.2 < text.length then [(closed.2, text.length)] else []).map
        (slice text) = rawLines front rest ∧
      ∀ range ∈ closed.1, range.1 ≤ range.2 := by
  induction rest generalizing done front with
  | nil =>
      dsimp only [closedRanges]
      refine ⟨?_, nofun⟩
      rw [rawLines]
      cases front with
      | nil => simp
      | cons byte front =>
          have hslice := slice_middle done (byte :: front) []
          rw [if_pos (by simp), if_neg (by simp)]
          simpa using hslice
  | cons byte rest ih =>
      dsimp only
      rw [closedRanges, rawLines]
      by_cases hends : endsLine byte rest = true
      · obtain ⟨hlines, hranges⟩ := ih (done ++ front ++ [byte]) []
        have hlen : (done ++ front ++ [byte]).length = done.length + front.length + 1 := by
          simp
          omega
        have htext : done ++ front ++ [byte] ++ [] ++ rest = done ++ front ++ byte :: rest := by
          simp
        rw [htext, hlen, List.length_nil, Nat.add_zero] at hlines
        rw [hlen, List.length_nil, Nat.add_zero] at hranges
        rw [if_pos hends, if_pos hends]
        refine ⟨?_, ?_⟩
        · have hslice := slice_middle done (front ++ [byte]) rest
          rw [List.length_append, List.length_singleton, ← Nat.add_assoc, List.append_assoc,
            List.append_assoc, List.singleton_append, ← List.append_assoc] at hslice
          rw [List.cons_append, List.map_cons, hslice, hlines]
        · intro range hin
          cases List.mem_cons.1 hin with
          | inl hfirst =>
              rw [hfirst]
              show done.length ≤ done.length + front.length + 1
              omega
          | inr hin => exact hranges range hin
      · have hmore := ih done (front ++ [byte])
        have htext : done ++ (front ++ [byte]) ++ rest = done ++ front ++ byte :: rest := by simp
        rw [htext, List.length_append, List.length_singleton, ← Nat.add_assoc] at hmore
        rw [if_neg hends, if_neg hends]
        exact hmore

theorem lineRanges_slices (text : Bytes) :
    (lineRanges text).map (slice text) = rawLines [] text ∧
      ∀ range ∈ lineRanges text, range.1 ≤ range.2 := by
  obtain ⟨hlines, hranges⟩ := closedRanges_slices [] [] text
  refine ⟨hlines, fun range hin => ?_⟩
  cases List.mem_append.1 hin with
  | inl hclosed => exact hranges range hclosed
  | inr hlast =>
      split at hlast
      · rename_i hlt
        rw [List.mem_singleton.1 hlast]
        exact Nat.le_of_lt hlt
      · cases hlast

/-- The bytes that an edit of one line selects. -/
theorem locateLineRange_line {text : Bytes} (hne : text ≠ []) (n : Nat) :
    (∃ range, numbered 0 (lineRanges text) n = some range ∧
      locateLineRange text n n = .ok range) ∨
    (numbered 0 (lineRanges text) n = none ∧ ∃ err, locateLineRange text n n = .error err) := by
  obtain ⟨hstart, hend⟩ := finish_spec text n n
  unfold locateLineRange
  dsimp only
  rw [if_neg fun h => hne h.1, hstart, hend]
  cases hnumbered : numbered 0 (lineRanges text) n with
  | none => exact Or.inr ⟨rfl, _, rfl⟩
  | some range =>
      have hin : range ∈ lineRanges text := by
        unfold numbered at hnumbered
        split at hnumbered
        · exact List.mem_of_getElem? hnumbered
        · cases hnumbered
      exact Or.inl ⟨range, rfl, if_pos ((lineRanges_slices text).2 range hin)⟩

/-! ## What the lines hold -/

def dropCr (line : Bytes) : Bytes := if line.getLast? = some CR then line.dropLast else line

/-- The content of a line: LF, CRLF or CR at its end is its terminator. -/
def withoutTerminator (line : Bytes) : Bytes :=
  if line.getLast? = some LF then dropCr line.dropLast else dropCr line

/-- The lines without their terminators, when a CR alone ends a line too. -/
def contents : Bytes → List Bytes
  | [] => []
  | byte :: rest =>
      if endsLine byte rest then [] :: contents rest
      else if byte = CR then contents rest
      else pushByte byte (contents rest)

/-- Lines with more at the front of the first one. -/
def pushFront (front : Bytes) : List Bytes → List Bytes
  | [] => if front = [] then [] else [front]
  | line :: lines => (front ++ line) :: lines

theorem pushFront_nil (all : List Bytes) : pushFront [] all = all := by
  cases all <;> rfl

theorem pushFront_pushByte (front : Bytes) (byte : UInt8) (all : List Bytes) :
    pushFront front (pushByte byte all) = pushFront (front ++ [byte]) all := by
  cases all with
  | nil => simp [pushByte, pushFront]
  | cons line all => simp [pushByte, pushFront]

/-- No byte of a text ends a line. -/
def Unbroken (text : Bytes) : Prop := ∀ byte ∈ text, byte ≠ CR ∧ byte ≠ LF

theorem Unbroken.snoc {text : Bytes} (h : Unbroken text) {byte : UInt8} (hcr : byte ≠ CR)
    (hlf : byte ≠ LF) : Unbroken (text ++ [byte]) := by
  intro other hin
  cases List.mem_append.1 hin with
  | inl hin => exact h other hin
  | inr hlast =>
      rw [List.mem_singleton.1 hlast]
      exact ⟨hcr, hlf⟩

theorem Unbroken.dropCr {text : Bytes} (h : Unbroken text) : dropCr text = text :=
  if_neg fun hlast => (h CR (List.mem_of_getLast? hlast)).1 rfl

theorem Unbroken.withoutTerminator {text : Bytes} (h : Unbroken text) :
    withoutTerminator text = text := by
  rw [MCode.Files.withoutTerminator, if_neg, h.dropCr]
  exact fun hlast => (h LF (List.mem_of_getLast? hlast)).2 rfl

theorem withoutTerminator_lf (text : Bytes) :
    withoutTerminator (text ++ [LF]) = dropCr text := by
  rw [withoutTerminator, if_pos (by simp), List.dropLast_concat]

theorem withoutTerminator_cr (text : Bytes) : withoutTerminator (text ++ [CR]) = text := by
  have hne : CR ≠ LF := by decide
  rw [withoutTerminator, if_neg (by simp [hne]), dropCr, if_pos (by simp), List.dropLast_concat]

/-- Without their terminators the lines are the contents; the second part is for
a CRLF of which the first byte has been passed. -/
theorem rawLines_contents (rest : Bytes) :
    (∀ front, Unbroken front →
      (rawLines front rest).map withoutTerminator = pushFront front (contents rest)) ∧
    (rest.head? = some LF → ∀ front, Unbroken front →
      (rawLines (front ++ [CR]) rest).map withoutTerminator =
        pushFront front (contents rest)) := by
  induction rest with
  | nil =>
      refine ⟨fun front hfront => ?_, nofun⟩
      rw [rawLines, contents, pushFront]
      split
      · rfl
      · rw [List.map_singleton, hfront.withoutTerminator]
  | cons byte rest ih =>
      obtain ⟨hbehind, hcrlf⟩ := ih
      have hnext : (rawLines [] rest).map withoutTerminator = contents rest := by
        rw [hbehind [] (by simp [Unbroken]), pushFront_nil]
      have hends : endsLine byte rest = true → byte = LF ∨ byte = CR := by
        intro h
        simp only [endsLine, Bool.or_eq_true, Bool.and_eq_true, decide_eq_true_eq] at h
        exact h.imp_right And.left
      refine ⟨fun front hfront => ?_, fun hhead front hfront => ?_⟩
      · rw [rawLines, contents]
        cases lineTerminatorLen_eq byte rest with
        | inl hone =>
            rw [if_pos hone.1, if_pos hone.1, List.map_cons, hnext, pushFront, List.append_nil]
            cases hends hone.1 with
            | inl hlf => rw [hlf, withoutTerminator_lf, hfront.dropCr]
            | inr hcr => rw [hcr, withoutTerminator_cr]
        | inr hopen =>
            cases hopen with
            | inl htwo =>
                obtain ⟨hopen, hcr, hhead, -⟩ := htwo
                rw [if_neg (by simp [hopen]), if_neg (by simp [hopen]), if_pos hcr, hcr]
                exact hcrlf hhead front hfront
            | inr hzero =>
                obtain ⟨hopen, hcr, hlf, -⟩ := hzero
                rw [if_neg (by simp [hopen]), if_neg (by simp [hopen]), if_neg hcr,
                  hbehind _ (hfront.snoc hcr hlf), pushFront_pushByte]
      · have hlf : byte = LF := Option.some.inj hhead
        have hlast : endsLine byte rest = true := by simp [endsLine, hlf]
        rw [rawLines, contents, if_pos hlast, if_pos hlast, List.map_cons, hnext, pushFront,
          List.append_nil, hlf, withoutTerminator_lf, dropCr, if_pos (by simp),
          List.dropLast_concat]

/-- The ranges of an edit hold the contents. -/
theorem lineRanges_contents (text : Bytes) :
    (lineRanges text).map (fun range => withoutTerminator (slice text range)) = contents text := by
  have hraw := (rawLines_contents text).1 [] (by simp [Unbroken])
  rw [pushFront_nil, ← (lineRanges_slices text).1, List.map_map] at hraw
  exact hraw

/-! ## Reads and edits -/

/-- A carriage return with no line feed behind it. -/
def LoneCr (text : Bytes) : Prop :=
  ∃ before after, text = before ++ CR :: after ∧ after.head? ≠ some LF

theorem loneCr_cons {byte : UInt8} {rest : Bytes} :
    LoneCr (byte :: rest) ↔ byte = CR ∧ rest.head? ≠ some LF ∨ LoneCr rest := by
  constructor
  · rintro ⟨before, after, htext, hhead⟩
    cases before with
    | nil =>
        cases htext
        exact Or.inl ⟨rfl, hhead⟩
    | cons first before =>
        cases htext
        exact Or.inr ⟨before, after, rfl, hhead⟩
  · rintro (⟨rfl, hhead⟩ | ⟨before, after, rfl, hhead⟩)
    · exact ⟨[], rest, rfl, hhead⟩
    · exact ⟨byte :: before, after, rfl, hhead⟩

theorem mem_pushByte {byte : UInt8} {all : List Bytes} {line : Bytes}
    (h : line ∈ pushByte byte all) :
    line ∈ all ∨ line = [byte] ∨ ∃ old ∈ all, line = byte :: old := by
  cases all with
  | nil => exact Or.inr (Or.inl (List.mem_singleton.1 h))
  | cons first all =>
      cases List.mem_cons.1 h with
      | inl hfirst => exact Or.inr (Or.inr ⟨first, List.mem_cons_self .., hfirst⟩)
      | inr hin => exact Or.inl (List.mem_cons_of_mem _ hin)

theorem pushByte_keeps (byte : UInt8) {all : List Bytes} {line : Bytes} (h : line ∈ all) :
    ∃ more ∈ pushByte byte all, ∀ other ∈ line, other ∈ more := by
  cases all with
  | nil => cases h
  | cons first all =>
      cases List.mem_cons.1 h with
      | inl hfirst =>
          exact ⟨byte :: first, List.mem_cons_self .., fun other hin =>
            List.mem_cons_of_mem _ (hfirst ▸ hin)⟩
      | inr hin => exact ⟨line, List.mem_cons_of_mem _ hin, fun other hother => hother⟩

theorem pushByte_shows (byte : UInt8) (all : List Bytes) :
    ∃ line ∈ pushByte byte all, byte ∈ line := by
  cases all with
  | nil => exact ⟨[byte], List.mem_singleton_self _, List.mem_singleton_self _⟩
  | cons first all => exact ⟨byte :: first, List.mem_cons_self .., List.mem_cons_self ..⟩

theorem contents_unbroken (text : Bytes) : ∀ line ∈ contents text, Unbroken line := by
  induction text with
  | nil => nofun
  | cons byte rest ih =>
      rw [contents]
      cases lineTerminatorLen_eq byte rest with
      | inl hone =>
          rw [if_pos hone.1]
          intro line hin
          cases List.mem_cons.1 hin with
          | inl hempty => simp [hempty, Unbroken]
          | inr hin => exact ih line hin
      | inr hopen =>
          cases hopen with
          | inl htwo =>
              rw [if_neg (by simp [htwo.1]), if_pos htwo.2.1]
              exact ih
          | inr hzero =>
              obtain ⟨hopen, hcr, hlf, -⟩ := hzero
              rw [if_neg (by simp [hopen]), if_neg hcr]
              intro line hin
              rcases mem_pushByte hin with hin | hsingle | ⟨old, hold, hline⟩
              · exact ih line hin
              · simp [hsingle, Unbroken, hcr, hlf]
              · have hrest : Unbroken old := ih old hold
                rw [hline]
                exact List.forall_mem_cons.2 ⟨⟨hcr, hlf⟩, hrest⟩

/-- Without lone carriage returns a read shows the contents. -/
theorem lines_eq_contents {text : Bytes} (h : ¬ LoneCr text) : lines text = contents text := by
  induction text with
  | nil => rfl
  | cons byte rest ih =>
      rw [loneCr_cons, not_or] at h
      obtain ⟨hfirst, hrest⟩ := h
      rw [lines, contents, ih hrest]
      by_cases hlf : byte = LF
      · rw [if_pos hlf, if_pos (by simp [endsLine, hlf])]
      · rw [if_neg hlf]
        by_cases hcr : byte = CR
        · have hhead : rest.head? = some LF := by
            by_contra hnone
            exact hfirst ⟨hcr, hnone⟩
          rw [if_pos ⟨hcr, hhead⟩, if_neg (by simp [endsLine, hlf, hhead]), if_pos hcr]
        · rw [if_neg fun hboth => hcr hboth.1, if_neg (by simp [endsLine, hlf, hcr]), if_neg hcr]

/-- A read shows a lone carriage return. -/
theorem lines_loneCr {text : Bytes} (h : LoneCr text) : ∃ line ∈ lines text, CR ∈ line := by
  have hne : CR ≠ LF := by decide
  induction text with
  | nil =>
      obtain ⟨before, after, htext, -⟩ := h
      exact absurd htext (by simp)
  | cons byte rest ih =>
      rw [lines]
      cases loneCr_cons.1 h with
      | inl hfirst =>
          obtain ⟨rfl, hhead⟩ := hfirst
          rw [if_neg hne, if_neg fun hboth => hhead hboth.2]
          exact pushByte_shows CR (lines rest)
      | inr hrest =>
          obtain ⟨line, hin, hcr⟩ := ih hrest
          split
          · exact ⟨line, List.mem_cons_of_mem _ hin, hcr⟩
          · split
            · exact ⟨line, hin, hcr⟩
            · obtain ⟨more, hmore, hkeeps⟩ := pushByte_keeps byte hin
              exact ⟨more, hmore, hkeeps CR hcr⟩

/-- Reads and edits number the lines of a text alike: a line that a window shows
is the content of the bytes that an edit of the line with its number selects, an
edit of one line selects a line that a read can show, and both say how many lines
there are. -/
structure NumbersAlike (text : Bytes) : Prop where
  total : ∀ offset limit, (windowText text offset limit).totalLines = editTotalLines text
  shown : ∀ offset limit k line, (selected text offset limit)[k]? = some line →
    ∃ range, locateLineRange text (windowStart text offset + k + 1)
        (windowStart text offset + k + 1) = .ok range ∧
      withoutTerminator (slice text range) = line
  edited : ∀ n range, locateLineRange text n n = .ok range →
    (selected text (some n) (some 1))[0]? = some (withoutTerminator (slice text range))

theorem selected_line {text : Bytes} {offset limit : Option Nat} {k : Nat} {line : Bytes}
    (h : (selected text offset limit)[k]? = some line) :
    (lines text)[windowStart text offset + k]? = some line := by
  rw [selected, List.getElem?_take] at h
  split at h
  · rwa [List.getElem?_drop] at h
  · cases h

/-- A read of one line. -/
theorem selected_one {text : Bytes} {k : Nat} {line : Bytes} (h : (lines text)[k]? = some line) :
    windowStart text (some (k + 1)) = k ∧
      (selected text (some (k + 1)) (some 1))[0]? = some line := by
  have hk : k < (lines text).length := (List.getElem?_eq_some_iff.1 h).1
  have hmax : 1 ≤ MAX_LINES := by decide
  have hstart : windowStart text (some (k + 1)) = k := by
    rw [windowStart, Option.getD_some]
    omega
  have hend : cappedEnd text (some (k + 1)) (some 1) = k + 1 := by
    rw [cappedEnd, windowEnd, hstart]
    omega
  refine ⟨hstart, ?_⟩
  rw [selected, hstart, hend, List.getElem?_take, if_pos (by omega), List.getElem?_drop, Nat.add_zero]
  exact h

/-- An edit of one line selects one of the contents. -/
theorem located_content {text : Bytes} (hne : text ≠ []) (n : Nat) (range : Nat × Nat) :
    locateLineRange text n n = .ok range ↔ 0 < n ∧ (lineRanges text)[n - 1]? = some range := by
  have hnumbered : numbered 0 (lineRanges text) n =
      if 0 < n then (lineRanges text)[n - 1]? else none := rfl
  cases locateLineRange_line hne n with
  | inl hfound =>
      obtain ⟨found, hfound, hok⟩ := hfound
      rw [hok]
      rw [hnumbered] at hfound
      split at hfound
      · rename_i hpos
        rw [hfound, Except.ok.injEq, Option.some.injEq]
        exact (and_iff_right hpos).symm
      · cases hfound
  | inr hnone =>
      obtain ⟨hnone, err, herr⟩ := hnone
      rw [herr]
      refine iff_of_false (by simp) fun ⟨hpos, hsome⟩ => ?_
      rw [hnumbered, if_pos hpos, hsome] at hnone
      cases hnone

end MCode.Files
