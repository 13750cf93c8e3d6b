import MCode.Lib.Tiling
import MCode.Files.LineRange

/-!
# The lines of an edit make up the text

`edit/line.rs` scans a text twice over: `locate_line_range` for the bytes of a
range of lines, `line_location` for the line that an offset is in.  The ranges
of the single lines tile the text, a range of lines has the bytes of its lines,
and the line of an offset is the one with that number, without its terminator.
-/

namespace MCode.Files

open MCode.Lib

/-! ## The line of an offset -/

/-- The loop of `line_location`, over the bytes from the index on: the number of the
line, and the start and the end of its content. -/
def locationFrom (offset : Nat) : Bytes → Nat → Nat → Nat → Nat × Nat × Nat
  | [], lineNo, lineStart, index => (lineNo, lineStart, index)
  | [byte], lineNo, lineStart, index =>
      if lineTerminatorLen [byte] = 0 then locationFrom offset [] lineNo lineStart (index + 1)
      else if offset < index + lineTerminatorLen [byte] then (lineNo, lineStart, index)
      else locationFrom offset [] (lineNo + 1) (index + lineTerminatorLen [byte])
        (index + lineTerminatorLen [byte])
  | byte :: next :: rest, lineNo, lineStart, index =>
      match lineTerminatorLen (byte :: next :: rest) with
      | 0 => locationFrom offset (next :: rest) lineNo lineStart (index + 1)
      | 1 =>
          if offset < index + 1 then (lineNo, lineStart, index)
          else locationFrom offset (next :: rest) (lineNo + 1) (index + 1) (index + 1)
      | termLen =>
          if offset < index + termLen then (lineNo, lineStart, index)
          else locationFrom offset rest (lineNo + 1) (index + termLen) (index + termLen)

def lineLocation (text : Bytes) (offset : Nat) : Nat × Nat × Nat :=
  locationFrom (min offset text.length) text 1 0 0

/-! ## Ranges from a line start on -/

/-- The ranges of the lines from `index` on, in a text of so many bytes. -/
def rangesFrom (lineStart index : Nat) (rest : Bytes) (length : Nat) : List (Nat × Nat) :=
  (closedRanges lineStart index rest).1 ++
    if (closedRanges lineStart index rest).2 < length then
      [((closedRanges lineStart index rest).2, length)]
    else []

theorem lineRanges_eq (text : Bytes) : lineRanges text = rangesFrom 0 0 text text.length := rfl

theorem rangesFrom_nil {lineStart index length : Nat} (h : lineStart < length) :
    rangesFrom lineStart index [] length = [(lineStart, length)] := by
  unfold rangesFrom
  rw [closedRanges, if_pos h, List.nil_append]

theorem rangesFrom_ends {byte : UInt8} {rest : Bytes} (h : endsLine byte rest = true)
    (lineStart index length : Nat) :
    rangesFrom lineStart index (byte :: rest) length =
      (lineStart, index + 1) :: rangesFrom (index + 1) (index + 1) rest length := by
  unfold rangesFrom
  rw [closedRanges, if_pos h, List.cons_append]

theorem rangesFrom_continues {byte : UInt8} {rest : Bytes} (h : endsLine byte rest = false)
    (lineStart index length : Nat) :
    rangesFrom lineStart index (byte :: rest) length =
      rangesFrom lineStart (index + 1) rest length := by
  unfold rangesFrom
  rw [closedRanges, if_neg (by rw [h]; exact Bool.false_ne_true)]

/-- The two bytes of a CRLF end one line. -/
theorem rangesFrom_crlf {byte next : UInt8} {rest : Bytes}
    (hopen : endsLine byte (next :: rest) = false) (hnext : next = LF)
    (lineStart index length : Nat) :
    rangesFrom lineStart index (byte :: next :: rest) length =
      (lineStart, index + 2) :: rangesFrom (index + 2) (index + 2) rest length := by
  have hends : endsLine next rest = true := by simp [endsLine, hnext]
  rw [rangesFrom_continues hopen, rangesFrom_ends hends]

/-- The ranges tile what is left of the text. -/
theorem rangesFrom_tiles (rest : Bytes) {lineStart index length : Nat} (hle : lineStart ≤ index)
    (hlength : index + rest.length = length) :
    Tiles lineStart length (rangesFrom lineStart index rest length) := by
  induction rest generalizing lineStart index with
  | nil =>
      have hend : index = length := hlength
      unfold rangesFrom
      rw [closedRanges]
      split
      · exact Tiles.single (by omega)
      · have hsame : lineStart = length := by
          rename_i h
          have hnot : ¬ lineStart < length := h
          omega
        rw [hsame]
        exact .nil length
  | cons byte rest ih =>
      rw [List.length_cons] at hlength
      cases hends : endsLine byte rest with
      | true =>
          rw [rangesFrom_ends hends]
          exact .cons (by omega) (ih (Nat.le_refl _) (by omega))
      | false =>
          rw [rangesFrom_continues hends]
          exact ih (by omega) (by omega)

theorem lineRanges_tile (text : Bytes) : Tiles 0 text.length (lineRanges text) := by
  rw [lineRanges_eq]
  exact rangesFrom_tiles text (Nat.le_refl 0) (Nat.zero_add _)

/-! ## Where an offset is -/

/-- The answer for an offset: its line among the ranges that are left, and the end of
the content, behind which the terminator ends the range. -/
structure Located (text : Bytes) (offset lineNo : Nat) (ranges : List (Nat × Nat))
    (answer : Nat × Nat × Nat) : Prop where
  number : lineNo ≤ answer.1
  range : ranges[answer.1 - lineNo]? =
    some (answer.2.1, answer.2.2 + lineTerminatorLen (text.drop answer.2.2))
  inside : answer.2.1 ≤ offset ∧
    offset < answer.2.2 + lineTerminatorLen (text.drop answer.2.2)
  content : Unbroken (between text (answer.2.1, answer.2.2))

/-- An offset behind the first of the ranges. -/
theorem Located.later {text : Bytes} {offset lineNo : Nat} {ranges : List (Nat × Nat)}
    {answer : Nat × Nat × Nat} (h : Located text offset (lineNo + 1) ranges answer)
    (range : Nat × Nat) : Located text offset lineNo (range :: ranges) answer where
  number := Nat.le_of_succ_le h.number
  range := by
    have hnumber := h.number
    have hstep : answer.1 - lineNo = (answer.1 - (lineNo + 1)) + 1 := by omega
    rw [hstep, List.getElem?_cons_succ]
    exact h.range
  inside := h.inside
  content := h.content

theorem unbroken_snoc {text : Bytes} {lineStart index : Nat} {byte : UInt8} {rest : Bytes}
    (hle : lineStart ≤ index) (hrest : text.drop index = byte :: rest)
    (h : Unbroken (between text (lineStart, index))) (hcr : byte ≠ CR) (hlf : byte ≠ LF) :
    Unbroken (between text (lineStart, index + 1)) := by
  have hone : between text (index, index + 1) = [byte] := by
    unfold between
    rw [List.drop_take, hrest, Nat.add_sub_cancel_left]
    rfl
  rw [← between_join text hle (Nat.le_succ index), hone]
  exact h.snoc hcr hlf

theorem drop_next {text : Bytes} {index : Nat} {byte : UInt8} {rest : Bytes}
    (h : text.drop index = byte :: rest) : text.drop (index + 1) = rest := by
  rw [← List.drop_drop, h]
  rfl

/-- What the length of a terminator says of its bytes. -/
theorem plain_of_none {byte : UInt8} {rest : Bytes} (h : lineTerminatorLen (byte :: rest) = 0) :
    endsLine byte rest = false ∧ byte ≠ CR ∧ byte ≠ LF := by
  rcases lineTerminatorLen_eq byte rest with hone | htwo | hzero
  · exact absurd (hone.2.symm.trans h) (by decide)
  · exact absurd (htwo.2.2.2.symm.trans h) (by decide)
  · exact ⟨hzero.1, hzero.2.1, hzero.2.2.1⟩

theorem ends_of_one {byte : UInt8} {rest : Bytes} (h : lineTerminatorLen (byte :: rest) = 1) :
    endsLine byte rest = true := by
  rcases lineTerminatorLen_eq byte rest with hone | htwo | hzero
  · exact hone.1
  · exact absurd (htwo.2.2.2.symm.trans h) (by decide)
  · exact absurd (hzero.2.2.2.symm.trans h) (by decide)

theorem crlf_of_more {byte next : UInt8} {rest : Bytes}
    (hzero : lineTerminatorLen (byte :: next :: rest) ≠ 0)
    (hone : lineTerminatorLen (byte :: next :: rest) ≠ 1) :
    endsLine byte (next :: rest) = false ∧ next = LF ∧
      lineTerminatorLen (byte :: next :: rest) = 2 := by
  rcases lineTerminatorLen_eq byte (next :: rest) with hlen | htwo | hlen
  · exact absurd hlen.2 hone
  · exact ⟨htwo.1, Option.some.inj htwo.2.2.1, htwo.2.2.2⟩
  · exact absurd hlen.2.2.2 hzero

theorem single_of_some {byte : UInt8} (h : lineTerminatorLen [byte] ≠ 0) :
    lineTerminatorLen [byte] = 1 := by
  rcases lineTerminatorLen_eq byte [] with hone | htwo | hzero
  · exact hone.2
  · exact absurd htwo.2.2.1 nofun
  · exact absurd hzero.2.2.2 h

theorem length_of_drop {text : Bytes} {index : Nat} {rest : Bytes} (h : text.drop index = rest)
    (hindex : index ≤ text.length) : index + rest.length = text.length := by
  rw [← h, List.length_drop]
  omega

theorem unbroken_self (text : Bytes) (position : Nat) :
    Unbroken (between text (position, position)) := by
  rw [between_self]
  nofun

/-- The offset is in the line that ends here. -/
theorem Located.here {text : Bytes} {offset lineNo lineStart index termLen : Nat}
    {rest : Bytes} {ranges : List (Nat × Nat)} (hrest : text.drop index = rest)
    (hopen : Unbroken (between text (lineStart, index))) (hlow : lineStart ≤ offset)
    (hlen : lineTerminatorLen rest = termLen) (hhigh : offset < index + termLen) :
    Located text offset lineNo ((lineStart, index + termLen) :: ranges)
      (lineNo, lineStart, index) := by
  refine ⟨Nat.le_refl _, ?_, ?_, hopen⟩
  · show ((lineStart, index + termLen) :: ranges)[lineNo - lineNo]? = _
    rw [Nat.sub_self, hrest, hlen]
    rfl
  · show lineStart ≤ offset ∧ offset < index + lineTerminatorLen (text.drop index)
    rw [hrest, hlen]
    exact ⟨hlow, hhigh⟩

/-- The scan for an offset finds it among the ranges that are left. -/
theorem locationFrom_spec {text : Bytes} {offset : Nat} (hoffset : offset < text.length)
    (rest : Bytes) (lineNo lineStart index : Nat) (hrest : text.drop index = rest)
    (hindex : index ≤ text.length) (hle : lineStart ≤ index)
    (hopen : Unbroken (between text (lineStart, index))) (hlow : lineStart ≤ offset) :
    Located text offset lineNo (rangesFrom lineStart index rest text.length)
      (locationFrom offset rest lineNo lineStart index) := by
  have hlength := length_of_drop hrest hindex
  induction rest, lineNo, lineStart, index using locationFrom.induct offset with
  | case1 lineNo lineStart index =>
      have hend : index = text.length := hlength
      have hhere := @Located.here text offset lineNo lineStart index 0 [] [] hrest hopen hlow rfl
        (by omega)
      rw [locationFrom, rangesFrom_nil (by omega), ← hend]
      exact hhere
  | case2 byte lineNo lineStart index hnone ih =>
      obtain ⟨hends, hcr, hlf⟩ := plain_of_none hnone
      rw [List.length_singleton] at hlength
      rw [locationFrom, if_pos hnone, rangesFrom_continues hends]
      exact ih (drop_next hrest) (by omega) (by omega)
        (unbroken_snoc hle hrest hopen hcr hlf) hlow hlength
  | case3 byte lineNo lineStart index hsome hhere =>
      have hone := single_of_some hsome
      rw [hone] at hhere
      rw [locationFrom, if_neg hsome, hone, if_pos hhere, rangesFrom_ends (ends_of_one hone)]
      exact Located.here hrest hopen hlow hone hhere
  | case4 byte lineNo lineStart index hsome hlater ih =>
      have hone := single_of_some hsome
      rw [List.length_singleton] at hlength
      rw [hone] at hlater ih
      rw [locationFrom, if_neg hsome, hone, if_neg hlater, rangesFrom_ends (ends_of_one hone)]
      exact (ih (drop_next hrest) (by omega) (Nat.le_refl _) (unbroken_self _ _)
        (by omega) hlength).later _
  | case5 lineNo lineStart index byte next rest hnone ih =>
      obtain ⟨hends, hcr, hlf⟩ := plain_of_none hnone
      rw [List.length_cons, List.length_cons] at hlength
      rw [locationFrom, hnone, rangesFrom_continues hends]
      exact ih (drop_next hrest) (by omega) (by omega)
        (unbroken_snoc hle hrest hopen hcr hlf) hlow (by rw [List.length_cons]; omega)
  | case6 lineNo lineStart index byte next rest hone hhere =>
      rw [locationFrom, hone, rangesFrom_ends (ends_of_one hone)]
      rw [if_pos hhere]
      exact Located.here hrest hopen hlow hone hhere
  | case7 lineNo lineStart index byte next rest hone hlater ih =>
      rw [List.length_cons, List.length_cons] at hlength
      rw [locationFrom, hone, rangesFrom_ends (ends_of_one hone)]
      rw [if_neg hlater]
      exact (ih (drop_next hrest) (by omega) (Nat.le_refl _) (unbroken_self _ _)
        (by omega) (by rw [List.length_cons]; omega)).later _
  | case8 byte next rest lineNo lineStart index hzero hone hhere =>
      obtain ⟨hends, hlf, htwo⟩ := crlf_of_more hzero hone
      rw [htwo] at hhere
      rw [locationFrom, htwo, rangesFrom_crlf hends hlf]
      show Located _ _ _ _ (if offset < index + 2 then _ else _)
      rw [if_pos hhere]
      exact Located.here hrest hopen hlow htwo hhere
  | case9 byte next rest lineNo lineStart index hzero hone hlater ih =>
      obtain ⟨hends, hlf, htwo⟩ := crlf_of_more hzero hone
      rw [List.length_cons, List.length_cons] at hlength
      rw [htwo] at hlater ih
      rw [locationFrom, htwo, rangesFrom_crlf hends hlf]
      show Located _ _ _ _ (if offset < index + 2 then _ else _)
      rw [if_neg hlater]
      exact (ih (drop_next (drop_next hrest)) (by omega) (Nat.le_refl _) (unbroken_self _ _)
        (by omega) (by omega)).later _

/-! ## Ranges of lines -/

/-- The ranges of the lines of an edit; an empty text is one empty line. -/
def editRanges (text : Bytes) : List (Nat × Nat) := if text = [] then [(0, 0)] else lineRanges text

theorem editRanges_of_ne {text : Bytes} (h : text ≠ []) : editRanges text = lineRanges text :=
  if_neg h

theorem editRanges_tile (text : Bytes) : Tiles 0 text.length (editRanges text) := by
  unfold editRanges
  split
  next hempty =>
    subst hempty
    exact Tiles.single (Nat.le_refl 0)
  next => exact lineRanges_tile text

theorem editRanges_length (text : Bytes) : (editRanges text).length = editTotalLines text := by
  unfold editRanges
  split
  next hempty =>
    subst hempty
    rfl
  next hne => exact (totalLines_eq hne).symm

theorem numbered_of_le {α : Type*} {all : List α} {n : Nat} (hpos : 1 ≤ n) (hn : n ≤ all.length) :
    numbered 0 all n = some all[n - 1] := by
  unfold numbered
  rw [if_pos (by omega), Nat.sub_zero]
  exact List.getElem?_eq_getElem (by omega)

theorem numbered_of_gt {α : Type*} {all : List α} {n : Nat} (hn : all.length < n) :
    numbered 0 all n = none := by
  unfold numbered
  rw [if_pos (by omega)]
  exact List.getElem?_eq_none (by omega)

/-- A range of lines is selected from the start of its first to the end of its last. -/
theorem locateLineRange_span {text : Bytes} {s e : Nat} (hs : 1 ≤ s) (hse : s ≤ e)
    (he : e ≤ (editRanges text).length) :
    locateLineRange text s e = .ok ((editRanges text)[s - 1].1, (editRanges text)[e - 1].2) := by
  by_cases hempty : text = []
  · subst hempty
    have hone : (editRanges []).length = 1 := rfl
    obtain rfl : s = 1 := by omega
    obtain rfl : e = 1 := by omega
    rfl
  · have htiles := (editRanges_tile text).span (show s - 1 ≤ e - 1 by omega)
      (show e - 1 < (editRanges text).length by omega)
    obtain ⟨hstart, hend⟩ := finish_spec text s e
    simp only [editRanges_of_ne hempty] at he htiles ⊢
    rw [numbered_of_le hs (by omega)] at hstart
    rw [numbered_of_le (by omega) he] at hend
    unfold locateLineRange
    dsimp only
    rw [if_neg fun h => hempty h.1, hstart, hend]
    exact if_pos htiles.le

/-- A range that ends behind the last line is refused. -/
theorem locateLineRange_outside {text : Bytes} (s : Nat) {e : Nat}
    (he : (editRanges text).length < e) : ∃ error, locateLineRange text s e = .error error := by
  by_cases hempty : text = []
  · subst hempty
    have hone : (editRanges []).length = 1 := rfl
    have hnot : ¬ (([] : Bytes) = [] ∧ s = 1 ∧ e = 1) := by omega
    obtain ⟨hstart, hend⟩ := finish_spec [] s e
    unfold locateLineRange
    dsimp only
    rw [if_neg hnot, hend, numbered_of_gt (show (lineRanges []).length < e from by
      show 0 < e
      omega)]
    cases hfirst : ((scanLines s e [] .start).finish s e ([] : Bytes).length).targetStart with
    | none => exact ⟨_, rfl⟩
    | some start => exact ⟨_, rfl⟩
  · obtain ⟨hstart, hend⟩ := finish_spec text s e
    rw [editRanges_of_ne hempty] at he
    rw [numbered_of_gt he] at hend
    unfold locateLineRange
    dsimp only
    rw [if_neg fun h => hempty h.1, hend]
    cases hfirst : ((scanLines s e text .start).finish s e text.length).targetStart with
    | none => exact ⟨_, rfl⟩
    | some start => exact ⟨_, rfl⟩

/-- The lines of an edit make up the text.  The ranges of the single lines tile it, a
range of lines has the bytes of its lines and is refused exactly when it ends behind
the last one, and the line of an offset is the one with its number, up to the
terminator. -/
structure LinesTile (text : Bytes) : Prop where
  single : ∀ n, 1 ≤ n → n ≤ editTotalLines text → ∃ range,
    (editRanges text)[n - 1]? = some range ∧ locateLineRange text n n = .ok range
  total : (editRanges text).length = editTotalLines text
  tiles : Tiles 0 text.length (editRanges text)
  whole : ((editRanges text).map (slice text)).flatten = text
  span : ∀ s e range, 1 ≤ s → s ≤ e → locateLineRange text s e = .ok range →
    slice text range = ((((editRanges text).drop (s - 1)).take (e - s + 1)).map
      (slice text)).flatten
  outside : ∀ s e, 1 ≤ s → s ≤ e →
    ((∃ error, locateLineRange text s e = .error error) ↔ editTotalLines text < e)
  location : ∀ offset, offset < text.length → ∃ n start stop,
    lineLocation text offset = (n, start, stop) ∧ 1 ≤ n ∧ n ≤ editTotalLines text ∧
      locateLineRange text n n = .ok (start, stop + lineTerminatorLen (text.drop stop)) ∧
      start ≤ offset ∧ offset < stop + lineTerminatorLen (text.drop stop) ∧
      Unbroken (slice text (start, stop))

theorem lines_tile_text (text : Bytes) : LinesTile text := by
  have htotal := editRanges_length text
  have htiles := editRanges_tile text
  have hsingle (n : Nat) (hn : 1 ≤ n) (hle : n ≤ editTotalLines text) : ∃ range,
      (editRanges text)[n - 1]? = some range ∧ locateLineRange text n n = .ok range := by
    rw [← htotal] at hle
    exact ⟨_, List.getElem?_eq_getElem (by omega),
      locateLineRange_span hn (Nat.le_refl n) hle⟩
  refine ⟨hsingle, htotal, htiles, ?_, ?_, ?_, ?_⟩
  · exact (htiles.pieces text).trans (between_all text)
  · intro s e range hs hse h
    by_cases he : e ≤ (editRanges text).length
    · have hspan := htiles.span (show s - 1 ≤ e - 1 by omega)
        (show e - 1 < (editRanges text).length by omega)
      have hcount : e - 1 - (s - 1) + 1 = e - s + 1 := by omega
      rw [locateLineRange_span hs hse he] at h
      cases h
      rw [← hcount]
      exact (hspan.pieces text).symm
    · obtain ⟨error, herror⟩ := locateLineRange_outside s (Nat.not_le.1 he)
      rw [herror] at h
      cases h
  · intro s e hs hse
    constructor
    · rintro ⟨error, herror⟩
      by_contra hle
      rw [← htotal] at hle
      rw [locateLineRange_span hs hse (by omega)] at herror
      cases herror
    · intro h
      exact locateLineRange_outside s (by omega)
  · intro offset hoffset
    have hne : text ≠ [] := by
      rintro rfl
      exact absurd hoffset (Nat.not_lt_zero _)
    have hfound := locationFrom_spec hoffset text 1 0 0 rfl (Nat.zero_le _) (Nat.le_refl _)
      (unbroken_self text 0) (Nat.zero_le _)
    rw [← lineRanges_eq, ← editRanges_of_ne hne] at hfound
    have hanswer : lineLocation text offset = locationFrom offset text 1 0 0 := by
      rw [lineLocation, Nat.min_eq_left (Nat.le_of_lt hoffset)]
    rw [← hanswer] at hfound
    obtain ⟨hnumber, hrange, ⟨hlow, hhigh⟩, hcontent⟩ := hfound
    have hlast : (lineLocation text offset).1 - 1 < (editRanges text).length :=
      (List.getElem?_eq_some_iff.1 hrange).1
    have hle : (lineLocation text offset).1 ≤ editTotalLines text := by omega
    obtain ⟨range, hsame, hlocated⟩ := hsingle _ hnumber hle
    rw [hrange] at hsame
    cases hsame
    exact ⟨_, _, _, rfl, hnumber, hle, hlocated, hlow, hhigh, hcontent⟩

end MCode.Files
