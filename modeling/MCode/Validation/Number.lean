import MCode.Validation.WireJson

/-!
# Canonical numbers

The number texts of `docs/design/08-provider-pack-abi-request.md` are given by
a regular expression,
`0|-?(?:[1-9][0-9]*(?:\.[0-9]*[1-9])?|0\.[0-9]*[1-9])(?:e-?[1-9][0-9]*)?`.
`is_canonical_number` scans exactly these, up to the bound on their bytes.
-/

namespace MCode.Validation

open Language Computability

/-! ## The grammar -/

def oneOf (accepts : Char → Bool) : Language Char :=
  {text | ∃ c, accepts c = true ∧ text = [c]}

def optionally (language : Language Char) : Language Char := 1 + language

def wholePart : Language Char := oneOf isNonzeroDigit * (oneOf isAsciiDigit)∗

def decimals : Language Char := (oneOf isAsciiDigit)∗ * oneOf isNonzeroDigit

def exponentPart : Language Char := {['e']} * (optionally {['-']} * wholePart)

/-- What stands behind the sign. -/
def unsignedNumber : Language Char :=
  (wholePart * optionally ({['.']} * decimals) + {['0', '.']} * decimals) *
    optionally exponentPart

def numberGrammar : Language Char := {['0']} + optionally {['-']} * unsignedNumber

/-- The number texts of the wire. -/
def CanonicalNumber (text : Text) : Prop :=
  utf8Len text ≤ MAX_NUMBER_BYTES ∧ text ∈ numberGrammar

/-! ## Membership -/

theorem mem_optionally {language : Language Char} {text : Text} :
    text ∈ optionally language ↔ text = [] ∨ text ∈ language := by
  unfold optionally
  rw [mem_add, mem_one]

theorem mem_oneOf_star {accepts : Char → Bool} {text : Text} :
    text ∈ (oneOf accepts)∗ ↔ ∀ c ∈ text, accepts c = true := by
  rw [mem_kstar]
  constructor
  · rintro ⟨parts, rfl, hparts⟩ c hc
    obtain ⟨part, hpart, hc⟩ := List.mem_flatten.1 hc
    obtain ⟨only, honly, rfl⟩ := hparts part hpart
    rwa [List.mem_singleton.1 hc]
  · intro h
    refine ⟨text.map fun c => [c], ?_, ?_⟩
    · rw [← List.flatMap_def]
      simp
    · intro part hpart
      obtain ⟨c, hc, rfl⟩ := List.mem_map.1 hpart
      exact ⟨c, h c hc, rfl⟩

theorem mem_literal_mul {front text : Text} {language : Language Char} :
    text ∈ ({front} : Language Char) * language ↔ ∃ rest ∈ language, text = front ++ rest := by
  rw [mem_mul]
  constructor
  · rintro ⟨first, hfirst, rest, hrest, rfl⟩
    rw [Set.mem_singleton_iff.1 hfirst]
    exact ⟨rest, hrest, rfl⟩
  · rintro ⟨rest, hrest, rfl⟩
    exact ⟨front, rfl, rest, hrest, rfl⟩

theorem mem_wholePart {text : Text} : text ∈ wholePart ↔
    ∃ first digits, isNonzeroDigit first = true ∧ (∀ c ∈ digits, isAsciiDigit c = true) ∧
      text = first :: digits := by
  unfold wholePart
  rw [mem_mul]
  constructor
  · rintro ⟨_, ⟨first, hfirst, rfl⟩, digits, hdigits, rfl⟩
    exact ⟨first, digits, hfirst, mem_oneOf_star.1 hdigits, rfl⟩
  · rintro ⟨first, digits, hfirst, hdigits, rfl⟩
    exact ⟨[first], ⟨first, hfirst, rfl⟩, digits, mem_oneOf_star.2 hdigits, rfl⟩

theorem mem_decimals {text : Text} : text ∈ decimals ↔
    ∃ digits last, (∀ c ∈ digits, isAsciiDigit c = true) ∧ isNonzeroDigit last = true ∧
      text = digits ++ [last] := by
  unfold decimals
  rw [mem_mul]
  constructor
  · rintro ⟨digits, hdigits, _, ⟨last, hlast, rfl⟩, rfl⟩
    exact ⟨digits, last, mem_oneOf_star.1 hdigits, hlast, rfl⟩
  · rintro ⟨digits, last, hdigits, hlast, rfl⟩
    exact ⟨digits, mem_oneOf_star.2 hdigits, [last], ⟨last, hlast, rfl⟩, rfl⟩

/-! ## Scanning digits -/

/-- Digits end where a text has no digit at its head. -/
def StartsPlain (text : Text) : Prop := ∀ c ∈ text.head?, isAsciiDigit c = false

theorem dropWhile_digits {digits rest : Text} (hdigits : ∀ c ∈ digits, isAsciiDigit c = true)
    (hrest : StartsPlain rest) : (digits ++ rest).dropWhile isAsciiDigit = rest := by
  rw [List.dropWhile_append_of_pos hdigits]
  cases rest with
  | nil => rfl
  | cons c rest => exact List.dropWhile_cons_of_neg (by simp [hrest c rfl])

theorem takeWhile_digits {digits rest : Text} (hdigits : ∀ c ∈ digits, isAsciiDigit c = true)
    (hrest : StartsPlain rest) : (digits ++ rest).takeWhile isAsciiDigit = digits := by
  rw [List.takeWhile_append_of_pos hdigits]
  cases rest with
  | nil => simp
  | cons c rest => simp [hrest c rfl]

/-- A digit is nonzero or `0`. -/
theorem isNonzeroDigit_iff {c : Char} :
    isNonzeroDigit c = true ↔ isAsciiDigit c = true ∧ c ≠ '0' := by
  have hzero : '0'.toNat = 48 := rfl
  have hone : '1'.toNat = 49 := rfl
  have hle (x y : Char) : x ≤ y ↔ x.toNat ≤ y.toNat := Iff.rfl
  have heq : c = '0' ↔ c.toNat = '0'.toNat := ⟨congrArg _, fun h => Char.toNat_inj.1 h⟩
  unfold isNonzeroDigit isAsciiDigit
  simp only [Bool.and_eq_true, decide_eq_true_eq, hle, ne_eq, heq, hzero, hone]
  omega

/-- A text without its sign. -/
def withoutSign : Text → Text
  | '-' :: rest => rest
  | text => text

theorem mem_signed {language : Language Char} {text : Text}
    (hplain : ∀ rest, '-' :: rest ∉ language) :
    text ∈ optionally {['-']} * language ↔ withoutSign text ∈ language := by
  have hsigned : text ∈ optionally {['-']} * language ↔
      text ∈ language ∨ ∃ rest ∈ language, text = '-' :: rest := by
    unfold optionally
    rw [add_mul, one_mul, mem_add, mem_literal_mul]
    rfl
  rw [hsigned]
  unfold withoutSign
  split
  · rename_i rest
    constructor
    · rintro (h | ⟨other, hother, heq⟩)
      · exact absurd h (hplain rest)
      · cases heq
        exact hother
    · intro h
      exact Or.inr ⟨rest, h, rfl⟩
  · rename_i hnot
    constructor
    · rintro (h | ⟨other, -, heq⟩)
      · exact h
      · exact absurd heq (hnot other)
    · exact Or.inl

theorem wholePart_plain (rest : Text) : '-' :: rest ∉ wholePart := by
  intro h
  obtain ⟨first, digits, hfirst, -, heq⟩ := mem_wholePart.1 h
  cases heq
  exact absurd hfirst (by decide)

/-- A text that is all whole part. -/
def isWhole : Text → Bool
  | [] => false
  | first :: rest => isNonzeroDigit first && (rest.dropWhile isAsciiDigit).isEmpty

theorem isWhole_iff {text : Text} : isWhole text = true ↔ text ∈ wholePart := by
  rw [mem_wholePart]
  cases text with
  | nil => simp [isWhole]
  | cons first rest =>
      simp only [isWhole, Bool.and_eq_true, List.isEmpty_iff, List.dropWhile_eq_nil_iff]
      constructor
      · exact fun h => ⟨first, rest, h.1, h.2, rfl⟩
      · rintro ⟨other, digits, hother, hdigits, heq⟩
        cases heq
        exact ⟨hother, hdigits⟩

theorem endsNumber_exponent (exponent : Text) :
    endsNumber ('e' :: exponent) = isWhole (withoutSign exponent) := by
  cases exponent with
  | nil => rfl
  | cons c rest =>
      by_cases hc : c = '-'
      · subst hc
        cases rest <;> rfl
      · simp [endsNumber, withoutSign, isWhole, hc]

theorem endsNumber_other {text : Text} (h : ∀ rest, text ≠ 'e' :: rest) :
    endsNumber text = text.isEmpty := by
  cases text with
  | nil => rfl
  | cons c rest =>
      have hc : c ≠ 'e' := by
        rintro rfl
        exact h rest rfl
      simp [endsNumber]

theorem endsNumber_iff {text : Text} :
    endsNumber text = true ↔ text ∈ optionally exponentPart := by
  have hexponent : text ∈ exponentPart ↔
      ∃ rest, withoutSign rest ∈ wholePart ∧ text = 'e' :: rest := by
    unfold exponentPart
    rw [mem_literal_mul]
    simp only [mem_signed wholePart_plain]
    rfl
  rw [mem_optionally, hexponent]
  by_cases he : ∃ rest, text = 'e' :: rest
  · obtain ⟨rest, rfl⟩ := he
    rw [endsNumber_exponent, isWhole_iff]
    simp
  · have hnot (rest : Text) : text ≠ 'e' :: rest := fun h => he ⟨rest, h⟩
    rw [endsNumber_other hnot, List.isEmpty_iff]
    simp [hnot]

/-- What ends a number has no digit at its head. -/
theorem endsNumber_plain {text : Text} (h : endsNumber text = true) : StartsPlain text := by
  rcases mem_optionally.1 (endsNumber_iff.1 h) with rfl | h
  · nofun
  · obtain ⟨rest, -, rfl⟩ := mem_literal_mul.1 h
    intro c hc
    cases hc
    decide

theorem consumeFraction_iff {text : Text} :
    (consumeFraction text).any endsNumber = true ↔
      text ∈ decimals * optionally exponentPart := by
  rw [mem_mul]
  unfold consumeFraction
  constructor
  · intro h
    have hdigits : ∀ c ∈ text.takeWhile isAsciiDigit, isAsciiDigit c = true :=
      fun c hc => List.mem_takeWhile_imp hc
    split at h
    · cases h
    · rename_i last hlast
      obtain ⟨digits, hsplit⟩ := List.getLast?_eq_some_iff.1 hlast
      by_cases hzero : last = '0'
      · subst hzero
        simp at h
      · rw [if_neg (by simpa using hzero)] at h
        refine ⟨text.takeWhile isAsciiDigit, ?_, text.dropWhile isAsciiDigit, ?_, ?_⟩
        · rw [hsplit] at hdigits ⊢
          refine mem_decimals.2 ⟨digits, last, ?_, ?_, rfl⟩
          · exact fun c hc => hdigits c (List.mem_append_left _ hc)
          · exact isNonzeroDigit_iff.2 ⟨hdigits last (by simp), hzero⟩
        · exact endsNumber_iff.1 h
        · exact List.takeWhile_append_dropWhile
  · rintro ⟨part, hpart, rest, hrest, rfl⟩
    obtain ⟨digits, last, hdigits, hlast, rfl⟩ := mem_decimals.1 hpart
    have hnonzero := isNonzeroDigit_iff.1 hlast
    have hall : ∀ c ∈ digits ++ [last], isAsciiDigit c = true := by
      intro c hc
      rcases List.mem_append.1 hc with hc | hc
      · exact hdigits c hc
      · rw [List.mem_singleton.1 hc]
        exact hnonzero.1
    have hends := endsNumber_iff.2 hrest
    rw [takeWhile_digits hall (endsNumber_plain hends),
      dropWhile_digits hall (endsNumber_plain hends), List.getLast?_concat]
    simp [hnonzero.2, hends]

theorem unsignedNumber_plain (rest : Text) : '-' :: rest ∉ unsignedNumber := by
  rintro ⟨front, hfront, behind, -, heq⟩
  rcases hfront with hfront | hfront
  · obtain ⟨whole, hwhole, tail, -, rfl⟩ := hfront
    obtain ⟨first, digits, hfirst, -, rfl⟩ := mem_wholePart.1 hwhole
    cases heq
    exact absurd hfirst (by decide)
  · obtain ⟨tail, -, rfl⟩ := mem_literal_mul.1 hfront
    cases heq

/-- What is scanned behind the digits of the whole part. -/
def isTail : Text → Bool
  | '.' :: fraction => (consumeFraction fraction).any endsNumber
  | rest => endsNumber rest

theorem isTail_iff {text : Text} : isTail text = true ↔
    text ∈ optionally ({['.']} * decimals) * optionally exponentPart := by
  unfold optionally
  rw [add_mul, one_mul, mem_add, mul_assoc, mem_literal_mul]
  unfold isTail
  split
  · rename_i fraction
    rw [consumeFraction_iff]
    constructor
    · exact fun h => Or.inr ⟨fraction, h, rfl⟩
    · rintro (h | ⟨other, hother, heq⟩)
      · have hends := endsNumber_iff.2 h
        rw [endsNumber_other (by simp)] at hends
        cases hends
      · cases heq
        exact hother
  · rename_i hnot
    rw [endsNumber_iff]
    constructor
    · exact Or.inl
    · rintro (h | ⟨fraction, -, heq⟩)
      · exact h
      · exact absurd heq (hnot fraction)

theorem isTail_plain {text : Text} (h : isTail text = true) : StartsPlain text := by
  unfold isTail at h
  split at h
  · intro c hc
    cases hc
    decide
  · exact endsNumber_plain h

/-- The number behind the sign, as it is scanned. -/
def isUnsigned : Text → Bool
  | '0' :: '.' :: fraction => (consumeFraction fraction).any endsNumber
  | '0' :: _ => false
  | first :: rest => isNonzeroDigit first && isTail (rest.dropWhile isAsciiDigit)
  | [] => false

theorem isUnsigned_iff {text : Text} : isUnsigned text = true ↔ text ∈ unsignedNumber := by
  -- the two alternatives, by their first character
  have hsplit : text ∈ unsignedNumber ↔
      (∃ first digits rest, isNonzeroDigit first = true ∧
        (∀ c ∈ digits, isAsciiDigit c = true) ∧ isTail rest = true ∧
        text = first :: (digits ++ rest)) ∨
      ∃ fraction, (consumeFraction fraction).any endsNumber = true ∧
        text = '0' :: '.' :: fraction := by
    unfold unsignedNumber
    rw [add_mul, mem_add, mul_assoc, mul_assoc, mem_literal_mul, mem_mul]
    refine or_congr ?_ (exists_congr fun _ => and_congr consumeFraction_iff.symm Iff.rfl)
    constructor
    · rintro ⟨whole, hwhole, rest, hrest, rfl⟩
      obtain ⟨first, digits, hfirst, hdigits, rfl⟩ := mem_wholePart.1 hwhole
      exact ⟨first, digits, rest, hfirst, hdigits, isTail_iff.2 hrest, rfl⟩
    · rintro ⟨first, digits, rest, hfirst, hdigits, hrest, rfl⟩
      exact ⟨first :: digits, mem_wholePart.2 ⟨first, digits, hfirst, hdigits, rfl⟩,
        rest, isTail_iff.1 hrest, rfl⟩
  rw [hsplit]
  constructor
  · intro h
    unfold isUnsigned at h
    split at h
    · rename_i fraction
      exact Or.inr ⟨fraction, h, rfl⟩
    · cases h
    · rename_i first rest _ _
      rw [Bool.and_eq_true] at h
      refine Or.inl ⟨first, rest.takeWhile isAsciiDigit, rest.dropWhile isAsciiDigit, h.1, ?_,
        h.2, ?_⟩
      · exact fun c hc => List.mem_takeWhile_imp hc
      · rw [List.takeWhile_append_dropWhile]
    · cases h
  · rintro (⟨first, digits, rest, hfirst, hdigits, hrest, rfl⟩ | ⟨fraction, hfraction, rfl⟩)
    · have hzero : first ≠ '0' := (isNonzeroDigit_iff.1 hfirst).2
      have hscan : isUnsigned (first :: (digits ++ rest)) =
          (isNonzeroDigit first && isTail ((digits ++ rest).dropWhile isAsciiDigit)) := by
        unfold isUnsigned
        split
        · rename_i heq
          exact absurd (List.cons.inj heq).1 hzero
        · rename_i heq
          exact absurd (List.cons.inj heq).1 hzero
        · rename_i heq
          cases heq
          rfl
        · rename_i heq
          cases heq
      rw [hscan, dropWhile_digits hdigits (isTail_plain hrest), hfirst, hrest]
      rfl
    · exact hfraction

/-! ## The scanner -/

theorem numberGrammar_iff {text : Text} : text ∈ numberGrammar ↔
    text = ['0'] ∨ isUnsigned (withoutSign text) = true := by
  unfold numberGrammar
  rw [mem_add, mem_signed unsignedNumber_plain, isUnsigned_iff]
  rfl

theorem scanUnsigned_eq (unsigned : Text) :
    (match unsigned with
      | '0' :: '.' :: fraction => (consumeFraction fraction).any endsNumber
      | '0' :: _ => false
      | first :: rest =>
          if isNonzeroDigit first then
            match rest.dropWhile isAsciiDigit with
            | '.' :: fraction => (consumeFraction fraction).any endsNumber
            | rest => endsNumber rest
          else false
      | [] => false) = isUnsigned unsigned := by
  unfold isUnsigned
  split
  · rfl
  · rfl
  · rename_i first rest _ _
    cases isNonzeroDigit first with
    | true => rfl
    | false => rfl
  · rfl

theorem isCanonicalNumber_eq (value : String) : isCanonicalNumber value =
    (decide (1 ≤ utf8Len value.toList) && decide (utf8Len value.toList ≤ MAX_NUMBER_BYTES) &&
      value.toList.all (fun c => decide (c.toNat < 128)) &&
      (value.toList == ['0'] || isUnsigned (withoutSign value.toList))) := by
  unfold isCanonicalNumber
  generalize value.toList = text
  by_cases hbytes : (decide (1 ≤ utf8Len text) && decide (utf8Len text ≤ MAX_NUMBER_BYTES) &&
      text.all (fun c => decide (c.toNat < 128))) = true
  · rw [if_neg (by rw [hbytes]; decide), hbytes, Bool.true_and]
    by_cases hzero : (text == ['0']) = true
    · rw [if_pos hzero, hzero, Bool.true_or]
    · rw [if_neg hzero, Bool.eq_false_iff.2 hzero, Bool.false_or, ← scanUnsigned_eq]
      cases text with
      | nil => rfl
      | cons c rest =>
          by_cases hc : c = '-'
          · subst hc
            rfl
          · have hplain : withoutSign (c :: rest) = c :: rest := by simp [withoutSign, hc]
            rw [hplain]
            split
            · rename_i heq
              exact absurd (List.cons.inj heq).1 hc
            · rfl
  · rw [if_pos (by rw [Bool.eq_false_iff.2 hbytes]; rfl), Bool.eq_false_iff.2 hbytes,
      Bool.false_and]

/-- The characters of a number. -/
def IsNumberChar (c : Char) : Prop := isAsciiDigit c = true ∨ c = '-' ∨ c = '.' ∨ c = 'e'

theorem wholePart_chars {text : Text} (h : text ∈ wholePart) : ∀ c ∈ text, IsNumberChar c := by
  obtain ⟨first, digits, hfirst, hdigits, rfl⟩ := mem_wholePart.1 h
  intro c hc
  rcases List.mem_cons.1 hc with rfl | hc
  · exact Or.inl (isNonzeroDigit_iff.1 hfirst).1
  · exact Or.inl (hdigits c hc)

theorem decimals_chars {text : Text} (h : text ∈ decimals) : ∀ c ∈ text, IsNumberChar c := by
  obtain ⟨digits, last, hdigits, hlast, rfl⟩ := mem_decimals.1 h
  intro c hc
  rcases List.mem_append.1 hc with hc | hc
  · exact Or.inl (hdigits c hc)
  · rw [List.mem_singleton.1 hc]
    exact Or.inl (isNonzeroDigit_iff.1 hlast).1

/-- Texts whose characters all are those of numbers. -/
def numberTexts : Language Char := {text | ∀ c ∈ text, IsNumberChar c}

theorem numberTexts_mul {left right : Language Char} (hleft : left ≤ numberTexts)
    (hright : right ≤ numberTexts) : left * right ≤ numberTexts := by
  rintro _ ⟨front, hfront, behind, hbehind, rfl⟩ c hc
  rcases List.mem_append.1 hc with hc | hc
  · exact hleft hfront c hc
  · exact hright hbehind c hc

theorem numberTexts_literal {text : Text} (h : ∀ c ∈ text, IsNumberChar c) :
    ({text} : Language Char) ≤ numberTexts := by
  intro other hother
  rw [Set.mem_singleton_iff.1 hother]
  exact h

theorem numberTexts_optionally {language : Language Char} (h : language ≤ numberTexts) :
    optionally language ≤ numberTexts := by
  intro text htext
  rcases mem_optionally.1 htext with rfl | htext
  · exact fun _ hc => absurd hc List.not_mem_nil
  · exact h htext

/-- Every character of a number is a digit or one of `-`, `.` and `e`. -/
theorem numberGrammar_le : numberGrammar ≤ numberTexts := by
  have hwhole : wholePart ≤ numberTexts := fun text htext => wholePart_chars htext
  have hdecimals : decimals ≤ numberTexts := fun text htext => decimals_chars htext
  have hsign : optionally {['-']} ≤ numberTexts :=
    numberTexts_optionally (numberTexts_literal (by simp [IsNumberChar]))
  have hexponent : exponentPart ≤ numberTexts :=
    numberTexts_mul (numberTexts_literal (by simp [IsNumberChar]))
      (numberTexts_mul hsign hwhole)
  have hpoint : {['.']} * decimals ≤ numberTexts :=
    numberTexts_mul (numberTexts_literal (by simp [IsNumberChar])) hdecimals
  have hsmall : {['0', '.']} * decimals ≤ numberTexts :=
    numberTexts_mul (numberTexts_literal (by simp [IsNumberChar, isAsciiDigit])) hdecimals
  have hunsigned : unsignedNumber ≤ numberTexts :=
    numberTexts_mul
      (sup_le (numberTexts_mul hwhole (numberTexts_optionally hpoint)) hsmall)
      (numberTexts_optionally hexponent)
  exact sup_le (numberTexts_literal (by simp [IsNumberChar, isAsciiDigit]))
    (numberTexts_mul hsign hunsigned)

theorem IsNumberChar.ascii {c : Char} (h : IsNumberChar c) : c.toNat < 128 := by
  rcases h with h | rfl | rfl | rfl
  · unfold isAsciiDigit at h
    rw [Bool.and_eq_true, decide_eq_true_eq, decide_eq_true_eq] at h
    have hle : c.toNat ≤ '9'.toNat := h.2
    exact Nat.lt_of_le_of_lt hle (by decide)
  · decide
  · decide
  · decide

theorem numberGrammar_nonempty : [] ∉ numberGrammar := by
  rw [numberGrammar_iff]
  rintro (h | h) <;> cases h

/-- A number starts with its sign or a digit. -/
theorem numberGrammar_head {text : Text} (h : text ∈ numberGrammar) :
    ∃ c behind, text = c :: behind ∧ (c = '-' ∨ isAsciiDigit c = true) := by
  cases text with
  | nil => exact absurd h numberGrammar_nonempty
  | cons c behind =>
      refine ⟨c, behind, rfl, ?_⟩
      by_cases hsign : c = '-'
      · exact Or.inl hsign
      · refine Or.inr ?_
        have hplain : withoutSign (c :: behind) = c :: behind := by simp [withoutSign, hsign]
        rcases numberGrammar_iff.1 h with hzero | hunsigned
        · cases hzero
          decide
        · rw [hplain] at hunsigned
          unfold isUnsigned at hunsigned
          split at hunsigned
          · rename_i heq
            rw [(List.cons.inj heq).1]
            decide
          · cases hunsigned
          · rename_i first rest _ _ heq
            rw [Bool.and_eq_true] at hunsigned
            rw [(List.cons.inj heq).1]
            exact (isNonzeroDigit_iff.1 hunsigned.1).1
          · cases hunsigned

theorem utf8Len_pos {text : Text} (h : text ≠ []) : 1 ≤ utf8Len text := by
  cases text with
  | nil => exact absurd rfl h
  | cons c rest =>
      have hpos := Char.utf8Size_pos c
      unfold utf8Len
      rw [List.map_cons, List.sum_cons]
      omega

/-- The numbers that are accepted are those of the grammar. -/
theorem isCanonicalNumber_iff {value : String} :
    isCanonicalNumber value = true ↔ CanonicalNumber value.toList := by
  rw [isCanonicalNumber_eq]
  unfold CanonicalNumber
  generalize value.toList = text
  simp only [Bool.and_eq_true, Bool.or_eq_true, decide_eq_true_eq, List.all_eq_true,
    beq_iff_eq, ← numberGrammar_iff]
  constructor
  · rintro ⟨⟨⟨-, hbytes⟩, -⟩, hgrammar⟩
    exact ⟨hbytes, hgrammar⟩
  · rintro ⟨hbytes, hgrammar⟩
    have hne : text ≠ [] := by
      rintro rfl
      exact numberGrammar_nonempty hgrammar
    exact ⟨⟨⟨utf8Len_pos hne, hbytes⟩, fun c hc => (numberGrammar_le hgrammar c hc).ascii⟩,
      hgrammar⟩

end MCode.Validation
