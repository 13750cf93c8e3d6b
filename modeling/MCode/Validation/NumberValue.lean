import MCode.Lib.Positional
import MCode.Validation.Number

/-!
# The number of a number text

A number text says its number by a sign, a whole part, a fraction and an
exponent.  The grammar leaves out the minus of a zero, zeros in front of the
whole part and zeros behind the fraction, so that two texts without an exponent
never say the same number.
-/

namespace MCode.Validation

open MCode.Lib.Positional

/-! ## The number -/

def digitOf (c : Char) : ℕ := c.toNat - '0'.toNat

def signOf : Text → ℚ
  | '-' :: _ => -1
  | _ => 1

/-- The digits of the fraction, and what stands behind them. -/
def splitFraction : Text → Text × Text
  | '.' :: rest => (rest.takeWhile isAsciiDigit, rest.dropWhile isAsciiDigit)
  | rest => ([], rest)

def exponentOf : Text → ℤ
  | 'e' :: '-' :: digits => -(big 10 (digits.map digitOf) : ℤ)
  | 'e' :: digits => big 10 (digits.map digitOf)
  | _ => 0

/-- The number behind the sign. -/
def unsignedValue (text : Text) : ℚ :=
  let (fraction, rest) := splitFraction (text.dropWhile isAsciiDigit)
  pointed 10 ((text.takeWhile isAsciiDigit).map digitOf) (fraction.map digitOf) *
    10 ^ exponentOf rest

/-- The number that a text of the grammar denotes. -/
def numberValue (text : Text) : ℚ := signOf text * unsignedValue (withoutSign text)

example : numberValue "-12.05e3".toList = -12050 := by decide +kernel

/-! ## Spellings without an exponent -/

theorem digitOf_lt {c : Char} (h : isAsciiDigit c = true) : digitOf c < 10 := by
  have hnine : '9'.toNat = 57 := rfl
  have hzero : '0'.toNat = 48 := rfl
  have hle (x y : Char) : x ≤ y ↔ x.toNat ≤ y.toNat := Iff.rfl
  unfold isAsciiDigit at h
  simp only [Bool.and_eq_true, decide_eq_true_eq, hle] at h
  unfold digitOf
  omega

theorem digitOf_inj {c d : Char} (hc : isAsciiDigit c = true) (hd : isAsciiDigit d = true)
    (h : digitOf c = digitOf d) : c = d := by
  have hle (x y : Char) : x ≤ y ↔ x.toNat ≤ y.toNat := Iff.rfl
  unfold isAsciiDigit at hc hd
  simp only [Bool.and_eq_true, decide_eq_true_eq, hle] at hc hd
  unfold digitOf at h
  apply Char.toNat_inj.1
  omega

theorem map_digitOf_inj {text other : Text} (htext : ∀ c ∈ text, isAsciiDigit c = true)
    (hother : ∀ c ∈ other, isAsciiDigit c = true)
    (h : text.map digitOf = other.map digitOf) : text = other := by
  induction text generalizing other with
  | nil => exact (List.map_eq_nil_iff.1 h.symm).symm
  | cons c text ih =>
      cases other with
      | nil => cases h
      | cons d other =>
          obtain ⟨hhead, htail⟩ := List.cons.inj h
          rw [digitOf_inj (htext c List.mem_cons_self) (hother d List.mem_cons_self) hhead,
            ih (fun e he => htext e (List.mem_cons_of_mem _ he))
              (fun e he => hother e (List.mem_cons_of_mem _ he)) htail]

/-- The point and the fraction, where there is one. -/
def fractionText : Text → Text
  | [] => []
  | fraction => '.' :: fraction

/-- An unsigned text without an exponent, by its parts. -/
structure Spells (whole fraction text : Text) : Prop where
  split : text = whole ++ fractionText fraction
  whole_digits : ∀ c ∈ whole, isAsciiDigit c = true
  fraction_digits : ∀ c ∈ fraction, isAsciiDigit c = true
  canonical : Canonical 10 (whole.map digitOf) (fraction.map digitOf)

theorem fractionText_plain (fraction : Text) : StartsPlain (fractionText fraction) := by
  cases fraction with
  | nil => nofun
  | cons c fraction =>
      intro d hd
      cases hd
      decide

theorem Spells.value {whole fraction text : Text} (h : Spells whole fraction text) :
    unsignedValue text = pointed 10 (whole.map digitOf) (fraction.map digitOf) := by
  have hsplit : splitFraction (fractionText fraction) = (fraction, []) := by
    cases fraction with
    | nil => rfl
    | cons c fraction =>
        have hall := h.fraction_digits
        have htake := @takeWhile_digits _ [] hall nofun
        have hdrop := @dropWhile_digits _ [] hall nofun
        rw [List.append_nil] at htake hdrop
        show ((c :: fraction).takeWhile isAsciiDigit, (c :: fraction).dropWhile isAsciiDigit) = _
        rw [htake, hdrop]
  unfold unsignedValue
  rw [h.split, takeWhile_digits h.whole_digits (fractionText_plain fraction),
    dropWhile_digits h.whole_digits (fractionText_plain fraction), hsplit]
  show _ * (10 : ℚ) ^ (0 : ℤ) = _
  rw [zpow_zero, mul_one]

theorem isNonzeroDigit_digitOf {c : Char} (h : isNonzeroDigit c = true) : digitOf c ≠ 0 := by
  have hone : '1'.toNat = 49 := rfl
  have hzero : '0'.toNat = 48 := rfl
  have hle (x y : Char) : x ≤ y ↔ x.toNat ≤ y.toNat := Iff.rfl
  unfold isNonzeroDigit at h
  simp only [Bool.and_eq_true, decide_eq_true_eq, hle] at h
  unfold digitOf
  omega

theorem map_digitOf_lt {text : Text} (h : ∀ c ∈ text, isAsciiDigit c = true) :
    ∀ d ∈ text.map digitOf, d < 10 := by
  intro d hd
  obtain ⟨c, hc, rfl⟩ := List.mem_map.1 hd
  exact digitOf_lt (h c hc)

theorem decimals_digits {text : Text} (h : text ∈ decimals) :
    (∀ c ∈ text, isAsciiDigit c = true) ∧ (text.map digitOf).getLast? ≠ some 0 ∧ text ≠ [] := by
  obtain ⟨digits, last, hdigits, hlast, rfl⟩ := mem_decimals.1 h
  refine ⟨?_, ?_, by simp⟩
  · intro c hc
    rcases List.mem_append.1 hc with hc | hc
    · exact hdigits c hc
    · rw [List.mem_singleton.1 hc]
      exact (isNonzeroDigit_iff.1 hlast).1
  · rw [List.map_append, List.map_singleton, List.getLast?_concat]
    exact fun h => isNonzeroDigit_digitOf hlast (Option.some.inj h)

theorem fractionText_ne {fraction : Text} (h : fraction ≠ []) :
    fractionText fraction = '.' :: fraction := by
  cases fraction with
  | nil => exact absurd rfl h
  | cons c fraction => rfl

theorem zero_digits : ∀ c ∈ ['0'], isAsciiDigit c = true := by
  intro c hc
  rw [List.mem_singleton.1 hc]
  decide

/-- An unsigned text of the grammar is spelled by its parts, and is not zero. -/
theorem spells_unsigned {text : Text} (h : text ∈ unsignedNumber) (he : 'e' ∉ text) :
    ∃ whole fraction, Spells whole fraction text ∧ (whole ≠ ['0'] ∨ fraction ≠ []) := by
  -- without an exponent, the text is its first part
  have hfront : text ∈ wholePart * optionally ({['.']} * decimals) + {['0', '.']} * decimals := by
    obtain ⟨front, hfront, behind, hbehind, rfl⟩ := h
    rcases mem_optionally.1 hbehind with rfl | hexponent
    · show front ++ [] ∈ _
      rwa [List.append_nil]
    · obtain ⟨rest, -, rfl⟩ := mem_literal_mul.1 hexponent
      exact absurd (by simp) he
  rw [Language.mem_add] at hfront
  rcases hfront with ⟨whole, hwhole, behind, hbehind, rfl⟩ | hzero
  · obtain ⟨first, digits, hfirst, hdigits, rfl⟩ := mem_wholePart.1 hwhole
    have hnonzero := isNonzeroDigit_iff.1 hfirst
    have hall : ∀ c ∈ first :: digits, isAsciiDigit c = true := by
      intro c hc
      rcases List.mem_cons.1 hc with rfl | hc
      · exact hnonzero.1
      · exact hdigits c hc
    have hleading : (first :: digits).map digitOf ≠ [] ∧
        ((first :: digits).map digitOf).head? ≠ some 0 :=
      ⟨by simp, fun h => isNonzeroDigit_digitOf hfirst (Option.some.inj h)⟩
    have hother : first :: digits ≠ ['0'] := fun h => hnonzero.2 (List.cons.inj h).1
    rcases mem_optionally.1 hbehind with rfl | hfraction
    · exact ⟨first :: digits, [], ⟨rfl, hall, nofun, map_digitOf_lt hall, nofun,
        Or.inr hleading, nofun⟩, Or.inl hother⟩
    · obtain ⟨fraction, hdecimals, rfl⟩ := mem_literal_mul.1 hfraction
      obtain ⟨hfractional, htrailing, hne⟩ := decimals_digits hdecimals
      refine ⟨first :: digits, fraction, ⟨?_, hall, hfractional, map_digitOf_lt hall,
        map_digitOf_lt hfractional, Or.inr hleading, htrailing⟩, Or.inl hother⟩
      rw [fractionText_ne hne]
      rfl
  · obtain ⟨fraction, hfraction, rfl⟩ := mem_literal_mul.1 hzero
    obtain ⟨hfractional, htrailing, hne⟩ := decimals_digits hfraction
    refine ⟨['0'], fraction, ⟨?_, zero_digits, hfractional, map_digitOf_lt zero_digits,
      map_digitOf_lt hfractional, Or.inl rfl, htrailing⟩, Or.inr hne⟩
    rw [fractionText_ne hne]
    rfl

theorem Spells.inj {whole fraction text whole' fraction' other : Text}
    (h : Spells whole fraction text) (h' : Spells whole' fraction' other)
    (heq : unsignedValue text = unsignedValue other) : text = other := by
  rw [h.value, h'.value] at heq
  obtain ⟨hwhole, hfraction⟩ := pointed_inj (by omega) h.canonical h'.canonical heq
  rw [h.split, h'.split, map_digitOf_inj h.whole_digits h'.whole_digits hwhole,
    map_digitOf_inj h.fraction_digits h'.fraction_digits hfraction]

theorem Spells.pos {whole fraction text : Text} (h : Spells whole fraction text)
    (hne : whole ≠ ['0'] ∨ fraction ≠ []) : 0 < unsignedValue text := by
  rw [h.value]
  apply pointed_pos (by omega) h.canonical
  rcases hne with hne | hne
  · refine Or.inl fun hzero => hne ?_
    exact map_digitOf_inj h.whole_digits zero_digits hzero
  · exact Or.inr fun hnil => hne (List.map_eq_nil_iff.1 hnil)

/-! ## Signs -/

theorem numberValue_plain {text : Text} (h : text ∈ unsignedNumber) :
    numberValue text = unsignedValue text := by
  have hsign (rest : Text) : text ≠ '-' :: rest := by
    rintro rfl
    exact unsignedNumber_plain rest h
  have hwithout : withoutSign text = text := by
    unfold withoutSign
    split
    · exact absurd rfl (hsign _)
    · rfl
  have hone : signOf text = 1 := by
    unfold signOf
    split
    · exact absurd rfl (hsign _)
    · rfl
  unfold numberValue
  rw [hwithout, hone, one_mul]

theorem numberValue_minus (rest : Text) : numberValue ('-' :: rest) = -unsignedValue rest :=
  neg_one_mul _

theorem numberValue_zero : numberValue ['0'] = 0 := by decide +kernel

/-- A number text is zero, or a positive number with or without a minus. -/
theorem numberGrammar_cases {text : Text} (h : text ∈ numberGrammar) :
    text = ['0'] ∨ text ∈ unsignedNumber ∨ ∃ rest ∈ unsignedNumber, text = '-' :: rest := by
  unfold numberGrammar optionally at h
  rw [Language.mem_add, add_mul, one_mul, Language.mem_add] at h
  exact h.imp id (Or.imp id mem_literal_mul.1)

theorem unsigned_pos {text : Text} (h : text ∈ unsignedNumber) (he : 'e' ∉ text) :
    0 < unsignedValue text := by
  obtain ⟨whole, fraction, hspells, hne⟩ := spells_unsigned h he
  exact hspells.pos hne

theorem unsigned_inj {text other : Text} (h : text ∈ unsignedNumber) (he : 'e' ∉ text)
    (h' : other ∈ unsignedNumber) (he' : 'e' ∉ other)
    (heq : unsignedValue text = unsignedValue other) : text = other := by
  obtain ⟨whole, fraction, hspells, -⟩ := spells_unsigned h he
  obtain ⟨whole', fraction', hspells', -⟩ := spells_unsigned h' he'
  exact hspells.inj hspells' heq

/-- Two texts of the grammar without an exponent denote different numbers. -/
theorem numberValue_inj {text other : Text} (h : text ∈ numberGrammar) (he : 'e' ∉ text)
    (h' : other ∈ numberGrammar) (he' : 'e' ∉ other)
    (heq : numberValue text = numberValue other) : text = other := by
  have hpos {text : Text} (h : text ∈ unsignedNumber) (he : 'e' ∉ text) :
      0 < numberValue text := by
    rw [numberValue_plain h]
    exact unsigned_pos h he
  have hneg {rest : Text} (h : rest ∈ unsignedNumber) (he : 'e' ∉ '-' :: rest) :
      numberValue ('-' :: rest) < 0 := by
    rw [numberValue_minus]
    exact neg_neg_of_pos (unsigned_pos h fun hmem => he (List.mem_cons_of_mem _ hmem))
  have hzero := numberValue_zero
  rcases numberGrammar_cases h with rfl | hplain | ⟨rest, hrest, rfl⟩
  · rcases numberGrammar_cases h' with rfl | hplain' | ⟨rest', hrest', rfl⟩
    · rfl
    · have := hpos hplain' he'
      linarith
    · have := hneg hrest' he'
      linarith
  · have hpositive := hpos hplain he
    rcases numberGrammar_cases h' with rfl | hplain' | ⟨rest', hrest', rfl⟩
    · linarith
    · rw [numberValue_plain hplain, numberValue_plain hplain'] at heq
      exact unsigned_inj hplain he hplain' he' heq
    · have := hneg hrest' he'
      linarith
  · have hnegative := hneg hrest he
    rcases numberGrammar_cases h' with rfl | hplain' | ⟨rest', hrest', rfl⟩
    · linarith
    · have := hpos hplain' he'
      linarith
    · rw [numberValue_minus, numberValue_minus] at heq
      rw [unsigned_inj hrest (fun hmem => he (List.mem_cons_of_mem _ hmem)) hrest'
        (fun hmem => he' (List.mem_cons_of_mem _ hmem)) (neg_inj.1 heq)]

/-! ## What is accepted -/

/-- **The scanner accepts the grammar, and no number twice.**  A text is accepted if and only
if it has 1 to 128 bytes and is one of the grammar; two accepted texts without an exponent
that denote the same number are the same text. -/
theorem canonical_number_exact :
    (∀ value : String, isCanonicalNumber value = true ↔
      1 ≤ utf8Len value.toList ∧ utf8Len value.toList ≤ 128 ∧ value.toList ∈ numberGrammar) ∧
      ∀ left right : String, isCanonicalNumber left = true → isCanonicalNumber right = true →
        'e' ∉ left.toList → 'e' ∉ right.toList →
        numberValue left.toList = numberValue right.toList → left = right := by
  constructor
  · intro value
    rw [isCanonicalNumber_iff]
    constructor
    · rintro ⟨hbytes, hgrammar⟩
      exact ⟨utf8Len_pos fun hnil => numberGrammar_nonempty (hnil ▸ hgrammar), hbytes, hgrammar⟩
    · rintro ⟨-, hbytes, hgrammar⟩
      exact ⟨hbytes, hgrammar⟩
  · intro left right hleft hright he he' heq
    obtain ⟨-, hgrammar⟩ := isCanonicalNumber_iff.1 hleft
    obtain ⟨-, hgrammar'⟩ := isCanonicalNumber_iff.1 hright
    exact String.toList_inj.1 (numberValue_inj hgrammar he hgrammar' he' heq)

theorem canonical_number_half :
    isCanonicalNumber "-0.5" = true ∧ "-0.5" = String.ofList ['-', '0', '.', '5'] ∧
      numberValue "1.5".toList ≠ numberValue "15".toList := by
  have haccepted : isCanonicalNumber "-0.5" = true := by decide +kernel
  refine ⟨haccepted, ?_, ?_⟩
  · apply canonical_number_exact.2 _ _ haccepted
    · decide +kernel
    · decide
    · decide
    · decide +kernel
  · intro heq
    have hsame := canonical_number_exact.2 "1.5" "15" (by decide +kernel) (by decide +kernel)
      (by decide) (by decide) heq
    exact absurd hsame (by decide)

end MCode.Validation
