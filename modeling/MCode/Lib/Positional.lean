import Mathlib

/-!
# Positional numbers

Digits of a whole part and of a fraction, the most significant first, and the
rational number that they write in a base.  A spelling without needless zeros,
in front of the whole part or behind the fraction, is the only one of its
number.
-/

namespace MCode.Lib.Positional

variable {b : ℕ}

/-- The number that digits write, the most significant first. -/
def big (b : ℕ) (digits : List ℕ) : ℕ := Nat.ofDigits b digits.reverse

/-- The number that a whole part and a fraction write. -/
def pointed (b : ℕ) (whole fraction : List ℕ) : ℚ :=
  big b whole + big b fraction / (b : ℚ) ^ fraction.length

/-! ## Digits -/

theorem big_append (left right : List ℕ) :
    big b (left ++ right) = big b right + b ^ right.length * big b left := by
  unfold big
  rw [List.reverse_append, Nat.ofDigits_append, List.length_reverse]

theorem big_lt {digits : List ℕ} (hb : 1 < b) (h : ∀ d ∈ digits, d < b) :
    big b digits < b ^ digits.length := by
  have hlt := Nat.ofDigits_lt_base_pow_length hb
    (l := digits.reverse) fun d hd => h d (List.mem_reverse.1 hd)
  rwa [List.length_reverse] at hlt

theorem big_concat_mod {digits : List ℕ} {last : ℕ} (h : last < b) :
    big b (digits ++ [last]) % b = last := by
  have hone : big b [last] = last := Nat.ofDigits_singleton
  rw [big_append, hone, List.length_singleton, Nat.pow_one, Nat.add_mul_mod_self_left,
    Nat.mod_eq_of_lt h]

/-- Digits of one length are the only ones of their number. -/
theorem big_inj {left right : List ℕ} (hb : 1 < b) (hlength : left.length = right.length)
    (hleft : ∀ d ∈ left, d < b) (hright : ∀ d ∈ right, d < b) (h : big b left = big b right) :
    left = right := by
  apply List.reverse_injective
  apply Nat.ofDigits_inj_of_len_eq hb
  · rw [List.length_reverse, List.length_reverse, hlength]
  · exact fun d hd => hleft d (List.mem_reverse.1 hd)
  · exact fun d hd => hright d (List.mem_reverse.1 hd)
  · exact h

/-- Digits without a zero in front are those of their number. -/
theorem digits_big {digits : List ℕ} (hb : 1 < b) (h : ∀ d ∈ digits, d < b)
    (hfirst : digits.head? ≠ some 0) : Nat.digits b (big b digits) = digits.reverse := by
  apply Nat.digits_ofDigits b hb
  · exact fun d hd => h d (List.mem_reverse.1 hd)
  · intro hne hlast
    apply hfirst
    rw [← List.getLast?_reverse, List.getLast?_eq_some_getLast hne, hlast]

/-! ## Whole part and fraction -/

/-- A spelling without needless zeros. -/
structure Canonical (b : ℕ) (whole fraction : List ℕ) : Prop where
  whole_lt : ∀ d ∈ whole, d < b
  fraction_lt : ∀ d ∈ fraction, d < b
  leading : whole = [0] ∨ whole ≠ [] ∧ whole.head? ≠ some 0
  trailing : fraction.getLast? ≠ some 0

theorem Canonical.zero (hb : 1 < b) : Canonical b [0] [] where
  whole_lt d hd := by
    rw [List.mem_singleton.1 hd]
    omega
  fraction_lt := nofun
  leading := Or.inl rfl
  trailing := nofun

/-- The digits as those of one number, over a power of the base. -/
theorem pointed_eq (hb : 1 < b) (whole fraction : List ℕ) :
    pointed b whole fraction = big b (whole ++ fraction) / (b : ℚ) ^ fraction.length := by
  have hpos : (0 : ℚ) < (b : ℚ) ^ fraction.length := by
    have hbase : (0 : ℚ) < b := by exact_mod_cast Nat.lt_of_succ_lt hb
    positivity
  unfold pointed
  rw [big_append]
  push_cast
  field_simp
  ring

theorem pointed_nonneg (whole fraction : List ℕ) : 0 ≤ pointed b whole fraction := by
  have hbase : (0 : ℚ) ≤ b := Nat.cast_nonneg b
  unfold pointed
  exact add_nonneg (Nat.cast_nonneg _) (div_nonneg (Nat.cast_nonneg _) (pow_nonneg hbase _))

/-- A fraction that is longer ends in another digit than zero, so its number is another. -/
theorem fraction_length_le {whole whole' fraction fraction' : List ℕ} (hb : 1 < b)
    (h' : Canonical b whole' fraction')
    (heq : pointed b whole fraction = pointed b whole' fraction') :
    fraction'.length ≤ fraction.length := by
  by_contra hlonger
  rw [Nat.not_le] at hlonger
  obtain ⟨extra, hextra⟩ : ∃ extra, fraction'.length = fraction.length + (extra + 1) :=
    ⟨fraction'.length - fraction.length - 1, by omega⟩
  have hbase : (b : ℚ) ≠ 0 := by
    have : b ≠ 0 := by omega
    exact_mod_cast this
  -- the longer one is the shorter one, with zeros behind
  have hshift : big b (whole' ++ fraction') = big b (whole ++ fraction) * b ^ extra * b := by
    rw [pointed_eq hb, pointed_eq hb, hextra, pow_add, pow_succ] at heq
    field_simp at heq
    have hcast : (big b (whole' ++ fraction') : ℚ) =
        ((big b (whole ++ fraction) * b ^ extra * b : ℕ) : ℚ) := by
      push_cast
      linarith
    exact_mod_cast hcast
  have hne : fraction' ≠ [] := by
    rintro rfl
    exact absurd hlonger (Nat.not_lt_zero _)
  obtain ⟨digits, last, rfl⟩ : ∃ digits last, fraction' = digits ++ [last] :=
    ⟨fraction'.dropLast, fraction'.getLast hne, (List.dropLast_append_getLast hne).symm⟩
  have hlast : big b (whole' ++ (digits ++ [last])) % b = last := by
    rw [← List.append_assoc]
    exact big_concat_mod (h'.fraction_lt last (by simp))
  rw [hshift, Nat.mul_mod_left] at hlast
  apply h'.trailing
  rw [List.getLast?_concat, ← hlast]

/-- The digits of a whole part are those of its number, but for the zero. -/
theorem whole_inj {whole whole' fraction fraction' : List ℕ} (hb : 1 < b)
    (h : Canonical b whole fraction) (h' : Canonical b whole' fraction')
    (heq : big b whole = big b whole') : whole = whole' := by
  have hzero : Nat.digits b (big b [0]) = [] := by
    rw [show big b [0] = 0 from Nat.ofDigits_singleton, Nat.digits_zero]
  have hdigits := congrArg (Nat.digits b) heq
  rcases h.leading with rfl | ⟨hne, hfirst⟩
  · rcases h'.leading with rfl | ⟨hne', hfirst'⟩
    · rfl
    · rw [hzero, digits_big hb h'.whole_lt hfirst'] at hdigits
      exact absurd (List.reverse_eq_nil_iff.1 hdigits.symm) hne'
  · rcases h'.leading with rfl | ⟨hne', hfirst'⟩
    · rw [hzero, digits_big hb h.whole_lt hfirst] at hdigits
      exact absurd (List.reverse_eq_nil_iff.1 hdigits) hne
    · rw [digits_big hb h.whole_lt hfirst, digits_big hb h'.whole_lt hfirst'] at hdigits
      exact List.reverse_injective hdigits

/-- **A spelling without needless zeros is the only one of its number.** -/
theorem pointed_inj {whole whole' fraction fraction' : List ℕ} (hb : 1 < b)
    (h : Canonical b whole fraction) (h' : Canonical b whole' fraction')
    (heq : pointed b whole fraction = pointed b whole' fraction') :
    whole = whole' ∧ fraction = fraction' := by
  have hlength : fraction.length = fraction'.length :=
    Nat.le_antisymm (fraction_length_le hb h heq.symm) (fraction_length_le hb h' heq)
  have hbase : (b : ℚ) ≠ 0 := by
    have : b ≠ 0 := by omega
    exact_mod_cast this
  have hsame : big b (whole ++ fraction) = big b (whole' ++ fraction') := by
    rw [pointed_eq hb, pointed_eq hb, hlength] at heq
    field_simp at heq
    exact_mod_cast heq
  rw [big_append, big_append, hlength] at hsame
  have hlt := big_lt hb h.fraction_lt
  have hlt' := big_lt hb h'.fraction_lt
  rw [hlength] at hlt
  have hpos : 0 < b ^ fraction'.length := Nat.pow_pos (by omega)
  have hfraction : big b fraction = big b fraction' := by
    have hmod := congrArg (· % b ^ fraction'.length) hsame
    simpa only [Nat.add_mul_mod_self_left, Nat.mod_eq_of_lt hlt, Nat.mod_eq_of_lt hlt']
      using hmod
  have hwhole : big b whole = big b whole' := by
    rw [hfraction] at hsame
    exact Nat.eq_of_mul_eq_mul_left hpos (Nat.add_left_cancel hsame)
  refine ⟨?_, big_inj hb hlength h.fraction_lt h'.fraction_lt hfraction⟩
  exact whole_inj hb h h' hwhole

/-- Only one spelling is that of zero. -/
theorem pointed_pos {whole fraction : List ℕ} (hb : 1 < b) (h : Canonical b whole fraction)
    (hne : whole ≠ [0] ∨ fraction ≠ []) : 0 < pointed b whole fraction := by
  have hnonneg : 0 ≤ pointed b whole fraction := pointed_nonneg whole fraction
  apply lt_of_le_of_ne hnonneg
  intro hzero
  have hspelling : pointed b [0] [] = 0 := by simp [pointed, big]
  obtain ⟨hwhole, hfraction⟩ :=
    pointed_inj hb h (Canonical.zero hb) (hzero.symm.trans hspelling.symm)
  rcases hne with hne | hne
  · exact hne hwhole
  · exact hne hfraction

end MCode.Lib.Positional
