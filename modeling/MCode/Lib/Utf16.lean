import MCode.Lib.Utf8

/-!
# UTF-16

A character is one unit or a pair of surrogates.  Units below the surrogates
stand for themselves, and a text is known by its units.
-/

namespace MCode.Lib.Utf16

def encodeChar (c : Char) : List UInt16 :=
  let code := c.toNat
  if code < 0x10000 then [UInt16.ofNat code]
  else [UInt16.ofNat (0xD800 + (code - 0x10000) / 0x400),
    UInt16.ofNat (0xDC00 + (code - 0x10000) % 0x400)]

def encode (text : List Char) : List UInt16 := text.flatMap encodeChar

@[simp] theorem encode_nil : encode [] = [] := rfl

@[simp] theorem encode_cons (c : Char) (text : List Char) :
    encode (c :: text) = encodeChar c ++ encode text := rfl

/-- A character is not a surrogate, and below `0x110000`. -/
theorem toNat_cases (c : Char) :
    c.toNat < 0xD800 ∨ 0xE000 ≤ c.toNat ∧ c.toNat < 0x110000 := by
  have hvalid := c.valid
  simp only [UInt32.isValidChar, Nat.isValidChar] at hvalid
  show c.val.toNat < 0xD800 ∨ 0xE000 ≤ c.val.toNat ∧ c.val.toNat < 0x110000
  omega

theorem encodeChar_cases (c : Char) :
    (c.toNat < 0x10000 ∧ encodeChar c = [UInt16.ofNat c.toNat] ∧
      (UInt16.ofNat c.toNat).toNat = c.toNat) ∨
    (0x10000 ≤ c.toNat ∧ ∃ high low : UInt16, encodeChar c = [high, low] ∧
      high.toNat = 0xD800 + (c.toNat - 0x10000) / 0x400 ∧
      low.toNat = 0xDC00 + (c.toNat - 0x10000) % 0x400) := by
  have hcases := toNat_cases c
  by_cases hone : c.toNat < 0x10000
  · refine Or.inl ⟨hone, if_pos hone, ?_⟩
    rw [UInt16.toNat_ofNat']
    omega
  · refine Or.inr ⟨by omega, _, _, if_neg hone, ?_, ?_⟩
    · rw [UInt16.toNat_ofNat']
      omega
    · rw [UInt16.toNat_ofNat']
      omega

/-- A character outside the supplementary planes is one unit. -/
theorem encode_length {text : List Char} (h : ∀ c ∈ text, c.toNat < 0x10000) :
    (encode text).length = text.length := by
  induction text with
  | nil => rfl
  | cons c text ih =>
      have hone : encodeChar c = [UInt16.ofNat c.toNat] := if_pos (h c (List.mem_cons_self ..))
      rw [encode_cons, List.length_append, hone, ih fun d hd => h d (List.mem_cons_of_mem _ hd)]
      show 1 + text.length = text.length + 1
      omega

/-- The characters of the units, and `none` for each surrogate that is not one of
a pair. -/
def chunks : List UInt16 → List (Option Char)
  | [] => []
  | [unit] =>
      [if unit.toNat < 0xD800 ∨ 0xE000 ≤ unit.toNat then some (Char.ofNat unit.toNat) else none]
  | unit :: low :: units =>
      if unit.toNat < 0xD800 ∨ 0xE000 ≤ unit.toNat then
        some (Char.ofNat unit.toNat) :: chunks (low :: units)
      else if unit.toNat < 0xDC00 ∧ 0xDC00 ≤ low.toNat ∧ low.toNat < 0xE000 then
        some (Char.ofNat (0x10000 + (unit.toNat - 0xD800) * 0x400 + (low.toNat - 0xDC00))) ::
          chunks units
      else none :: chunks (low :: units)

/-- The text of the units, the replacement character standing for what is none. -/
def lossy (units : List UInt16) : List Char :=
  (chunks units).map fun chunk => chunk.getD '\uFFFD'

/-- The text of the units, if they are one. -/
def decode (units : List UInt16) : Option (List Char) :=
  (chunks units).mapM id

theorem chunks_encodeChar (c : Char) (units : List UInt16) :
    chunks (encodeChar c ++ units) = some c :: chunks units := by
  have hcases := toNat_cases c
  cases encodeChar_cases c with
  | inl hone =>
      have hunit : (UInt16.ofNat c.toNat).toNat < 0xD800 ∨
          0xE000 ≤ (UInt16.ofNat c.toNat).toNat := by
        rw [hone.2.2]
        omega
      rw [hone.2.1, List.singleton_append]
      cases units with
      | nil =>
          show [if _ then _ else _] = [some c]
          rw [if_pos hunit, hone.2.2, Char.ofNat_toNat]
      | cons next units => rw [chunks, if_pos hunit, hone.2.2, Char.ofNat_toNat]
  | inr hpair =>
      obtain ⟨hcode, high, low, heq, hhigh, hlow⟩ := hpair
      have hcode' : 0x10000 + (high.toNat - 0xD800) * 0x400 + (low.toNat - 0xDC00) = c.toNat := by
        omega
      rw [heq, List.cons_append, List.singleton_append, chunks, if_neg (by omega),
        if_pos (by omega), hcode', Char.ofNat_toNat]

theorem decode_encode (text : List Char) : decode (encode text) = some text := by
  have hchunks : chunks (encode text) = text.map some := by
    induction text with
    | nil => rfl
    | cons c text ih => rw [encode_cons, chunks_encodeChar, ih, List.map_cons]
  have hwhole : ∀ text : List Char, (text.map some).mapM id = some text := by
    intro text
    induction text with
    | nil => rfl
    | cons c text ih =>
        rw [List.map_cons, List.mapM_cons, ih]
        rfl
  unfold decode
  rw [hchunks, hwhole]

/-- Behind whole characters the decoder starts anew. -/
theorem chunks_append {units : List UInt16} (more : List UInt16) (h : none ∉ chunks units) :
    chunks (units ++ more) = chunks units ++ chunks more := by
  induction units using chunks.induct with
  | case1 => rfl
  | case2 unit =>
      by_cases hplain : unit.toNat < 0xD800 ∨ 0xE000 ≤ unit.toNat
      · have hone : chunks [unit] = [some (Char.ofNat unit.toNat)] := by
          show [if _ then _ else _] = _
          rw [if_pos hplain]
        rw [hone, List.singleton_append]
        cases more with
        | nil => exact hone
        | cons next more => rw [chunks, if_pos hplain, List.singleton_append]
      · refine absurd ?_ h
        show none ∈ [if _ then _ else _]
        rw [if_neg hplain]
        exact List.mem_singleton_self _
  | case3 unit low units hplain ih =>
      rw [chunks, if_pos hplain, List.mem_cons, not_or] at h
      have hrest := ih h.2
      rw [List.cons_append] at hrest
      rw [List.cons_append, List.cons_append, chunks, if_pos hplain, chunks, if_pos hplain, hrest,
        List.cons_append]
  | case4 unit low units hplain hpair ih =>
      rw [chunks, if_neg hplain, if_pos hpair, List.mem_cons, not_or] at h
      rw [List.cons_append, List.cons_append, chunks, if_neg hplain, if_pos hpair, chunks,
        if_neg hplain, if_pos hpair, ih h.2, List.cons_append]
  | case5 unit low units hplain hpair ih =>
      rw [chunks, if_neg hplain, if_neg hpair] at h
      exact absurd (List.mem_cons_self ..) h

theorem lossy_append {units : List UInt16} (more : List UInt16) (h : '\uFFFD' ∉ lossy units) :
    lossy (units ++ more) = lossy units ++ lossy more := by
  have hwhole : none ∉ chunks units := fun hnone => h (List.mem_map.2 ⟨none, hnone, rfl⟩)
  unfold lossy
  rw [chunks_append more hwhole, List.map_append]

/-- A rendering in UTF-8 has a byte at least for each unit. -/
theorem lossy_size (units : List UInt16) : units.length ≤ (Utf8.encode (lossy units)).length := by
  unfold lossy
  induction units using chunks.induct with
  | case1 => exact Nat.le_refl _
  | case2 unit =>
      show 1 ≤ (Utf8.encode [_]).length
      rw [Utf8.encode_cons_length]
      exact Nat.le_add_right_of_le (Char.utf8Size_pos _)
  | case3 unit low units hplain ih =>
      have hpos := (Char.ofNat unit.toNat).utf8Size_pos
      rw [chunks, if_pos hplain, List.map_cons, Option.getD_some, Utf8.encode_cons_length]
      simp only [List.length_cons] at ih ⊢
      omega
  | case4 unit low units hplain hpair ih =>
      have hvalid : Nat.isValidChar
          (0x10000 + (unit.toNat - 0xD800) * 0x400 + (low.toNat - 0xDC00)) := by
        unfold Nat.isValidChar
        omega
      have hsize := (Utf8.le_utf8Size hvalid).2.2 (by omega)
      rw [chunks, if_neg hplain, if_pos hpair, List.map_cons, Option.getD_some,
        Utf8.encode_cons_length]
      rw [List.length_cons, List.length_cons]
      omega
  | case5 unit low units hplain hpair ih =>
      have hpos := Char.utf8Size_pos '\uFFFD'
      rw [chunks, if_neg hplain, if_neg hpair, List.map_cons, Option.getD_none,
        Utf8.encode_cons_length]
      simp only [List.length_cons] at ih ⊢
      omega

/-- A unit below the surrogates is in the encoding where its character is in
the text. -/
theorem mem_encode {text : List Char} {unit : UInt16} (h : unit.toNat < 0xD800) :
    unit ∈ encode text ↔ ∃ c ∈ text, c.toNat = unit.toNat := by
  rw [encode, List.mem_flatMap]
  refine exists_congr fun c => and_congr_right fun _ => ?_
  cases encodeChar_cases c with
  | inl hone =>
      rw [hone.2.1, List.mem_singleton, ← UInt16.toNat_inj, hone.2.2]
      exact eq_comm
  | inr hpair =>
      obtain ⟨hcode, high, low, heq, hhigh, hlow⟩ := hpair
      rw [heq]
      simp only [List.mem_cons, List.not_mem_nil, or_false, ← UInt16.toNat_inj]
      omega

theorem encodeChar_ne_nil (c : Char) : encodeChar c ≠ [] := by
  unfold encodeChar
  dsimp only
  split <;> simp

@[simp] theorem encode_eq_nil {text : List Char} : encode text = [] ↔ text = [] := by
  cases text with
  | nil => simp
  | cons c text => simp [encodeChar_ne_nil]

theorem encode_injective {text other : List Char} (h : encode text = encode other) :
    text = other := by
  have hread : some text = some other := by
    rw [← decode_encode text, h, decode_encode]
  exact Option.some.inj hread

end MCode.Lib.Utf16
