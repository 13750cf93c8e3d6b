import Mathlib

/-!
# Texts in UTF-8

A decoder that reads a list of bytes character by character.  Where no
character can be read it gives `none` for the longest front that could have
been the beginning of one (one byte at least), and goes on behind it.  The
lossy rendering of the bytes shows the replacement character for each `none`;
the bytes are a text if there is none.
-/

namespace MCode.Lib.Utf8

/-- Bytes in their usual order. -/
instance linearOrderUInt8 : LinearOrder UInt8 where
  le_refl := UInt8.le_refl
  le_trans _ _ _ := UInt8.le_trans
  le_antisymm _ _ := UInt8.le_antisymm
  le_total := UInt8.le_total
  lt_iff_le_not_ge a b := by
    simp only [UInt8.lt_iff_toNat_lt, UInt8.le_iff_toNat_le]
    omega
  toDecidableLE := inferInstance
  toDecidableEq := inferInstance
  toDecidableLT := inferInstance

/-- How many bytes the character with this first byte has; 0 for no first byte. -/
def width (first : UInt8) : Nat :=
  if first < 0x80 then 1
  else if first < 0xC2 then 0
  else if first < 0xE0 then 2
  else if first < 0xF0 then 3
  else if first < 0xF5 then 4
  else 0

/-- The bits of the first byte that belong to the character. -/
def leading (first : UInt8) : Nat :=
  if first < 0xE0 then first.toNat - 0xC0
  else if first < 0xF0 then first.toNat - 0xE0
  else first.toNat - 0xF0

def isContinuation (byte : UInt8) : Bool :=
  0x80 ≤ byte && byte ≤ 0xBF

/-- No overlong form, no surrogate and nothing above the last scalar begins so. -/
def secondFits (first second : UInt8) : Bool :=
  if first = 0xE0 then 0xA0 ≤ second && second ≤ 0xBF
  else if first = 0xED then 0x80 ≤ second && second ≤ 0x9F
  else if first = 0xF0 then 0x90 ≤ second && second ≤ 0xBF
  else if first = 0xF4 then 0x80 ≤ second && second ≤ 0x8F
  else isContinuation second

/-- Reads the last `n` bytes of a character. -/
def takeRest (code : Nat) : Nat → List UInt8 → Option Char × List UInt8
  | 0, bytes => (some (Char.ofNat code), bytes)
  | _ + 1, [] => (none, [])
  | n + 1, byte :: bytes =>
      if isContinuation byte then takeRest (code * 64 + (byte.toNat - 0x80)) n bytes
      else (none, byte :: bytes)

/-- Reads one character, or `none` for a front that is none; and what is left. -/
def takeChar (first : UInt8) (bytes : List UInt8) : Option Char × List UInt8 :=
  match width first with
  | 0 => (none, bytes)
  | 1 => (some (Char.ofNat first.toNat), bytes)
  | n + 2 =>
      match bytes with
      | [] => (none, [])
      | second :: bytes =>
          if secondFits first second then
            takeRest (leading first * 64 + (second.toNat - 0x80)) n bytes
          else (none, second :: bytes)

/-- The characters of at most `fuel` fronts. -/
def chunksWithin : Nat → List UInt8 → List (Option Char)
  | 0, _ => []
  | _ + 1, [] => []
  | fuel + 1, first :: bytes =>
      (takeChar first bytes).1 :: chunksWithin fuel (takeChar first bytes).2

def chunks (bytes : List UInt8) : List (Option Char) :=
  chunksWithin bytes.length bytes

/-- The text of the bytes, the replacement character standing for what is none. -/
def lossy (bytes : List UInt8) : List Char :=
  (chunks bytes).map fun chunk => chunk.getD '\uFFFD'

/-- The text of the bytes, if they are one. -/
def decode (bytes : List UInt8) : Option (List Char) :=
  (chunks bytes).mapM id

/-- The bytes of a text. -/
def encode (text : List Char) : List UInt8 :=
  text.flatMap String.utf8EncodeChar

example : lossy [0x61, 0xF0, 0x9F, 0x62, 0xFF] = ['a', '\uFFFD', 'b', '\uFFFD'] := by decide

theorem lossy_ne_nil {bytes : List UInt8} (h : bytes ≠ []) : lossy bytes ≠ [] := by
  cases bytes with
  | nil => exact absurd rfl h
  | cons first bytes => simp [lossy, chunks, chunksWithin]

/-! ## Characters of one byte -/

theorem toNat_ofNat (n : Nat) : (Char.ofNat n).toNat = if n.isValidChar then n else 0 := by
  by_cases h : n.isValidChar
  · rw [Char.ofNat, dif_pos h, if_pos h]
    rfl
  · rw [Char.ofNat, dif_neg h, if_neg h]
    rfl

theorem takeRest_rest {code n : Nat} {bytes : List UInt8} {byte : UInt8}
    (h : byte ∈ (takeRest code n bytes).2) : byte ∈ bytes := by
  induction n generalizing code bytes with
  | zero => exact h
  | succ n ih =>
      cases bytes with
      | nil => exact h
      | cons next bytes =>
          rw [takeRest] at h
          by_cases hnext : isContinuation next = true
          · rw [if_pos hnext] at h
            exact List.mem_cons_of_mem _ (ih h)
          · rw [if_neg hnext] at h
            exact h

/-- A character of several bytes is not one of the first 128. -/
theorem takeRest_char {code n : Nat} {bytes : List UInt8} {c : Char}
    (hcode : 128 ≤ code * 64 ^ n) (h : (takeRest code n bytes).1 = some c) :
    c.toNat = 0 ∨ 128 ≤ c.toNat := by
  induction n generalizing code bytes with
  | zero =>
      have hsame : Char.ofNat code = c := Option.some.inj h
      rw [← hsame, toNat_ofNat]
      by_cases hvalid : code.isValidChar
      · rw [if_pos hvalid]
        omega
      · rw [if_neg hvalid]
        exact Or.inl rfl
  | succ n ih =>
      cases bytes with
      | nil => cases h
      | cons next bytes =>
          rw [takeRest] at h
          by_cases hnext : isContinuation next = true
          · rw [if_pos hnext] at h
            refine ih ?_ h
            calc 128 ≤ code * 64 ^ (n + 1) := hcode
              _ = code * 64 * 64 ^ n := by rw [Nat.pow_succ', Nat.mul_assoc]
              _ ≤ (code * 64 + (next.toNat - 0x80)) * 64 ^ n :=
                  Nat.mul_le_mul_right _ (Nat.le_add_right _ _)
          · rw [if_neg hnext] at h
            cases h

/-- What the first two bytes say about the character: its bits up to the bytes
that are left, which are neither too few nor those of a surrogate, nor above the
last scalar. -/
theorem leading_second {first second : UInt8} {n : Nat} (hwidth : width first = n + 2)
    (hfits : secondFits first second = true) :
    let code := leading first * 64 + (second.toNat - 0x80)
    n = 0 ∧ 0x80 ≤ code ∧ code < 0x800 ∨
    n = 1 ∧ 0x20 ≤ code ∧ (code < 0x360 ∨ 0x380 ≤ code ∧ code < 0x400) ∨
    n = 2 ∧ 0x10 ≤ code ∧ code < 0x110 := by
  have hspan (low high : UInt8) : (low ≤ second && second ≤ high) = true ↔
      low.toNat ≤ second.toNat ∧ second.toNat ≤ high.toNat := by
    rw [Bool.and_eq_true, decide_eq_true_eq, decide_eq_true_eq, UInt8.le_iff_toNat_le,
      UInt8.le_iff_toNat_le]
  simp only [width, UInt8.lt_iff_toNat_lt, UInt8.reduceToNat] at hwidth
  simp only [secondFits, isContinuation, ← UInt8.toNat_inj, UInt8.reduceToNat] at hfits
  simp only [leading, UInt8.lt_iff_toNat_lt, UInt8.reduceToNat]
  have hthird : (first.toNat = 224 ∧ 160 ≤ second.toNat ∧ second.toNat ≤ 191) ∨
      (first.toNat = 237 ∧ 128 ≤ second.toNat ∧ second.toNat ≤ 159) ∨
      (first.toNat = 240 ∧ 144 ≤ second.toNat ∧ second.toNat ≤ 191) ∨
      (first.toNat = 244 ∧ 128 ≤ second.toNat ∧ second.toNat ≤ 143) ∨
      (first.toNat ≠ 224 ∧ first.toNat ≠ 237 ∧ first.toNat ≠ 240 ∧ first.toNat ≠ 244 ∧
        128 ≤ second.toNat ∧ second.toNat ≤ 191) := by
    split_ifs at hfits <;> rw [hspan] at hfits <;> simp only [UInt8.reduceToNat] at hfits <;> omega
  split_ifs at hwidth <;> split_ifs <;> omega

theorem takeChar_rest {first byte : UInt8} {bytes : List UInt8}
    (h : byte ∈ (takeChar first bytes).2) : byte ∈ bytes := by
  unfold takeChar at h
  split at h
  · exact h
  · exact h
  · cases bytes with
    | nil => exact h
    | cons second bytes =>
        by_cases hfits : secondFits first second = true
        · simp only [hfits, if_true] at h
          exact List.mem_cons_of_mem _ (takeRest_rest h)
        · simp only [hfits] at h
          exact h

/-- One of the first 128 characters is its one byte. -/
theorem takeChar_ascii {first : UInt8} {bytes : List UInt8} {c : Char}
    (h : (takeChar first bytes).1 = some c) (hpos : 0 < c.toNat) (hascii : c.toNat < 128) :
    first.toNat = c.toNat := by
  unfold takeChar at h
  split at h
  · cases h
  · rename_i hwidth
    rw [← Option.some.inj h, toNat_ofNat, if_pos]
    have hlt := first.toNat_lt
    exact Or.inl (by omega)
  · rename_i n hwidth
    cases bytes with
    | nil => cases h
    | cons second bytes =>
        by_cases hfits : secondFits first second = true
        · simp only [hfits, if_true] at h
          have hcode : 128 ≤ (leading first * 64 + (second.toNat - 0x80)) * 64 ^ n := by
            have hspan := leading_second hwidth hfits
            dsimp only at hspan
            obtain ⟨rfl, hspan⟩ | ⟨rfl, hspan⟩ | ⟨rfl, hspan⟩ := hspan <;> omega
          cases takeRest_char hcode h with
          | inl hzero => omega
          | inr hlarge => omega
        · simp only [hfits] at h
          cases h

theorem chunksWithin_ascii {fuel : Nat} {bytes : List UInt8} {c : Char}
    (h : some c ∈ chunksWithin fuel bytes) (hpos : 0 < c.toNat) (hascii : c.toNat < 128) :
    UInt8.ofNat c.toNat ∈ bytes := by
  induction fuel generalizing bytes with
  | zero => cases h
  | succ fuel ih =>
      cases bytes with
      | nil => cases h
      | cons first bytes =>
          rw [chunksWithin, List.mem_cons] at h
          cases h with
          | inl hfirst =>
              rw [← takeChar_ascii hfirst.symm hpos hascii, UInt8.ofNat_toNat]
              exact List.mem_cons_self
          | inr hrest => exact List.mem_cons_of_mem _ (takeChar_rest (ih hrest))

/-- One of the first 128 characters is in the rendering only if its byte is there. -/
theorem lossy_ascii {bytes : List UInt8} {c : Char} (h : c ∈ lossy bytes)
    (hpos : 0 < c.toNat) (hascii : c.toNat < 128) : UInt8.ofNat c.toNat ∈ bytes := by
  obtain ⟨chunk, hchunk, hc⟩ := List.mem_map.1 h
  cases chunk with
  | none =>
      rw [Option.getD_none] at hc
      subst hc
      exact absurd hascii (by decide)
  | some other =>
      rw [Option.getD_some] at hc
      subst hc
      exact chunksWithin_ascii hchunk hpos hascii

/-! ## Sizes -/

theorem takeRest_some {code n : Nat} {bytes rest : List UInt8} {c : Char}
    (h : takeRest code n bytes = (some c, rest)) :
    bytes.length = rest.length + n ∧
      ∃ value, c = Char.ofNat value ∧ code * 64 ^ n ≤ value ∧ value < (code + 1) * 64 ^ n := by
  induction n generalizing code bytes with
  | zero =>
      cases h
      exact ⟨rfl, code, rfl, by omega, by omega⟩
  | succ n ih =>
      cases bytes with
      | nil => cases h
      | cons next bytes =>
          rw [takeRest] at h
          by_cases hnext : isContinuation next = true
          · rw [if_pos hnext] at h
            obtain ⟨hlength, value, hc, hlow, hhigh⟩ := ih h
            simp only [isContinuation, Bool.and_eq_true, decide_eq_true_eq, UInt8.le_iff_toNat_le,
              UInt8.reduceToNat] at hnext
            refine ⟨by rw [List.length_cons]; omega, value, hc, ?_, ?_⟩
            · calc code * 64 ^ (n + 1) = code * 64 * 64 ^ n := by rw [Nat.pow_succ', Nat.mul_assoc]
                _ ≤ (code * 64 + (next.toNat - 0x80)) * 64 ^ n :=
                    Nat.mul_le_mul_right _ (Nat.le_add_right _ _)
                _ ≤ value := hlow
            · calc value < (code * 64 + (next.toNat - 0x80) + 1) * 64 ^ n := hhigh
                _ ≤ ((code + 1) * 64) * 64 ^ n := Nat.mul_le_mul_right _ (by omega)
                _ = (code + 1) * 64 ^ (n + 1) := by rw [Nat.pow_succ', Nat.mul_assoc]
          · rw [if_neg hnext] at h
            cases h

theorem takeRest_le (code n : Nat) (bytes : List UInt8) :
    (takeRest code n bytes).2.length ≤ bytes.length := by
  induction n generalizing code bytes with
  | zero => exact Nat.le_refl _
  | succ n ih =>
      cases bytes with
      | nil => exact Nat.le_refl _
      | cons next bytes =>
          rw [takeRest]
          split
          · exact Nat.le_succ_of_le (ih ..)
          · exact Nat.le_refl _

theorem takeChar_le (first : UInt8) (bytes : List UInt8) :
    (takeChar first bytes).2.length ≤ bytes.length := by
  unfold takeChar
  split
  · exact Nat.le_refl _
  · exact Nat.le_refl _
  · cases bytes with
    | nil => exact Nat.le_refl _
    | cons second bytes =>
        dsimp only
        split
        · exact Nat.le_succ_of_le (takeRest_le ..)
        · exact Nat.le_refl _

theorem takeRest_none {code n : Nat} {bytes : List UInt8} (h : (takeRest code n bytes).1 = none) :
    bytes.length < (takeRest code n bytes).2.length + n := by
  induction n generalizing code bytes with
  | zero => cases h
  | succ n ih =>
      cases bytes with
      | nil => exact Nat.succ_pos _
      | cons next bytes =>
          rw [takeRest] at h ⊢
          by_cases hnext : isContinuation next = true
          · rw [if_pos hnext] at h ⊢
            have hrest := ih h
            rw [List.length_cons]
            omega
          · rw [if_neg hnext, List.length_cons]
            omega

theorem le_utf8Size {value : Nat} (hvalid : value.isValidChar) :
    (0x80 ≤ value → 2 ≤ (Char.ofNat value).utf8Size) ∧
    (0x800 ≤ value → 3 ≤ (Char.ofNat value).utf8Size) ∧
    (0x10000 ≤ value → 4 ≤ (Char.ofNat value).utf8Size) := by
  have hcode : (Char.ofNat value).val.toNat = value := by
    show (Char.ofNat value).toNat = value
    rw [toNat_ofNat, if_pos hvalid]
  simp only [Char.utf8Size, UInt32.le_iff_toNat_le, UInt32.toNat_ofNatLT, hcode]
  split_ifs <;> omega

/-- A character is as long as its bytes, and the replacement character is not
shorter than what it stands for. -/
theorem takeChar_size (first : UInt8) (bytes : List UInt8) :
    bytes.length + 1 ≤
      (takeChar first bytes).2.length + ((takeChar first bytes).1.getD '\uFFFD').utf8Size := by
  have hreplacement : Char.utf8Size '\uFFFD' = 3 := by decide
  unfold takeChar
  split
  · rw [Option.getD_none, hreplacement]
    exact Nat.add_le_add_left (by decide) bytes.length
  · have hpos := (Char.ofNat first.toNat).utf8Size_pos
    exact Nat.add_le_add_left hpos bytes.length
  · rename_i n hwidth
    cases bytes with
    | nil => exact Nat.le_add_left 1 2
    | cons second bytes =>
        dsimp only
        by_cases hfits : secondFits first second = true
        · rw [if_pos hfits, List.length_cons]
          have hspan := leading_second hwidth hfits
          dsimp only at hspan
          generalize leading first * 64 + (second.toNat - 0x80) = code at hspan
          cases hrest : takeRest code n bytes with
          | mk chunk rest =>
              cases chunk with
              | none =>
                  have hshort := @takeRest_none code n bytes (by rw [hrest])
                  rw [hrest] at hshort
                  rw [Option.getD_none, hreplacement]
                  dsimp only at hshort ⊢
                  omega
              | some c =>
                  obtain ⟨hlength, value, rfl, hlow, hhigh⟩ := takeRest_some hrest
                  have hvalid : value.isValidChar := by
                    unfold Nat.isValidChar
                    obtain ⟨rfl, hspan⟩ | ⟨rfl, hspan⟩ | ⟨rfl, hspan⟩ := hspan <;> omega
                  have hsize := le_utf8Size hvalid
                  rw [Option.getD_some]
                  dsimp only
                  obtain ⟨rfl, hspan⟩ | ⟨rfl, hspan⟩ | ⟨rfl, hspan⟩ := hspan <;> omega
        · rw [if_neg hfits, Option.getD_none, hreplacement, List.length_cons]
          omega

theorem encode_cons_length (c : Char) (text : List Char) :
    (encode (c :: text)).length = c.utf8Size + (encode text).length := by
  rw [encode, List.flatMap_cons, List.length_append, String.length_utf8EncodeChar]
  rfl

theorem chunksWithin_size {fuel : Nat} {bytes : List UInt8} (h : bytes.length ≤ fuel) :
    bytes.length ≤
      (encode ((chunksWithin fuel bytes).map fun chunk => chunk.getD '\uFFFD')).length := by
  induction fuel generalizing bytes with
  | zero => exact Nat.le_trans h (Nat.zero_le _)
  | succ fuel ih =>
      cases bytes with
      | nil => exact Nat.zero_le _
      | cons first bytes =>
          have hsize := takeChar_size first bytes
          have hpos := takeChar_le first bytes
          rw [List.length_cons] at h ⊢
          have hrest := @ih (takeChar first bytes).2 (by omega)
          rw [chunksWithin, List.map_cons, encode_cons_length]
          omega

/-- A rendering is not shorter than its bytes. -/
theorem lossy_size (bytes : List UInt8) : bytes.length ≤ (encode (lossy bytes)).length :=
  chunksWithin_size (Nat.le_refl _)

/-! ## Bytes behind whole characters -/

theorem takeRest_append {code n : Nat} {bytes : List UInt8} (more : List UInt8)
    (h : (takeRest code n bytes).1 ≠ none) :
    takeRest code n (bytes ++ more) =
      ((takeRest code n bytes).1, (takeRest code n bytes).2 ++ more) := by
  induction n generalizing code bytes with
  | zero => rfl
  | succ n ih =>
      cases bytes with
      | nil => exact absurd rfl h
      | cons next bytes =>
          rw [List.cons_append, takeRest, takeRest]
          rw [takeRest] at h
          by_cases hnext : isContinuation next = true
          · rw [if_pos hnext] at h
            rw [if_pos hnext, if_pos hnext]
            exact ih h
          · rw [if_neg hnext] at h
            exact absurd rfl h

theorem takeChar_append {first : UInt8} {bytes : List UInt8} (more : List UInt8)
    (h : (takeChar first bytes).1 ≠ none) :
    takeChar first (bytes ++ more) =
      ((takeChar first bytes).1, (takeChar first bytes).2 ++ more) := by
  unfold takeChar at h ⊢
  split at h
  · exact absurd rfl h
  · rfl
  · cases bytes with
    | nil => exact absurd rfl h
    | cons second bytes =>
        rw [List.cons_append]
        dsimp only at h ⊢
        by_cases hfits : secondFits first second = true
        · rw [if_pos hfits] at h
          rw [if_pos hfits, if_pos hfits]
          exact takeRest_append more h
        · rw [if_neg hfits] at h
          exact absurd rfl h

theorem chunksWithin_fuel {fuel other : Nat} {bytes : List UInt8} (h : bytes.length ≤ fuel)
    (hother : bytes.length ≤ other) : chunksWithin fuel bytes = chunksWithin other bytes := by
  induction fuel generalizing bytes other with
  | zero =>
      rw [List.length_eq_zero_iff.1 (Nat.le_zero.1 h)]
      cases other <;> rfl
  | succ fuel ih =>
      cases bytes with
      | nil => cases other <;> rfl
      | cons first bytes =>
          have hle := takeChar_le first bytes
          rw [List.length_cons] at h hother
          obtain ⟨other, rfl⟩ : ∃ n, other = n + 1 := ⟨other - 1, by omega⟩
          rw [chunksWithin, chunksWithin, @ih other _ (by omega) (by omega)]

theorem chunks_cons (first : UInt8) (bytes : List UInt8) :
    chunks (first :: bytes) = (takeChar first bytes).1 :: chunks (takeChar first bytes).2 := by
  unfold chunks
  rw [List.length_cons, chunksWithin, chunksWithin_fuel (takeChar_le first bytes) (Nat.le_refl _)]

/-- Behind whole characters the decoder starts anew. -/
theorem chunks_append {bytes : List UInt8} (more : List UInt8) (h : none ∉ chunks bytes) :
    chunks (bytes ++ more) = chunks bytes ++ chunks more := by
  generalize hlength : bytes.length = length
  induction length using Nat.strongRecOn generalizing bytes with
  | ind length ih =>
      cases bytes with
      | nil => rfl
      | cons first bytes =>
          rw [chunks_cons, List.mem_cons, not_or] at h
          have hle := takeChar_le first bytes
          rw [List.length_cons] at hlength
          have hrest := @ih _ (by omega) (takeChar first bytes).2 h.2 rfl
          rw [List.cons_append, chunks_cons, chunks_cons, takeChar_append more (Ne.symm h.1),
            hrest, List.cons_append]

theorem lossy_append {bytes : List UInt8} (more : List UInt8) (h : '\uFFFD' ∉ lossy bytes) :
    lossy (bytes ++ more) = lossy bytes ++ lossy more := by
  have hwhole : none ∉ chunks bytes := fun hnone => h (List.mem_map.2 ⟨none, hnone, rfl⟩)
  unfold lossy
  rw [chunks_append more hwhole, List.map_append]

/-! ## The bytes of a text -/

theorem encode_cons (c : Char) (text : List Char) :
    encode (c :: text) = String.utf8EncodeChar c ++ encode text := rfl

theorem encode_append (first second : List Char) :
    encode (first ++ second) = encode first ++ encode second := List.flatMap_append

theorem encodeChar_ascii {c : Char} (h : c.toNat < 128) :
    String.utf8EncodeChar c = [UInt8.ofNat c.toNat] := by
  have hle : c.val.toNat ≤ 0x7F := by
    show c.toNat ≤ 0x7F
    omega
  unfold String.utf8EncodeChar
  dsimp only
  rw [if_pos hle]
  rfl

theorem toNat_byte {n : Nat} (h : n < 256) : (UInt8.ofNat n).toNat = n := by
  rw [UInt8.toNat_ofNat']
  show n % 256 = n
  omega

theorem isContinuation_tail {n : Nat} (h : n < 64) :
    isContinuation (UInt8.ofNat (n + 0x80)) = true := by
  simp only [isContinuation, Bool.and_eq_true, decide_eq_true_eq, UInt8.le_iff_toNat_le,
    UInt8.reduceToNat, toNat_byte (show n + 0x80 < 256 by omega)]
  omega

theorem width_toNat (first : UInt8) : width first =
    if first.toNat < 0x80 then 1 else if first.toNat < 0xC2 then 0
    else if first.toNat < 0xE0 then 2 else if first.toNat < 0xF0 then 3
    else if first.toNat < 0xF5 then 4 else 0 := by
  simp only [width, UInt8.lt_iff_toNat_lt, UInt8.reduceToNat]

theorem leading_toNat (first : UInt8) : leading first =
    if first.toNat < 0xE0 then first.toNat - 0xC0
    else if first.toNat < 0xF0 then first.toNat - 0xE0 else first.toNat - 0xF0 := by
  simp only [leading, UInt8.lt_iff_toNat_lt, UInt8.reduceToNat]

theorem secondFits_toNat {first second : UInt8}
    (hcontinues : 0x80 ≤ second.toNat ∧ second.toNat ≤ 0xBF)
    (hover3 : first.toNat = 0xE0 → 0xA0 ≤ second.toNat)
    (hsurrogate : first.toNat = 0xED → second.toNat ≤ 0x9F)
    (hover4 : first.toNat = 0xF0 → 0x90 ≤ second.toNat)
    (habove : first.toNat = 0xF4 → second.toNat ≤ 0x8F) : secondFits first second = true := by
  have hspan (low high : UInt8) : (low ≤ second && second ≤ high) = true ↔
      low.toNat ≤ second.toNat ∧ second.toNat ≤ high.toNat := by
    rw [Bool.and_eq_true, decide_eq_true_eq, decide_eq_true_eq, UInt8.le_iff_toNat_le,
      UInt8.le_iff_toNat_le]
  unfold secondFits isContinuation
  simp only [← UInt8.toNat_inj, UInt8.reduceToNat]
  split_ifs <;> rw [hspan] <;> simp only [UInt8.reduceToNat] <;> omega

/-- The decoder reads a character's own bytes as the character. -/
theorem takeChar_encodeChar (c : Char) (more : List UInt8) :
    ∃ first rest, String.utf8EncodeChar c = first :: rest ∧
      takeChar first (rest ++ more) = (some c, more) := by
  have hchar : Char.ofNat c.val.toNat = c := Char.ofNat_toNat c
  have hvalid : c.val.toNat.isValidChar := c.valid
  unfold Nat.isValidChar at hvalid
  unfold String.utf8EncodeChar
  dsimp only
  generalize c.val.toNat = v at hchar hvalid
  split
  · refine ⟨_, [], rfl, ?_⟩
    have hwidth : width (UInt8.ofNat v) = 1 := by
      rw [width_toNat, toNat_byte (by omega), if_pos (by omega)]
    rw [takeChar, hwidth, toNat_byte (by omega), hchar]
    rfl
  split
  · refine ⟨_, [_], rfl, ?_⟩
    have hfirst : (UInt8.ofNat (v / 64 % 0x20 + 0xC0)).toNat = v / 64 + 0xC0 := by
      rw [toNat_byte (by omega)]
      omega
    have hsecond : (UInt8.ofNat (v % 0x40 + 0x80)).toNat = v % 64 + 0x80 := toNat_byte (by omega)
    have hwidth : width (UInt8.ofNat (v / 64 % 0x20 + 0xC0)) = 2 := by
      rw [width_toNat, hfirst]
      split_ifs <;> omega
    have hfits : secondFits (UInt8.ofNat (v / 64 % 0x20 + 0xC0)) (UInt8.ofNat (v % 0x40 + 0x80)) =
        true := by
      apply secondFits_toNat <;> omega
    have hcode : leading (UInt8.ofNat (v / 64 % 0x20 + 0xC0)) * 64 +
        ((UInt8.ofNat (v % 0x40 + 0x80)).toNat - 0x80) = v := by
      rw [leading_toNat, hfirst, hsecond, if_pos (by omega)]
      omega
    rw [takeChar, hwidth]
    dsimp only [List.singleton_append]
    rw [if_pos hfits, hcode, takeRest, hchar]
  split
  · refine ⟨_, [_, _], rfl, ?_⟩
    have hfirst : (UInt8.ofNat (v / 4096 % 0x10 + 0xE0)).toNat = v / 4096 + 0xE0 := by
      rw [toNat_byte (by omega)]
      omega
    have hsecond : (UInt8.ofNat (v / 64 % 0x40 + 0x80)).toNat = v / 64 % 64 + 0x80 :=
      toNat_byte (by omega)
    have hthird : (UInt8.ofNat (v % 0x40 + 0x80)).toNat = v % 64 + 0x80 := toNat_byte (by omega)
    have hwidth : width (UInt8.ofNat (v / 4096 % 0x10 + 0xE0)) = 3 := by
      rw [width_toNat, hfirst]
      split_ifs <;> omega
    have hfits : secondFits (UInt8.ofNat (v / 4096 % 0x10 + 0xE0))
        (UInt8.ofNat (v / 64 % 0x40 + 0x80)) = true := by
      apply secondFits_toNat <;> omega
    have hcode : (leading (UInt8.ofNat (v / 4096 % 0x10 + 0xE0)) * 64 +
        ((UInt8.ofNat (v / 64 % 0x40 + 0x80)).toNat - 0x80)) * 64 +
          ((UInt8.ofNat (v % 0x40 + 0x80)).toNat - 0x80) = v := by
      rw [leading_toNat, hfirst, hsecond, hthird, if_neg (by omega), if_pos (by omega)]
      omega
    rw [takeChar, hwidth]
    dsimp only [List.cons_append, List.nil_append]
    rw [if_pos hfits, takeRest, if_pos (isContinuation_tail (by omega)), hcode, takeRest, hchar]
  · refine ⟨_, [_, _, _], rfl, ?_⟩
    have hfirst : (UInt8.ofNat (v / 262144 % 0x08 + 0xF0)).toNat = v / 262144 + 0xF0 := by
      rw [toNat_byte (by omega)]
      omega
    have hsecond : (UInt8.ofNat (v / 4096 % 0x40 + 0x80)).toNat = v / 4096 % 64 + 0x80 :=
      toNat_byte (by omega)
    have hthird : (UInt8.ofNat (v / 64 % 0x40 + 0x80)).toNat = v / 64 % 64 + 0x80 :=
      toNat_byte (by omega)
    have hfourth : (UInt8.ofNat (v % 0x40 + 0x80)).toNat = v % 64 + 0x80 := toNat_byte (by omega)
    have hwidth : width (UInt8.ofNat (v / 262144 % 0x08 + 0xF0)) = 4 := by
      rw [width_toNat, hfirst]
      split_ifs <;> omega
    have hfits : secondFits (UInt8.ofNat (v / 262144 % 0x08 + 0xF0))
        (UInt8.ofNat (v / 4096 % 0x40 + 0x80)) = true := by
      apply secondFits_toNat <;> omega
    have hcode : ((leading (UInt8.ofNat (v / 262144 % 0x08 + 0xF0)) * 64 +
        ((UInt8.ofNat (v / 4096 % 0x40 + 0x80)).toNat - 0x80)) * 64 +
          ((UInt8.ofNat (v / 64 % 0x40 + 0x80)).toNat - 0x80)) * 64 +
            ((UInt8.ofNat (v % 0x40 + 0x80)).toNat - 0x80) = v := by
      rw [leading_toNat, hfirst, hsecond, hthird, hfourth, if_neg (by omega), if_neg (by omega)]
      omega
    rw [takeChar, hwidth]
    dsimp only [List.cons_append, List.nil_append]
    rw [if_pos hfits, takeRest, if_pos (isContinuation_tail (by omega)), takeRest,
      if_pos (isContinuation_tail (by omega)), hcode, takeRest, hchar]

theorem decode_encode (text : List Char) : decode (encode text) = some text := by
  have hchunks : chunks (encode text) = text.map some := by
    induction text with
    | nil => rfl
    | cons c text ih =>
        obtain ⟨first, rest, hbytes, hread⟩ := takeChar_encodeChar c (encode text)
        rw [encode_cons, hbytes, List.cons_append, chunks_cons, hread, ih, List.map_cons]
  have hwhole : ∀ text : List Char, (text.map some).mapM id = some text := by
    intro text
    induction text with
    | nil => rfl
    | cons c text ih =>
        rw [List.map_cons, List.mapM_cons, ih]
        rfl
  unfold decode
  rw [hchunks, hwhole]

/-- A character of several bytes has no byte of the first 128. -/
theorem encodeChar_high {c : Char} (h : 128 ≤ c.toNat) {byte : UInt8}
    (hin : byte ∈ String.utf8EncodeChar c) : 128 ≤ byte.toNat := by
  have hcode : 128 ≤ c.val.toNat := h
  have hbyte {n : Nat} (hlow : 128 ≤ n) (hhigh : n < 256) : 128 ≤ (UInt8.ofNat n).toNat := by
    rw [toNat_byte hhigh]
    exact hlow
  unfold String.utf8EncodeChar at hin
  dsimp only at hin
  generalize c.val.toNat = v at hcode hin
  split at hin
  · omega
  split at hin
  · simp only [List.mem_cons, List.not_mem_nil, or_false] at hin
    obtain rfl | rfl := hin <;> exact hbyte (by omega) (by omega)
  split at hin
  · simp only [List.mem_cons, List.not_mem_nil, or_false] at hin
    obtain rfl | rfl | rfl := hin <;> exact hbyte (by omega) (by omega)
  · simp only [List.mem_cons, List.not_mem_nil, or_false] at hin
    obtain rfl | rfl | rfl | rfl := hin <;> exact hbyte (by omega) (by omega)

/-- The byte of one of the first 128 characters belongs to that character. -/
theorem encodeChar_eq_ascii {c d : Char} (hd : d.toNat < 128) {byte : UInt8}
    (hin : byte ∈ String.utf8EncodeChar c) : byte = UInt8.ofNat d.toNat ↔ c = d := by
  by_cases hc : c.toNat < 128
  · rw [encodeChar_ascii hc, List.mem_singleton] at hin
    rw [hin, ← UInt8.toNat_inj, toNat_byte (by omega), toNat_byte (by omega)]
    exact Char.toNat_inj
  · have hhigh := encodeChar_high (by omega) hin
    refine iff_of_false (fun hbyte => ?_) (fun hsame => hc (hsame ▸ hd))
    rw [hbyte, toNat_byte (by omega)] at hhigh
    omega

/-- A text's bytes begin with no continuation. -/
theorem encode_head {text : List Char} {first : UInt8} {rest : List UInt8}
    (h : encode text = first :: rest) : isContinuation first = false := by
  cases text with
  | nil => exact nomatch h
  | cons c text =>
      have hnot {n : Nat} (hbyte : n < 256) (hout : n < 0x80 ∨ 0xBF < n) :
          isContinuation (UInt8.ofNat n) = false := by
        rw [← Bool.not_eq_true]
        simp only [isContinuation, Bool.and_eq_true, decide_eq_true_eq, UInt8.le_iff_toNat_le,
          UInt8.reduceToNat, toNat_byte hbyte]
        omega
      rw [encode_cons] at h
      unfold String.utf8EncodeChar at h
      dsimp only at h
      split at h
      · exact (List.cons.inj h).1 ▸ hnot (by omega) (by omega)
      split at h
      · exact (List.cons.inj h).1 ▸ hnot (by omega) (by omega)
      split at h
      · exact (List.cons.inj h).1 ▸ hnot (by omega) (by omega)
      · exact (List.cons.inj h).1 ▸ hnot (by omega) (by omega)

/-- A class of characters that the bytes show. -/
theorem takeWhile_encode {p : Char → Bool} {q : UInt8 → Bool}
    (h : ∀ c, ∀ byte ∈ String.utf8EncodeChar c, q byte = p c) (text : List Char) :
    (encode text).takeWhile q = encode (text.takeWhile p) := by
  induction text with
  | nil => rfl
  | cons c text ih =>
      rw [encode_cons, List.takeWhile_cons]
      by_cases hc : p c = true
      · rw [if_pos hc, encode_cons, List.takeWhile_append_of_pos
          fun byte hin => (h c byte hin).trans hc, ih]
      · obtain ⟨first, rest, hbytes, -⟩ := takeChar_encodeChar c []
        have hfirst : q first = p c := h c first (hbytes ▸ List.mem_cons_self ..)
        rw [if_neg hc, hbytes, List.cons_append, List.takeWhile_cons, hfirst, if_neg hc]
        rfl

/-! ## Parts of a text -/

/-- All bytes of a character but the first continue it. -/
theorem encodeChar_tail {c : Char} {first : UInt8} {rest : List UInt8}
    (h : String.utf8EncodeChar c = first :: rest) : ∀ byte ∈ rest, isContinuation byte = true := by
  have htail : ∀ n : Nat, isContinuation (UInt8.ofNat (n % 0x40 + 0x80)) = true := fun n =>
    isContinuation_tail (Nat.mod_lt n (by decide))
  unfold String.utf8EncodeChar at h
  dsimp only at h
  split at h
  · rw [← (List.cons.inj h).2]
    exact fun byte hbyte => (List.not_mem_nil hbyte).elim
  split at h
  · rw [← (List.cons.inj h).2]
    simp only [List.forall_mem_cons]
    exact ⟨htail _, fun byte hbyte => (List.not_mem_nil hbyte).elim⟩
  split at h
  · rw [← (List.cons.inj h).2]
    simp only [List.forall_mem_cons]
    exact ⟨htail _, htail _, fun byte hbyte => (List.not_mem_nil hbyte).elim⟩
  · rw [← (List.cons.inj h).2]
    simp only [List.forall_mem_cons]
    exact ⟨htail _, htail _, htail _, fun byte hbyte => (List.not_mem_nil hbyte).elim⟩

/-- The bytes of a text are cut between characters where no character goes on. -/
theorem encode_cut {text : List Char} {front more : List UInt8} (h : encode text = front ++ more)
    (hmore : ∀ byte ∈ more.head?, isContinuation byte = false) :
    ∃ left right, text = left ++ right ∧ encode left = front ∧ encode right = more := by
  induction text generalizing front with
  | nil =>
      obtain ⟨rfl, rfl⟩ := List.append_eq_nil_iff.1 h.symm
      exact ⟨[], [], rfl, rfl, rfl⟩
  | cons c text ih =>
      cases front with
      | nil => exact ⟨[], c :: text, rfl, rfl, h⟩
      | cons byte front =>
          obtain ⟨first, rest, hbytes, -⟩ := takeChar_encodeChar c []
          rw [encode_cons, hbytes, List.cons_append, List.cons_append] at h
          obtain ⟨rfl, hsame⟩ := List.cons.inj h
          rcases List.append_eq_append_iff.1 hsame with ⟨extra, rfl, hextra⟩ | ⟨extra, hrest, rfl⟩
          · obtain ⟨left, right, rfl, hleft, hright⟩ := ih hextra
            refine ⟨c :: left, right, rfl, ?_, hright⟩
            rw [encode_cons, hbytes, hleft]
            rfl
          · cases extra with
            | nil =>
                rw [List.append_nil] at hrest
                exact ⟨[c], text, rfl, by rw [encode_cons, hbytes, hrest]; exact List.append_nil _, rfl⟩
            | cons next extra =>
                -- the cut is inside of the character
                have hinside := encodeChar_tail hbytes next (by rw [hrest]; simp)
                have hstart := hmore next rfl
                rw [hinside] at hstart
                cases hstart

/-- A text whose bytes begin with those of another begins with the other. -/
theorem encode_front {text front : List Char} {more : List UInt8}
    (h : encode text = encode front ++ more) :
    ∃ rest, text = front ++ rest ∧ encode rest = more := by
  induction front generalizing text with
  | nil => exact ⟨text, rfl, h⟩
  | cons c front ih =>
      obtain ⟨first, rest, hbytes, hread⟩ := takeChar_encodeChar c (encode front ++ more)
      cases text with
      | nil =>
          rw [encode_cons, hbytes] at h
          cases h
      | cons d text =>
          obtain ⟨first', rest', hbytes', hread'⟩ := takeChar_encodeChar d (encode text)
          rw [encode_cons, encode_cons, hbytes, hbytes', List.cons_append, List.cons_append,
            List.cons_append] at h
          obtain ⟨rfl, hsame⟩ := List.cons.inj h
          rw [← List.append_assoc, ← hsame, hread'] at hread
          obtain ⟨hchar, hmore⟩ := Prod.mk.inj hread
          obtain ⟨tail, rfl, htail⟩ := ih hmore
          exact ⟨tail, by rw [Option.some.inj hchar]; rfl, htail⟩

end MCode.Lib.Utf8
