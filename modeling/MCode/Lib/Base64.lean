import Mathlib

/-!
# Base64

Bytes in sextets, the first bits first; a last group of one or two bytes takes
two or three sextets, whose spare bits are zero.  An alphabet has a character
for every sextet.  A padded text has `=` behind a last group that is short.
-/

namespace MCode.Lib.Base64

structure Alphabet where
  char : Fin 64 → Char
  index : Char → Option (Fin 64)
  index_char : ∀ i, index (char i) = some i

def sextet (n : Nat) : Fin 64 := Fin.ofNat 64 n

def sextets : List UInt8 → List (Fin 64)
  | a :: b :: c :: rest =>
      sextet (a.toNat / 4) :: sextet (a.toNat % 4 * 16 + b.toNat / 16)
        :: sextet (b.toNat % 16 * 4 + c.toNat / 64) :: sextet (c.toNat % 64) :: sextets rest
  | [a, b] =>
      [sextet (a.toNat / 4), sextet (a.toNat % 4 * 16 + b.toNat / 16),
        sextet (b.toNat % 16 * 4)]
  | [a] => [sextet (a.toNat / 4), sextet (a.toNat % 4 * 16)]
  | [] => []

def unsextets : List (Fin 64) → Option (List UInt8)
  | w :: x :: y :: z :: rest => (unsextets rest).map fun bytes =>
      UInt8.ofNat (w * 4 + x / 16) :: UInt8.ofNat (x % 16 * 16 + y / 4)
        :: UInt8.ofNat (y % 4 * 64 + z) :: bytes
  | [w, x, y] =>
      if (y : Nat) % 4 = 0 then
        some [UInt8.ofNat (w * 4 + x / 16), UInt8.ofNat (x % 16 * 16 + y / 4)]
      else none
  | [w, x] => if (x : Nat) % 16 = 0 then some [UInt8.ofNat (w * 4 + x / 16)] else none
  | [_] => none
  | [] => some []

def encode (alphabet : Alphabet) (bytes : List UInt8) : List Char :=
  (sextets bytes).map alphabet.char

def decode (alphabet : Alphabet) (text : List Char) : Option (List UInt8) :=
  (text.mapM alphabet.index).bind unsextets

/-- The length of the text: four characters for three bytes. -/
def textLength (length : Nat) : Nat :=
  length / 3 * 4 + if length % 3 = 0 then 0 else length % 3 + 1

theorem sextet_val {n : Nat} (h : n < 64) : (sextet n : Nat) = n := Nat.mod_eq_of_lt h

theorem ofNat_eq {n : Nat} {a : UInt8} (h : n = a.toNat) : UInt8.ofNat n = a := by
  rw [h]
  exact UInt8.ofNat_toNat

theorem unsextets_sextets (bytes : List UInt8) : unsextets (sextets bytes) = some bytes := by
  induction bytes using sextets.induct with
  | case1 a b c rest ih =>
      have ha := a.toNat_lt
      have hb := b.toNat_lt
      have hc := c.toNat_lt
      rw [sextets, unsextets, ih, sextet_val (by omega), sextet_val (by omega),
        sextet_val (by omega), sextet_val (by omega), @ofNat_eq _ a (by omega),
        @ofNat_eq _ b (by omega), @ofNat_eq _ c (by omega)]
      rfl
  | case2 a b =>
      have ha := a.toNat_lt
      have hb := b.toNat_lt
      rw [sextets, unsextets, sextet_val (by omega), sextet_val (by omega),
        sextet_val (by omega), if_pos (by omega), @ofNat_eq _ a (by omega), @ofNat_eq _ b (by omega)]
  | case3 a =>
      have ha := a.toNat_lt
      rw [sextets, unsextets, sextet_val (by omega), sextet_val (by omega), if_pos (by omega),
        @ofNat_eq _ a (by omega)]
  | case4 => rfl

theorem mapM_index (alphabet : Alphabet) (digits : List (Fin 64)) :
    (digits.map alphabet.char).mapM alphabet.index = some digits := by
  induction digits with
  | nil => rfl
  | cons digit digits ih =>
      rw [List.map_cons, List.mapM_cons, alphabet.index_char, ih]
      rfl

theorem decode_encode (alphabet : Alphabet) (bytes : List UInt8) :
    decode alphabet (encode alphabet bytes) = some bytes := by
  unfold decode encode
  rw [mapM_index, Option.bind_some, unsextets_sextets]

theorem sextets_length (bytes : List UInt8) : (sextets bytes).length = textLength bytes.length := by
  induction bytes using sextets.induct with
  | case1 a b c rest ih =>
      have hthree : (rest.length + 1 + 1 + 1) / 3 = rest.length / 3 + 1 := by omega
      have hrest : (rest.length + 1 + 1 + 1) % 3 = rest.length % 3 := by omega
      simp only [sextets, List.length_cons, ih]
      unfold textLength
      rw [hthree, hrest]
      omega
  | case2 a b => simp [sextets, textLength]
  | case3 a => simp [sextets, textLength]
  | case4 => simp [sextets, textLength]

theorem encode_length (alphabet : Alphabet) (bytes : List UInt8) :
    (encode alphabet bytes).length = textLength bytes.length := by
  unfold encode
  rw [List.length_map, sextets_length]

/-! ## Padding -/

def padding (length : Nat) : List Char := List.replicate ((3 - length % 3) % 3) '='

def encodePadded (alphabet : Alphabet) (bytes : List UInt8) : List Char :=
  encode alphabet bytes ++ padding bytes.length

/-- A text with all the padding that it needs, and no more. -/
def decodePadded (alphabet : Alphabet) (text : List Char) : Option (List UInt8) :=
  (decode alphabet (text.takeWhile (· != '='))).bind fun bytes =>
    if text.dropWhile (· != '=') = padding bytes.length then some bytes else none

theorem encodePadded_length (alphabet : Alphabet) (bytes : List UInt8) :
    (encodePadded alphabet bytes).length = (bytes.length + 2) / 3 * 4 := by
  unfold encodePadded padding
  rw [List.length_append, encode_length, List.length_replicate]
  unfold textLength
  split <;> omega

theorem padding_split (length : Nat) :
    (padding length).takeWhile (· != '=') = [] ∧
      (padding length).dropWhile (· != '=') = padding length := by
  unfold padding
  cases (3 - length % 3) % 3 with
  | zero => exact ⟨rfl, rfl⟩
  | succ count => exact ⟨rfl, rfl⟩

section

variable {alphabet : Alphabet} (hfree : ∀ i, alphabet.char i ≠ '=')

include hfree

theorem encode_free (bytes : List UInt8) : ∀ c ∈ encode alphabet bytes, (c != '=') = true := by
  intro c hc
  obtain ⟨i, -, rfl⟩ := List.mem_map.1 hc
  exact bne_iff_ne.2 (hfree i)

theorem takeWhile_encodePadded (bytes : List UInt8) :
    (encodePadded alphabet bytes).takeWhile (· != '=') = encode alphabet bytes := by
  unfold encodePadded
  rw [List.takeWhile_append_of_pos (encode_free hfree bytes), (padding_split _).1,
    List.append_nil]

theorem decodePadded_encodePadded (bytes : List UInt8) :
    decodePadded alphabet (encodePadded alphabet bytes) = some bytes := by
  have hrest : (encodePadded alphabet bytes).dropWhile (· != '=') = padding bytes.length := by
    unfold encodePadded
    rw [List.dropWhile_append_of_pos (encode_free hfree bytes), (padding_split _).2]
  unfold decodePadded
  rw [takeWhile_encodePadded hfree, decode_encode, Option.bind_some, if_pos hrest]

end

/-! ## Alphabets -/

def standardChars : List Char :=
  "ABCDEFGHIJKLMNOPQRSTUVWXYZabcdefghijklmnopqrstuvwxyz0123456789+/".toList

def standard : Alphabet where
  char i := standardChars.getD i 'A'
  index c := (List.finRange 64).find? fun i => standardChars.getD i 'A' == c
  index_char := by decide +kernel

theorem standard_free : ∀ i, standard.char i ≠ '=' := by decide +kernel

/-- The alphabet that is safe in URLs and file names. -/
def urlSafeChars : List Char :=
  "ABCDEFGHIJKLMNOPQRSTUVWXYZabcdefghijklmnopqrstuvwxyz0123456789-_".toList

def urlSafe : Alphabet where
  char i := urlSafeChars.getD i 'A'
  index c := (List.finRange 64).find? fun i => urlSafeChars.getD i 'A' == c
  index_char := by decide +kernel

end MCode.Lib.Base64
