import MCode.Lib.Results

/-!
# What is fed to a hasher

A feed is a list of symbols that is written part by part, unless a part cannot
be written.  Two feeds split if, whatever stands behind them, they can only be
the same text when the values behind them are the same and so is what follows;
an encoding whose feeds split is injective, and so is one that puts such
encodings behind each other.
-/

namespace MCode.Lib.Feeds

open MCode.Lib.Results (bind_ok)

variable {ε β α : Type}

/-- What is written, or the error that stops the writing. -/
structure Feed (ε β : Type) where
  result : Except ε (List β)

/-- `update`. -/
def Feed.of (symbols : List β) : Feed ε β := ⟨.ok symbols⟩

/-- One part behind the other. -/
def Feed.andThen (first second : Feed ε β) : Feed ε β :=
  ⟨first.result >>= fun symbols => second.result.map (symbols ++ ·)⟩

instance : Append (Feed ε β) := ⟨Feed.andThen⟩

/-- The parts of a loop. -/
def Feed.all (parts : List (Feed ε β)) : Feed ε β :=
  parts.foldr (fun part rest => part ++ rest) (Feed.of [])

/-- The whole text. -/
def Feed.Writes (feed : Feed ε β) (text : List β) : Prop := feed.result = .ok text

theorem writes_of {symbols text : List β} :
    (Feed.of symbols : Feed ε β).Writes text ↔ text = symbols := by
  unfold Feed.Writes Feed.of
  rw [Except.ok.injEq, eq_comm]

theorem writes_append {first second : Feed ε β} {text : List β} :
    (first ++ second).Writes text ↔
      ∃ front back, first.Writes front ∧ second.Writes back ∧ text = front ++ back := by
  show (first.result >>= fun symbols => second.result.map (symbols ++ ·)) = .ok text ↔ _
  rw [bind_ok]
  unfold Feed.Writes
  constructor
  · rintro ⟨front, hfront, h⟩
    cases hback : second.result with
    | error e =>
        rw [hback] at h
        cases h
    | ok back =>
        rw [hback] at h
        exact ⟨front, back, hfront, rfl, (Except.ok.inj h).symm⟩
  · rintro ⟨front, back, hfront, hback, rfl⟩
    exact ⟨front, hfront, by rw [hback]; rfl⟩

/-- If both feeds begin one text, the values are the same, and what follows is the same. -/
def Splits (first second : Feed ε β) (same : Prop) : Prop :=
  ∀ front front' rest rest', first.Writes front → second.Writes front' →
    front ++ rest = front' ++ rest' → same ∧ rest = rest'

section

variable {first second more others : Feed ε β} {same next : Prop}

theorem Splits.imp (h : Splits first second same) (himp : same → next) :
    Splits first second next := by
  intro front front' rest rest' hfirst hsecond heq
  obtain ⟨hsame, hrest⟩ := h front front' rest rest' hfirst hsecond heq
  exact ⟨himp hsame, hrest⟩

/-- What stands behind may depend on what is told by the part before. -/
theorem Splits.append (h : Splits first second same)
    (hnext : same → Splits more others next) :
    Splits (first ++ more) (second ++ others) (same ∧ next) := by
  intro text text' rest rest' hfirst hsecond heq
  obtain ⟨front, back, hfront, hback, rfl⟩ := writes_append.1 hfirst
  obtain ⟨front', back', hfront', hback', rfl⟩ := writes_append.1 hsecond
  rw [List.append_assoc, List.append_assoc] at heq
  obtain ⟨hsame, hrest⟩ := h _ _ _ _ hfront hfront' heq
  obtain ⟨hnextSame, hend⟩ := hnext hsame _ _ _ _ hback hback' hrest
  exact ⟨⟨hsame, hnextSame⟩, hend⟩

/-- Whole texts. -/
theorem Splits.whole (h : Splits first second same) {text : List β} (hfirst : first.Writes text)
    (hsecond : second.Writes text) : same :=
  (h text text [] [] hfirst hsecond rfl).1

/-- Parts of one length are told from each other as a whole. -/
theorem splits_of {symbols others : List β} (hlength : symbols.length = others.length) :
    Splits (Feed.of symbols : Feed ε β) (Feed.of others) (symbols = others) := by
  intro front front' rest rest' hfirst hsecond heq
  rw [writes_of.1 hfirst, writes_of.1 hsecond] at heq
  exact List.append_inj heq hlength

theorem splits_same (symbols : List β) :
    Splits (Feed.of symbols : Feed ε β) (Feed.of symbols) True :=
  (splits_of rfl).imp fun _ => trivial

end

/-- What is written starts with a symbol. -/
def Starts (feed : Feed ε β) (symbol : β) : Prop :=
  ∀ text, feed.Writes text → ∃ rest, text = symbol :: rest

theorem starts_of (symbol : β) (symbols : List β) :
    Starts (Feed.of (symbol :: symbols) : Feed ε β) symbol := by
  intro text htext
  exact ⟨symbols, writes_of.1 htext⟩

theorem Starts.append {first : Feed ε β} {symbol : β} (h : Starts first symbol)
    (second : Feed ε β) : Starts (first ++ second) symbol := by
  intro text htext
  obtain ⟨front, back, hfront, -, rfl⟩ := writes_append.1 htext
  obtain ⟨rest, rfl⟩ := h front hfront
  exact ⟨rest ++ back, rfl⟩

/-- Texts with different tags. -/
theorem splits_of_starts {first second : Feed ε β} {symbol other : β} {same : Prop}
    (hfirst : Starts first symbol) (hsecond : Starts second other) (hne : symbol ≠ other) :
    Splits first second same := by
  intro front front' rest rest' hfront hfront' heq
  obtain ⟨tail, rfl⟩ := hfirst front hfront
  obtain ⟨tail', rfl⟩ := hsecond front' hfront'
  exact absurd (List.cons.inj heq).1 hne

/-- The parts of two loops of one length. -/
theorem splits_all {write : α → Feed ε β} {items others : List α}
    (hitems : ∀ a ∈ items, ∀ b ∈ others, Splits (write a) (write b) (a = b))
    (hlength : items.length = others.length) :
    Splits (Feed.all (items.map write)) (Feed.all (others.map write)) (items = others) := by
  induction items generalizing others with
  | nil =>
      have hothers : others = [] := List.length_eq_zero_iff.1 hlength.symm
      subst hothers
      exact (splits_same []).imp fun _ => rfl
  | cons a items ih =>
      cases others with
      | nil => cases hlength
      | cons b others =>
          have hfirst := hitems a List.mem_cons_self b List.mem_cons_self
          have hrest := @ih others
            (fun a ha b hb => hitems a (List.mem_cons_of_mem _ ha) b (List.mem_cons_of_mem _ hb))
            (Nat.succ.inj hlength)
          refine (hfirst.append fun _ => hrest).imp ?_
          rintro ⟨rfl, rfl⟩
          rfl

/-! ## Numbers in bytes -/

/-- `to_be_bytes` of so many bytes. -/
def toBeBytes : Nat → Nat → List UInt8
  | 0, _ => []
  | width + 1, value => toBeBytes width (value / 256) ++ [UInt8.ofNat value]

theorem toBeBytes_length (width value : Nat) : (toBeBytes width value).length = width := by
  induction width generalizing value with
  | zero => rfl
  | succ width ih =>
      unfold toBeBytes
      rw [List.length_append, ih]
      rfl

theorem toBeBytes_inj {width value other : Nat} (hvalue : value < 256 ^ width)
    (hother : other < 256 ^ width) (h : toBeBytes width value = toBeBytes width other) :
    value = other := by
  induction width generalizing value other with
  | zero =>
      rw [Nat.pow_zero] at hvalue hother
      omega
  | succ width ih =>
      unfold toBeBytes at h
      obtain ⟨hhigh, hlow⟩ := List.append_inj h (by rw [toBeBytes_length, toBeBytes_length])
      have hdivided : value / 256 = other / 256 := by
        refine ih ?_ ?_ hhigh
        · rw [Nat.pow_succ] at hvalue
          exact Nat.div_lt_of_lt_mul (by omega)
        · rw [Nat.pow_succ] at hother
          exact Nat.div_lt_of_lt_mul (by omega)
      have hbyte := congrArg UInt8.toNat (List.cons.inj hlow).1
      rw [UInt8.toNat_ofNat', UInt8.toNat_ofNat'] at hbyte
      have hmod : value % 256 = other % 256 := hbyte
      omega

/-- Numbers of one width. -/
theorem splits_number {width value other : Nat} (hvalue : value < 256 ^ width)
    (hother : other < 256 ^ width) :
    Splits (Feed.of (toBeBytes width value) : Feed ε UInt8) (Feed.of (toBeBytes width other))
      (value = other) := by
  refine (splits_of ?_).imp (toBeBytes_inj hvalue hother)
  rw [toBeBytes_length, toBeBytes_length]

theorem byte_inj {a b : Nat} (ha : a < 256) (hb : b < 256) (h : UInt8.ofNat a = UInt8.ofNat b) :
    a = b := by
  have hnat := congrArg UInt8.toNat h
  rw [UInt8.toNat_ofNat', UInt8.toNat_ofNat'] at hnat
  have hmod : a % 256 = b % 256 := hnat
  omega

theorem splits_byte {a b : Nat} (ha : a < 256) (hb : b < 256) :
    Splits (Feed.of [UInt8.ofNat a] : Feed ε UInt8) (Feed.of [UInt8.ofNat b]) (a = b) := by
  refine (@splits_of _ _ [UInt8.ofNat a] [UInt8.ofNat b] rfl).imp fun h => ?_
  exact byte_inj ha hb (List.cons.inj h).1

/-- A tag and a byte in one part. -/
theorem splits_tagged (tag : UInt8) {a b : Nat} (ha : a < 256) (hb : b < 256) :
    Splits (Feed.of [tag, UInt8.ofNat a] : Feed ε UInt8) (Feed.of [tag, UInt8.ofNat b])
      (a = b) := by
  refine (@splits_of _ _ [tag, UInt8.ofNat a] [tag, UInt8.ofNat b] rfl).imp fun h => ?_
  exact byte_inj ha hb (List.cons.inj (List.cons.inj h).2).1

/-- A count that is written if it fits. -/
def Counts (count : Nat → Feed ε UInt8) : Prop :=
  ∃ width, ∀ length text, (count length).Writes text →
    length < 256 ^ width ∧ text = toBeBytes width length

theorem splits_count {count : Nat → Feed ε UInt8} (hcount : Counts count) (a b : Nat) :
    Splits (count a) (count b) (a = b) := by
  obtain ⟨width, hcount⟩ := hcount
  intro front front' rest rest' hfront hfront' heq
  obtain ⟨ha, rfl⟩ := hcount a front hfront
  obtain ⟨hb, rfl⟩ := hcount b front' hfront'
  obtain ⟨hsame, hrest⟩ := List.append_inj heq (by rw [toBeBytes_length, toBeBytes_length])
  exact ⟨toBeBytes_inj ha hb hsame, hrest⟩

/-- The bytes of a text in UTF-8. -/
def textBytes (text : String) : List UInt8 := text.toByteArray.data.toList

theorem textBytes_inj {text other : String} (h : textBytes text = textBytes other) :
    text = other := by
  apply String.toByteArray_inj.1
  apply ByteArray.ext
  exact Array.toList_inj.1 h

/-- A text behind the count of its bytes. -/
theorem splits_text {count : Nat → Feed ε UInt8} (hcount : Counts count) (a b : String) :
    Splits (count a.utf8ByteSize ++ Feed.of (textBytes a))
      (count b.utf8ByteSize ++ Feed.of (textBytes b)) (a = b) := by
  have htext (hlength : a.utf8ByteSize = b.utf8ByteSize) :
      Splits (Feed.of (textBytes a) : Feed ε UInt8) (Feed.of (textBytes b)) (a = b) :=
    (splits_of hlength).imp textBytes_inj
  exact ((splits_count hcount _ _).append htext).imp And.right

end MCode.Lib.Feeds
