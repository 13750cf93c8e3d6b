import MCode.Core.Message

/-!
# Charges and scalars

`charge.rs` and `scalar.rs` of `mcode-plugin-host/src/provider_validation`:
the checked logical charge and the bounded texts.  A text is its list of
characters; `utf8Len` is the length of its bytes.  Where the source looks at
bytes it accepts ASCII bytes only, so the characters say the same.
-/

namespace MCode.Validation

inductive ValidationError where
  | InvalidArgument
  | Limit
  deriving DecidableEq, Repr

abbrev ValidationResult (α : Type) := Except ValidationError α

/-- `u64::MAX`. -/
def U64_MAX : Nat := 2 ^ 64 - 1

/-- `u64::checked_add`. -/
def checkedAdd (left right : Nat) : ValidationResult Nat :=
  if left + right ≤ U64_MAX then .ok (left + right) else .error .Limit

/-- `str::len`. -/
def utf8Len (text : List Char) : Nat := (text.map Char.utf8Size).sum

/-- A computation succeeds exactly if both of its parts do. -/
theorem bind_eq_ok {α β : Type} {x : ValidationResult α}
    {f : α → ValidationResult β} {b : β} :
    (x >>= f) = .ok b ↔ ∃ a, x = .ok a ∧ f a = .ok b := by
  cases x with
  | error error => simp [bind, Except.bind]
  | ok a => simp [bind, Except.bind]

/-! ## `charge.rs` -/

structure LogicalCharge where
  value : Nat
  limit : Nat

def LogicalCharge.new (limit : Nat) : LogicalCharge := ⟨0, limit⟩

def LogicalCharge.add (self : LogicalCharge) (value : Nat) :
    ValidationResult LogicalCharge :=
  match checkedAdd self.value value with
  | .error error => .error error
  | .ok sum =>
      if sum > self.limit then .error .Limit else .ok { self with value := sum }

/-- `u64::try_from` of a length. -/
def checkedLen (value : Nat) : ValidationResult Nat :=
  if value ≤ U64_MAX then .ok value else .error .Limit

def LogicalCharge.string (self : LogicalCharge) (value : String) :
    ValidationResult LogicalCharge := do
  let charge ← self.add 4
  charge.add (← checkedLen (utf8Len value.toList))

/-! ## `scalar.rs` -/

def KIB : Nat := 1024
def MIB : Nat := 1024 * KIB
def MAX_LOGICAL_CHARGE : Nat := 8 * MIB
def MAX_SAFE_TEXT_BYTES : Nat := 64 * 1024
def MAX_TRACKING_BYTES : Nat := 128
def MAX_MODEL_ID_BYTES : Nat := 256

def isAsciiAlphanumeric (c : Char) : Bool :=
  ('a' ≤ c && c ≤ 'z') || ('A' ≤ c && c ≤ 'Z') || ('0' ≤ c && c ≤ '9')

def isUnsafeChar (c : Char) : Bool :=
  let value := c.toNat
  value ≤ 0x08 || (0x0b ≤ value && value ≤ 0x1f) || (0x7f ≤ value && value ≤ 0x9f)
    || value == 0x061c || value == 0x200e || value == 0x200f
    || (0x202a ≤ value && value ≤ 0x202e) || (0x2066 ≤ value && value ≤ 0x2069)

def safe (value : String) (maximum : Nat) (nonempty : Bool) : ValidationResult Unit :=
  if utf8Len value.toList > maximum then .error .Limit
  else if (nonempty && value.toList.isEmpty) || value.toList.any isUnsafeChar then
    .error .InvalidArgument
  else .ok ()

def label (value : String) (maximum : Nat) : ValidationResult Unit := do
  safe value maximum true
  if value.toList.any (fun c => c == '\t' || c == '\n') then .error .InvalidArgument
  else .ok ()

def isTrackingByte (c : Char) : Bool :=
  isAsciiAlphanumeric c || c == '.' || c == '_' || c == ':' || c == '-'

def trackingId (value : String) : ValidationResult Unit :=
  let text := value.toList
  if 1 ≤ utf8Len text && utf8Len text ≤ MAX_TRACKING_BYTES
      && text.head?.any isAsciiAlphanumeric && text.getLast?.any isAsciiAlphanumeric
      && text.all isTrackingByte then .ok ()
  else .error .InvalidArgument

/-- `is_visible_ascii` of `provider_routes/identity.rs`. -/
def isVisibleAscii (value : String) (maximum : Nat) : Bool :=
  let text := value.toList
  1 ≤ utf8Len text && utf8Len text ≤ maximum
    && text.all (fun c => '!' ≤ c && c ≤ '~')

/-- `ModelId::parse`, of which only the verdict is used. -/
def modelId (value : String) : ValidationResult Unit :=
  if isVisibleAscii value MAX_MODEL_ID_BYTES then .ok () else .error .InvalidArgument

/-! ## What a charge accepts -/

/-- The logical charge of a text. -/
def stringCharge (value : String) : Nat := 4 + utf8Len value.toList

/-- A run that accepts exactly where `valid` holds and the limit leaves room for
`cost`, charges `cost`, and returns `out` of the charge. -/
def Yields {γ : Type} (run : LogicalCharge → ValidationResult γ) (valid : Prop)
    (cost : Nat) (out : LogicalCharge → γ) : Prop :=
  ∀ value limit, value ≤ limit → limit ≤ MAX_LOGICAL_CHARGE → ∀ result,
    run ⟨value, limit⟩ = .ok result ↔
      valid ∧ value + cost ≤ limit ∧ result = out ⟨value + cost, limit⟩

namespace Yields

variable {γ δ : Type} {run : LogicalCharge → ValidationResult γ} {valid rest : Prop}
  {cost more : Nat} {out : LogicalCharge → γ}

theorem congr (h : Yields run valid cost out) (hvalid : valid ↔ rest) (hcost : cost = more) :
    Yields run rest more out := by
  intro value limit hvalue hlimit result
  rw [h value limit hvalue hlimit, hvalid, hcost]

/-- Nothing is checked. -/
theorem pure (out : LogicalCharge → γ) : Yields (fun charge => .ok (out charge)) True 0 out := by
  intro value limit hvalue hlimit result
  constructor
  · intro h
    cases h
    exact ⟨trivial, hvalue, rfl⟩
  · rintro ⟨-, -, rfl⟩
    rfl

/-- One run after the other, which may rely on the first. -/
theorem bind {next : γ → ValidationResult δ} {last : LogicalCharge → δ}
    (h : Yields run valid cost out)
    (hnext : valid → Yields (fun charge => next (out charge)) rest more last) :
    Yields (fun charge => run charge >>= next) (valid ∧ rest) (cost + more) last := by
  intro value limit hvalue hlimit result
  rw [bind_eq_ok]
  constructor
  · rintro ⟨middle, hrun, hlast⟩
    obtain ⟨hvalid, hle, rfl⟩ := (h value limit hvalue hlimit middle).1 hrun
    obtain ⟨hrest, hmore, rfl⟩ := (hnext hvalid _ limit hle hlimit result).1 hlast
    rw [Nat.add_assoc] at hmore ⊢
    exact ⟨⟨hvalid, hrest⟩, hmore, rfl⟩
  · rintro ⟨⟨hvalid, hrest⟩, hle, rfl⟩
    refine ⟨out ⟨value + cost, limit⟩, ?_, ?_⟩
    · exact (h value limit hvalue hlimit _).2 ⟨hvalid, by omega, rfl⟩
    · exact (hnext hvalid _ limit (by omega) hlimit _).2
        ⟨hrest, by omega, by rw [Nat.add_assoc]⟩

/-- A check that charges nothing, and its value. -/
theorem after {x : ValidationResult δ} {value : δ} {p : Prop}
    {next : δ → LogicalCharge → ValidationResult γ}
    (hx : ∀ result, x = .ok result ↔ p ∧ result = value)
    (h : p → Yields (next value) valid cost out) :
    Yields (fun charge => x >>= fun result => next result charge) (p ∧ valid) cost out := by
  intro charged limit hcharged hlimit result
  rw [bind_eq_ok]
  constructor
  · rintro ⟨middle, hmiddle, hlast⟩
    obtain ⟨hp, rfl⟩ := (hx middle).1 hmiddle
    obtain ⟨hvalid, hrest⟩ := (h hp charged limit hcharged hlimit result).1 hlast
    exact ⟨⟨hp, hvalid⟩, hrest⟩
  · rintro ⟨⟨hp, hvalid⟩, hrest⟩
    exact ⟨value, (hx value).2 ⟨hp, rfl⟩,
      (h hp charged limit hcharged hlimit result).2 ⟨hvalid, hrest⟩⟩

/-- A check that charges nothing. -/
theorem guarded {guard : ValidationResult Unit} (h : Yields run valid cost out) :
    Yields (fun charge => guard >>= fun _ => run charge) (guard = .ok () ∧ valid)
      cost out := by
  have hguard (result : Unit) : guard = .ok result ↔ guard = .ok () ∧ result = () :=
    ⟨fun h => ⟨h, rfl⟩, fun h => h.1⟩
  exact after hguard fun _ => h

/-- A check that refuses some inputs at once. -/
theorem refusing {p : Prop} [Decidable p] {error : ValidationError}
    (h : ¬ p → Yields run valid cost out) :
    Yields (fun charge => if p then .error error else run charge) (¬ p ∧ valid) cost out := by
  intro value limit hvalue hlimit result
  by_cases hp : p
  · simp [hp]
  · simp [hp, h hp value limit hvalue hlimit]

end Yields

/-- A run that returns the charge itself. -/
def Charges (check : LogicalCharge → ValidationResult LogicalCharge) (valid : Prop)
    (cost : Nat) : Prop :=
  Yields check valid cost id

namespace Charges

variable {check next : LogicalCharge → ValidationResult LogicalCharge} {valid rest : Prop}
  {cost more : Nat}

theorem congr (h : Charges check valid cost) (hvalid : valid ↔ rest) (hcost : cost = more) :
    Charges check rest more :=
  Yields.congr h hvalid hcost

theorem pure : Charges .ok True 0 := Yields.pure id

theorem bind (h : Charges check valid cost) (hnext : Charges next rest more) :
    Charges (fun charge => check charge >>= next) (valid ∧ rest) (cost + more) :=
  Yields.bind h fun _ => hnext

theorem guarded {guard : ValidationResult Unit} (h : Charges check valid cost) :
    Charges (fun charge => guard >>= fun _ => check charge) (guard = .ok () ∧ valid) cost :=
  Yields.guarded h

theorem refusing {p : Prop} [Decidable p] {error : ValidationError}
    (h : Charges check valid cost) :
    Charges (fun charge => if p then .error error else check charge) (¬ p ∧ valid) cost :=
  Yields.refusing fun _ => h

/-- `u64` never overflows below the largest limit. -/
theorem add (value : Nat) : Charges (·.add value) True value := by
  intro charged limit hcharged hlimit result
  unfold MAX_LOGICAL_CHARGE MIB KIB at hlimit
  have hadd : (LogicalCharge.mk charged limit).add value =
      if charged + value ≤ limit then .ok ⟨charged + value, limit⟩ else .error .Limit := by
    unfold LogicalCharge.add
    dsimp only
    by_cases hsum : charged + value ≤ limit
    · have hok : checkedAdd charged value = .ok (charged + value) :=
        if_pos (by unfold U64_MAX; omega)
      rw [hok, if_pos hsum]
      exact if_neg (by omega)
    · rw [if_neg hsum]
      by_cases hfits : charged + value ≤ U64_MAX
      · have hok : checkedAdd charged value = .ok (charged + value) := if_pos hfits
        rw [hok]
        exact if_pos (by omega)
      · have herror : checkedAdd charged value = .error .Limit := if_neg hfits
        rw [herror]
  show (LogicalCharge.mk charged limit).add value = _ ↔ _
  rw [hadd]
  constructor
  · intro h
    split at h
    · rename_i hsum
      cases h
      exact ⟨trivial, hsum, rfl⟩
    · cases h
  · rintro ⟨-, hsum, rfl⟩
    exact if_pos hsum

/-- A length is charged with its value. -/
theorem length (value : Nat) :
    Charges (fun charge => checkedLen value >>= charge.add) True value := by
  intro charged limit hcharged hlimit result
  by_cases hfits : value ≤ U64_MAX
  · have hcheck : checkedLen value = .ok value := if_pos hfits
    rw [hcheck]
    exact add value charged limit hcharged hlimit result
  · have hcheck : checkedLen value = .error .Limit := if_neg hfits
    have hnot : ¬ charged + value ≤ limit := by
      unfold MAX_LOGICAL_CHARGE MIB KIB at hlimit
      unfold U64_MAX at hfits
      omega
    rw [hcheck]
    simp only [hnot, false_and, and_false, iff_false]
    nofun

/-- A text is charged with its bytes. -/
theorem string (value : String) : Charges (·.string value) True (stringCharge value) :=
  ((add 4).bind (length (utf8Len value.toList))).congr (by simp) rfl

end Charges

end MCode.Validation
