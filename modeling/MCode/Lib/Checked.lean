import Mathlib

/-!
# Checked arithmetic

Sums and products of machine integers that report an overflow.  A chain of
checked steps reports one exactly when its last value does not fit, since the
values of the chain only grow.
-/

namespace MCode.Lib.Checked

/-- A value, where it is at most the largest one. -/
def within (max value : Nat) : Option Nat := if value ≤ max then some value else none

def add (max value more : Nat) : Option Nat := within max (value + more)

def mul (max value factor : Nat) : Option Nat := within max (value * factor)

def sub (value less : Nat) : Option Nat := if less ≤ value then some (value - less) else none

variable {max value : Nat}

theorem within_eq_some {result : Nat} :
    within max value = some result ↔ value ≤ max ∧ value = result := by
  unfold within
  by_cases hfits : value ≤ max
  · simp [hfits]
  · simp [hfits]

theorem within_eq_none : within max value = none ↔ max < value := by
  unfold within
  simp

/-- A step that only grows its value gives what its result gives. -/
theorem within_bind {result : Nat → Nat} (hgrow : ∀ value, value ≤ result value) :
    ((within max value).bind fun value => within max (result value)) =
      within max (result value) := by
  by_cases hfits : value ≤ max
  · rw [within_eq_some.2 ⟨hfits, rfl⟩, Option.bind_some]
  · have hover := hgrow value
    rw [within_eq_none.2 (by omega), Option.bind_none, within_eq_none.2 (by omega)]

/-- A loop of checked sums. -/
theorem foldlM_within {α : Type} (size : α → Nat) (items : List α) (h : value ≤ max) :
    items.foldlM (fun value item => within max (value + size item)) value =
      within max (value + (items.map size).sum) := by
  induction items generalizing value with
  | nil =>
      rw [List.foldlM_nil, List.map_nil, List.sum_nil, Nat.add_zero]
      exact (within_eq_some.2 ⟨h, rfl⟩).symm
  | cons item items ih =>
      rw [List.foldlM_cons, List.map_cons, List.sum_cons, ← Nat.add_assoc]
      by_cases hsum : value + size item ≤ max
      · rw [within_eq_some.2 ⟨hsum, rfl⟩]
        exact ih hsum
      · rw [within_eq_none.2 (by omega), within_eq_none.2 (by omega)]
        rfl

end MCode.Lib.Checked
