import Mathlib

/-!
# Inserting a batch of fresh keys into a map

A batch of entries is inserted one after the other.  When its keys are
pairwise different and none is in the map yet, no insertion replaces
anything: the result holds the old entries and the new ones, and its size is
the sum.  The entries come from a list of records by a key and a value
function, which is how an index over records is filled.
-/

namespace MCode.Lib.FreshKeys

open Std

variable {α κ β : Type*} [Ord κ] [TransOrd κ]

/-- Inserts one entry for each record of the batch, in order. -/
def insertAll (key : α → κ) (value : α → β) (m : ExtTreeMap κ β)
    (batch : List α) : ExtTreeMap κ β :=
  batch.foldl (fun m a => m.insert (key a) (value a)) m

@[simp] theorem insertAll_nil (key : α → κ) (value : α → β)
    (m : ExtTreeMap κ β) : insertAll key value m [] = m := rfl

@[simp] theorem insertAll_cons (key : α → κ) (value : α → β)
    (m : ExtTreeMap κ β) (a : α) (batch : List α) :
    insertAll key value m (a :: batch) =
      insertAll key value (m.insert (key a) (value a)) batch := rfl

section Fresh

variable [LawfulEqOrd κ]

/-- The keys of the batch are pairwise different and absent from the map. -/
structure Fresh (key : α → κ) (m : ExtTreeMap κ β) (batch : List α) :
    Prop where
  nodup : (batch.map key).Nodup
  absent : ∀ a ∈ batch, key a ∉ m

theorem Fresh.tail {key : α → κ} {m : ExtTreeMap κ β} {a : α} {batch : List α}
    (h : Fresh key m (a :: batch)) (v : β) :
    Fresh key (m.insert (key a) v) batch := by
  have hnodup := h.nodup
  rw [List.map_cons, List.nodup_cons] at hnodup
  refine ⟨hnodup.2, fun b hb hmem => ?_⟩
  rw [ExtTreeMap.mem_insert, Std.compare_eq_iff_eq] at hmem
  rcases hmem with heq | hmem
  · exact hnodup.1 (heq ▸ List.mem_map_of_mem hb)
  · exact h.absent b (List.mem_cons_of_mem a hb) hmem

/-- The result holds exactly the old entries and those of the batch. -/
theorem getElem?_insertAll {key : α → κ} (value : α → β)
    {m : ExtTreeMap κ β} {batch : List α} (h : Fresh key m batch) (k : κ)
    (v : β) :
    (insertAll key value m batch)[k]? = some v ↔
      m[k]? = some v ∨ ∃ a ∈ batch, key a = k ∧ value a = v := by
  induction batch generalizing m with
  | nil => simp
  | cons a batch ih =>
      have habsent := h.absent a List.mem_cons_self
      rw [insertAll_cons, ih (h.tail (value a)), ExtTreeMap.getElem?_insert]
      by_cases hk : key a = k
      · subst hk
        have hnone : m[key a]? = none := ExtTreeMap.getElem?_eq_none habsent
        have hrest : ¬ ∃ b ∈ batch, key b = key a ∧ value b = v := by
          rintro ⟨b, hb, heq, -⟩
          have hnodup := h.nodup
          rw [List.map_cons, List.nodup_cons] at hnodup
          exact hnodup.1 (heq ▸ List.mem_map_of_mem hb)
        simp [hnone, hrest, compare_self]
      · have hcmp : compare (key a) k ≠ .eq := by
          simpa [Std.compare_eq_iff_eq] using hk
        simp [hcmp, hk]

theorem size_insertAll {key : α → κ} (value : α → β) {m : ExtTreeMap κ β}
    {batch : List α} (h : Fresh key m batch) :
    (insertAll key value m batch).size = m.size + batch.length := by
  induction batch generalizing m with
  | nil => rfl
  | cons a batch ih =>
      have habsent := h.absent a List.mem_cons_self
      rw [insertAll_cons, ih (h.tail (value a)), ExtTreeMap.size_insert]
      rw [ExtTreeMap.mem_iff_contains] at habsent
      simp only [habsent, List.length_cons]
      simp
      omega

end Fresh

end MCode.Lib.FreshKeys
