import Mathlib

/-!
# Slots and what they have produced

A list of slots, each of which has produced some values; a value carries the
index of its slot.  Flattening the list loses the slots, but the tag finds
the values of one slot again, and a slot that produces one value more adds
that value to the flattened list.
-/

namespace MCode.Lib.Slots

variable {α β : Type*}

/-- Every value is tagged with the index of the slot that produced it. -/
def Tagged (tag : β → Nat) (f : α → List β) (slots : List α) : Prop :=
  ∀ i a, slots[i]? = some a → ∀ b ∈ f a, tag b = i

theorem Tagged.append_left {tag : β → Nat} {f : α → List β}
    {slots more : List α} (h : Tagged tag f (slots ++ more)) :
    Tagged tag f slots := by
  intro i a ha
  refine h i a ?_
  rw [List.getElem?_append_left (List.getElem?_eq_some_iff.1 ha).1, ha]

/-- The values with tag `i` are those of slot `i`. -/
theorem Tagged.filter_flatMap {tag : β → Nat} {f : α → List β}
    {slots : List α} (h : Tagged tag f slots) (i : Nat) :
    (slots.flatMap f).filter (fun b => tag b == i) =
      (slots[i]?).elim [] f := by
  induction slots using List.reverseRec with
  | nil => rfl
  | append_singleton slots a ih =>
      have hlast : ∀ b ∈ f a, tag b = slots.length :=
        h slots.length a (by simp)
      rw [List.flatMap_append, List.filter_append, ih h.append_left,
        List.flatMap_singleton]
      rcases Nat.lt_trichotomy i slots.length with hlt | rfl | hgt
      · rw [List.getElem?_append_left hlt, List.filter_eq_nil_iff.2,
          List.append_nil]
        intro b hb
        simp only [hlast b hb, beq_iff_eq]
        omega
      · rw [List.getElem?_eq_none (Nat.le_refl _), List.filter_eq_self.2]
        · simp
        · intro b hb
          simp [hlast b hb]
      · rw [List.getElem?_eq_none (Nat.le_of_lt hgt),
          List.getElem?_eq_none (by simp only [List.length_append,
            List.length_singleton]; omega), List.filter_eq_nil_iff.2]
        · rfl
        · intro b hb
          simp only [hlast b hb, beq_iff_eq]
          omega

/-- A slot that produces `extra` on top adds `extra` to what is produced. -/
theorem flatMap_set_perm {f : α → List β} {slots : List α} {i : Nat}
    {a a' : α} {extra : List β} (h : slots[i]? = some a)
    (hf : f a' = f a ++ extra) :
    ((slots.set i a').flatMap f).Perm (slots.flatMap f ++ extra) := by
  induction slots generalizing i with
  | nil => simp at h
  | cons b slots ih =>
      cases i with
      | zero =>
          simp only [List.getElem?_cons_zero, Option.some.injEq] at h
          subst h
          simp only [List.set_cons_zero, List.flatMap_cons, hf,
            List.append_assoc]
          exact List.perm_append_comm.append_left (f b)
      | succ i =>
          simp only [List.getElem?_cons_succ] at h
          simp only [List.set_cons_succ, List.flatMap_cons, List.append_assoc]
          exact (ih h).append_left (f b)

/-- A slot that produces nothing new leaves what is produced as it was. -/
theorem flatMap_set_eq {f : α → List β} {slots : List α} {i : Nat} {a a' : α}
    (h : slots[i]? = some a) (hf : f a' = f a) :
    (slots.set i a').flatMap f = slots.flatMap f := by
  induction slots generalizing i with
  | nil => simp at h
  | cons b slots ih =>
      cases i with
      | zero =>
          simp only [List.getElem?_cons_zero, Option.some.injEq] at h
          subst h
          simp [hf]
      | succ i =>
          simp only [List.getElem?_cons_succ] at h
          simp [ih h]

end MCode.Lib.Slots
