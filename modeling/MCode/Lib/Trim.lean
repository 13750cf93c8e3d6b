import Mathlib

/-!
# Trimming

A list without the longest runs at its ends of elements that satisfy a predicate.
The runs are what a scan from either end passes.
-/

namespace MCode.Lib.Trim

variable {α : Type*} (p : α → Bool)

/-- The list without the longest runs at its ends. -/
def trim (l : List α) : List α := (l.dropWhile p).rdropWhile p

/-- The run at the end, where the one at the beginning does not take it. -/
def back (l : List α) : List α := (l.dropWhile p).rtakeWhile p

variable {p} {l : List α}

theorem rdropWhile_append_rtakeWhile : l.rdropWhile p ++ l.rtakeWhile p = l := by
  unfold List.rdropWhile List.rtakeWhile
  rw [← List.reverse_append, List.takeWhile_append_dropWhile, List.reverse_reverse]

theorem split (l : List α) : l.takeWhile p ++ (trim p l ++ back p l) = l := by
  unfold trim back
  rw [rdropWhile_append_rtakeWhile, List.takeWhile_append_dropWhile]

theorem trim_of_all (h : ∀ a ∈ l, p a = true) : trim p l = [] := by
  unfold trim
  rw [List.dropWhile_eq_nil_iff.2 h]
  rfl

theorem takeWhile_of_all (h : ∀ a ∈ l, p a = true) : l.takeWhile p = l :=
  List.takeWhile_eq_self_iff.2 h

/-- Something stays, unless everything is in a run. -/
theorem trim_ne_nil (h : ¬∀ a ∈ l, p a = true) : trim p l ≠ [] := by
  have hrest : l.dropWhile p ≠ [] := fun hnil => h (List.dropWhile_eq_nil_iff.1 hnil)
  intro hnil
  unfold trim at hnil
  rw [List.rdropWhile_eq_nil_iff] at hnil
  have hhead := List.head_dropWhile_not p hrest
  rw [hnil _ (List.head_mem hrest)] at hhead
  cases hhead

/-- The scan from the end passes the run there. -/
theorem takeWhile_reverse (h : ¬∀ a ∈ l, p a = true) :
    l.reverse.takeWhile p = (back p l).reverse := by
  have hrest : ¬∀ a ∈ (l.dropWhile p).reverse, p a = true := by
    intro hall
    have hnil : l.dropWhile p = [] := by
      by_contra hne
      have hhead := List.head_dropWhile_not p hne
      rw [hall _ (List.mem_reverse.2 (List.head_mem hne))] at hhead
      cases hhead
    exact h (List.dropWhile_eq_nil_iff.1 hnil)
  have hsplit : l.reverse = (l.dropWhile p).reverse ++ (l.takeWhile p).reverse := by
    rw [← List.reverse_append, List.takeWhile_append_dropWhile]
  unfold back List.rtakeWhile
  rw [List.reverse_reverse, hsplit]
  generalize (l.dropWhile p).reverse = rest at hrest
  generalize (l.takeWhile p).reverse = front
  induction rest with
  | nil => exact absurd (fun _ ha => absurd ha List.not_mem_nil) hrest
  | cons a rest ih =>
      rw [List.cons_append]
      by_cases ha : p a = true
      · rw [List.takeWhile_cons_of_pos ha, List.takeWhile_cons_of_pos ha, ih]
        intro hall
        exact hrest (List.forall_mem_cons.2 ⟨ha, hall⟩)
      · rw [List.takeWhile_cons_of_neg ha, List.takeWhile_cons_of_neg ha]

end MCode.Lib.Trim
