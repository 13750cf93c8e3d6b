import Mathlib

/-!
# Consecutive ranges

A list of ranges tiles an interval when each range starts where the one before
it ends, from the start of the interval to its end.  The pieces of a list at
the ranges then make up its piece at the interval, and ranges of the tiling
that stand together tile what lies between the first start and the last end.
-/

namespace MCode.Lib

variable {α : Type*}

/-- The ranges lie one behind the other, from `start` to `stop`. -/
inductive Tiles : Nat → Nat → List (Nat × Nat) → Prop
  | nil (start : Nat) : Tiles start start []
  | cons {start middle stop : Nat} {rest : List (Nat × Nat)} (hle : start ≤ middle)
      (tail : Tiles middle stop rest) : Tiles start stop ((start, middle) :: rest)

/-- The piece of a list at a range. -/
def between (text : List α) (range : Nat × Nat) : List α := (text.take range.2).drop range.1

theorem between_self (text : List α) (start : Nat) : between text (start, start) = [] :=
  List.drop_take_self

theorem between_join (text : List α) {start middle stop : Nat} (hfirst : start ≤ middle)
    (hsecond : middle ≤ stop) :
    between text (start, middle) ++ between text (middle, stop) =
      between text (start, stop) := by
  have hlength : stop - start = (middle - start) + (stop - middle) := by omega
  have hdrop : text.drop middle = (text.drop start).drop (middle - start) := by
    rw [List.drop_drop]
    congr 1
    omega
  unfold between
  rw [List.drop_take, List.drop_take, List.drop_take, hlength, List.take_add, hdrop]

theorem between_all (text : List α) : between text (0, text.length) = text := by
  unfold between
  rw [List.take_length, List.drop_zero]

namespace Tiles

variable {start middle stop : Nat} {first second ranges : List (Nat × Nat)}

theorem le (h : Tiles start stop ranges) : start ≤ stop := by
  induction h with
  | nil => exact Nat.le_refl _
  | cons hle _ ih => exact Nat.le_trans hle ih

theorem append_iff : Tiles start stop (first ++ second) ↔
    ∃ middle, Tiles start middle first ∧ Tiles middle stop second := by
  constructor
  · intro h
    induction first generalizing start with
    | nil => exact ⟨start, .nil start, h⟩
    | cons range first ih =>
        cases h with
        | cons hle tail =>
            obtain ⟨middle, hfirst, hsecond⟩ := ih tail
            exact ⟨middle, .cons hle hfirst, hsecond⟩
  · rintro ⟨middle, hfirst, hsecond⟩
    induction hfirst with
    | nil => exact hsecond
    | cons hle _ ih => exact .cons hle (ih hsecond)

theorem single {start stop : Nat} (hle : start ≤ stop) : Tiles start stop [(start, stop)] :=
  .cons hle (.nil stop)

/-- The pieces at the ranges make up the piece at the interval. -/
theorem pieces (h : Tiles start stop ranges) (text : List α) :
    (ranges.map (between text)).flatten = between text (start, stop) := by
  induction h with
  | nil start => exact (between_self text start).symm
  | cons hle tail ih =>
      rw [List.map_cons, List.flatten_cons, ih]
      exact between_join text hle tail.le

theorem head_eq (h : Tiles start stop ranges) : ∀ range ∈ ranges.head?, range.1 = start := by
  cases h with
  | nil => nofun
  | cons hle tail =>
      rintro range ⟨⟩
      rfl

theorem last_eq (h : Tiles start stop ranges) : ∀ range ∈ ranges.getLast?, range.2 = stop := by
  intro range hlast
  obtain ⟨front, rfl⟩ : ∃ front, ranges = front ++ [range] := by
    obtain ⟨hne, rfl⟩ := List.mem_getLast?_eq_getLast hlast
    exact ⟨ranges.dropLast, (List.dropLast_append_getLast hne).symm⟩
  obtain ⟨middle, -, hsingle⟩ := append_iff.1 h
  cases hsingle with
  | cons hle tail =>
      cases tail
      rfl

/-- The ranges from one position to another tile what lies between. -/
theorem span (h : Tiles start stop ranges) {i j : Nat} (hij : i ≤ j) (hj : j < ranges.length) :
    Tiles ranges[i].1 ranges[j].2 ((ranges.drop i).take (j - i + 1)) := by
  have hsplit : ranges = ranges.take i ++ ((ranges.drop i).take (j - i + 1) ++
      (ranges.drop i).drop (j - i + 1)) := by
    rw [List.take_append_drop, List.take_append_drop]
  have htiles := h
  rw [hsplit] at htiles
  obtain ⟨from', -, hrest⟩ := append_iff.1 htiles
  obtain ⟨to', hspan, -⟩ := append_iff.1 hrest
  have hfirst : ((ranges.drop i).take (j - i + 1)).head? = some ranges[i] := by
    rw [List.head?_take, if_neg (by omega), List.head?_drop, List.getElem?_eq_getElem]
  have hlast : ((ranges.drop i).take (j - i + 1)).getLast? = some ranges[j] := by
    rw [List.getLast?_eq_getElem?, List.length_take, List.length_drop,
      Nat.min_eq_left (by omega), Nat.add_sub_cancel, List.getElem?_take_of_lt (by omega),
      List.getElem?_drop, List.getElem?_eq_getElem (by omega)]
    simp only [Nat.add_sub_cancel' hij]
  rw [hspan.head_eq _ hfirst, hspan.last_eq _ hlast]
  exact hspan

end Tiles

end MCode.Lib
