import Mathlib

/-!
# Edit distance

The Levenshtein distance of two lists by its recursion, and alignments, which are
what it counts: an alignment goes through both lists and keeps, replaces, deletes or
inserts one element at a time.  Symmetry, reversal, the recursion from the other end
and lower bounds for the distance are shown of alignments.
-/

namespace MCode.Lib.EditDistance

variable {α β : Type*} [DecidableEq α] [DecidableEq β]

def levenshtein : List α → List α → Nat
  | [], bs => bs.length
  | as, [] => as.length
  | a :: as, b :: bs =>
      min (min (levenshtein as (b :: bs) + 1) (levenshtein (a :: as) bs + 1))
        (levenshtein as bs + if a = b then 0 else 1)
  termination_by as bs => as.length + bs.length

/-- `Aligned n as bs`: `n` edits make `bs` out of `as`. -/
inductive Aligned : Nat → List α → List α → Prop
  | nil : Aligned 0 [] []
  | keep {n : Nat} {as bs : List α} (a : α) (h : Aligned n as bs) : Aligned n (a :: as) (a :: bs)
  | replace {n : Nat} {as bs : List α} (a b : α) (h : Aligned n as bs) :
      Aligned (n + 1) (a :: as) (b :: bs)
  | delete {n : Nat} {as bs : List α} (a : α) (h : Aligned n as bs) :
      Aligned (n + 1) (a :: as) bs
  | insert {n : Nat} {as bs : List α} (b : α) (h : Aligned n as bs) :
      Aligned (n + 1) as (b :: bs)

theorem levenshtein_nil (bs : List α) : levenshtein [] bs = bs.length := by
  rw [levenshtein]

theorem levenshtein_nil_right (as : List α) : levenshtein as [] = as.length := by
  cases as with
  | nil => rw [levenshtein]
  | cons a as => rw [levenshtein]; exact fun h => nomatch h

theorem levenshtein_cons (a : α) (as : List α) (b : α) (bs : List α) :
    levenshtein (a :: as) (b :: bs) =
      min (min (levenshtein as (b :: bs) + 1) (levenshtein (a :: as) bs + 1))
        (levenshtein as bs + if a = b then 0 else 1) := by
  rw [levenshtein]

/-! ## Alignments -/

omit [DecidableEq α] in
theorem Aligned.nil_left (bs : List α) : Aligned bs.length [] bs := by
  induction bs with
  | nil => exact .nil
  | cons b bs ih => exact ih.insert b

omit [DecidableEq α] in
theorem Aligned.nil_right (as : List α) : Aligned as.length as [] := by
  induction as with
  | nil => exact .nil
  | cons a as ih => exact ih.delete a

/-- The distance is reached. -/
theorem aligned_levenshtein (as bs : List α) : Aligned (levenshtein as bs) as bs := by
  induction as generalizing bs with
  | nil =>
      rw [levenshtein_nil]
      exact .nil_left bs
  | cons a as iha =>
      induction bs with
      | nil =>
          rw [levenshtein_nil_right]
          exact .nil_right _
      | cons b bs ihb =>
          rw [levenshtein_cons]
          rcases min_choice (min (levenshtein as (b :: bs) + 1) (levenshtein (a :: as) bs + 1))
            (levenshtein as bs + if a = b then 0 else 1) with hmin | hmin
          · rw [hmin]
            rcases min_choice (levenshtein as (b :: bs) + 1) (levenshtein (a :: as) bs + 1) with
              hmin | hmin
            · rw [hmin]
              exact (iha (b :: bs)).delete a
            · rw [hmin]
              exact ihb.insert b
          · rw [hmin]
            split
            · rename_i heq
              subst heq
              exact (iha bs).keep a
            · exact (iha bs).replace a b

/-- No alignment has fewer edits. -/
theorem Aligned.levenshtein_le {n : Nat} {as bs : List α} (h : Aligned n as bs) :
    levenshtein as bs ≤ n := by
  induction h with
  | nil =>
      rw [levenshtein_nil]
      exact Nat.le_refl _
  | @keep n as bs a h ih =>
      rw [levenshtein_cons, if_pos rfl]
      exact (min_le_right _ _).trans ih
  | @replace n as bs a b h ih =>
      rw [levenshtein_cons]
      refine (min_le_right _ _).trans ?_
      split <;> omega
  | @delete n as bs a h ih =>
      cases bs with
      | nil =>
          rw [levenshtein_nil_right] at ih ⊢
          exact Nat.succ_le_succ ih
      | cons b bs =>
          rw [levenshtein_cons]
          exact ((min_le_left _ _).trans (min_le_left _ _)).trans (Nat.succ_le_succ ih)
  | @insert n as bs b h ih =>
      cases as with
      | nil =>
          rw [levenshtein_nil] at ih ⊢
          exact Nat.succ_le_succ ih
      | cons a as =>
          rw [levenshtein_cons]
          exact ((min_le_left _ _).trans (min_le_right _ _)).trans (Nat.succ_le_succ ih)

section

omit [DecidableEq α]

theorem Aligned.symm {n : Nat} {as bs : List α} (h : Aligned n as bs) : Aligned n bs as := by
  induction h with
  | nil => exact .nil
  | keep a _ ih => exact ih.keep a
  | replace a b _ ih => exact ih.replace b a
  | delete a _ ih => exact ih.insert a
  | insert b _ ih => exact ih.delete b

theorem Aligned.append {n m : Nat} {as bs cs ds : List α} (h : Aligned n as bs)
    (h' : Aligned m cs ds) : Aligned (n + m) (as ++ cs) (bs ++ ds) := by
  induction h with
  | nil =>
      rw [Nat.zero_add]
      exact h'
  | keep a _ ih => exact ih.keep a
  | replace a b _ ih =>
      rw [Nat.succ_add]
      exact ih.replace a b
  | delete a _ ih =>
      rw [Nat.succ_add]
      exact ih.delete a
  | insert b _ ih =>
      rw [Nat.succ_add]
      exact ih.insert b

theorem Aligned.reverse {n : Nat} {as bs : List α} (h : Aligned n as bs) :
    Aligned n as.reverse bs.reverse := by
  induction h with
  | nil => exact .nil
  | keep a _ ih =>
      rw [List.reverse_cons, List.reverse_cons]
      exact ih.append (Aligned.nil.keep a)
  | replace a b _ ih =>
      rw [List.reverse_cons, List.reverse_cons]
      exact ih.append (Aligned.nil.replace a b)
  | delete a _ ih =>
      have happend := ih.append (Aligned.nil.delete a)
      rw [List.append_nil] at happend
      rw [List.reverse_cons]
      exact happend
  | insert b _ ih =>
      have happend := ih.append (Aligned.nil.insert b)
      rw [List.append_nil] at happend
      rw [List.reverse_cons]
      exact happend

/-- An edit changes the number of elements with a property by one at most. -/
theorem Aligned.countP_le {n : Nat} {as bs : List α} (h : Aligned n as bs) (p : α → Bool) :
    as.countP p ≤ bs.countP p + n := by
  induction h with
  | nil => exact Nat.zero_le _
  | keep a _ ih =>
      rw [List.countP_cons, List.countP_cons]
      omega
  | replace a b _ ih =>
      rw [List.countP_cons, List.countP_cons]
      split <;> omega
  | delete a _ ih =>
      rw [List.countP_cons]
      split <;> omega
  | insert b _ ih =>
      rw [List.countP_cons]
      omega

end

/-! ## The distance -/

theorem levenshtein_comm (as bs : List α) : levenshtein as bs = levenshtein bs as :=
  Nat.le_antisymm (aligned_levenshtein bs as).symm.levenshtein_le
    (aligned_levenshtein as bs).symm.levenshtein_le

theorem levenshtein_reverse (as bs : List α) :
    levenshtein as.reverse bs.reverse = levenshtein as bs := by
  apply Nat.le_antisymm
  · exact (aligned_levenshtein as bs).reverse.levenshtein_le
  · have h := (aligned_levenshtein as.reverse bs.reverse).reverse.levenshtein_le
    rw [List.reverse_reverse, List.reverse_reverse] at h
    exact h

/-- The recursion from the other end. -/
theorem levenshtein_concat (as : List α) (a : α) (bs : List α) (b : α) :
    levenshtein (as ++ [a]) (bs ++ [b]) =
      min (min (levenshtein as (bs ++ [b]) + 1) (levenshtein (as ++ [a]) bs + 1))
        (levenshtein as bs + if a = b then 0 else 1) := by
  rw [← levenshtein_reverse (as ++ [a]), ← levenshtein_reverse as (bs ++ [b]),
    ← levenshtein_reverse (as ++ [a]) bs, ← levenshtein_reverse as bs, List.reverse_concat,
    List.reverse_concat, levenshtein_cons]

theorem length_le_levenshtein (as bs : List α) : as.length ≤ bs.length + levenshtein as bs := by
  have h := (aligned_levenshtein as bs).countP_le fun _ => true
  simp only [List.countP_true] at h
  exact h

theorem countP_le_levenshtein (as bs : List α) (p : α → Bool) :
    as.countP p ≤ bs.countP p + levenshtein as bs :=
  (aligned_levenshtein as bs).countP_le p

theorem levenshtein_self (as : List α) : levenshtein as as = 0 := by
  have h : Aligned 0 as as := by
    induction as with
    | nil => exact .nil
    | cons a as ih => exact ih.keep a
  exact Nat.le_zero.1 h.levenshtein_le

/-- Elements may be renamed apart. -/
theorem levenshtein_map {f : α → β} {as bs : List α}
    (hf : ∀ a ∈ as, ∀ b ∈ bs, f a = f b → a = b) :
    levenshtein (as.map f) (bs.map f) = levenshtein as bs := by
  induction as generalizing bs with
  | nil => rw [List.map_nil, levenshtein_nil, levenshtein_nil, List.length_map]
  | cons a as iha =>
      induction bs with
      | nil => rw [List.map_nil, levenshtein_nil_right, levenshtein_nil_right, List.length_map]
      | cons b bs ihb =>
          have hhead : f a = f b ↔ a = b :=
            ⟨hf a List.mem_cons_self b List.mem_cons_self, fun h => h ▸ rfl⟩
          have hleft := @iha (b :: bs) fun c hc => hf c (List.mem_cons_of_mem _ hc)
          have hright := ihb fun c hc d hd => hf c hc d (List.mem_cons_of_mem _ hd)
          have hboth := @iha bs fun c hc d hd =>
            hf c (List.mem_cons_of_mem _ hc) d (List.mem_cons_of_mem _ hd)
          rw [List.map_cons, List.map_cons] at *
          rw [levenshtein_cons, levenshtein_cons, hleft, hright, hboth]
          simp only [hhead]

end MCode.Lib.EditDistance
