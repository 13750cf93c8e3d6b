import MCode.Lib.EditDistance

/-!
# Fields

A list cut at each occurrence of a separator.  An edit of the list touches two of
its fields at most: it happens inside of one, or it removes or makes a separator.
-/

namespace MCode.Lib.Fields

open MCode.Lib.EditDistance (Aligned)

variable {α : Type*} [DecidableEq α] {sep : α}

theorem splitOn_head (sep : α) (l : List α) :
    l.splitOn sep = (l.splitOn sep).head (List.splitOn_ne_nil sep l) :: (l.splitOn sep).tail :=
  (List.cons_head_tail _).symm

/-- Two lists join at the last field of the first and the first field of the second. -/
theorem splitOn_append (sep : α) (as bs : List α) :
    ∃ field, (as ++ bs).splitOn sep =
      (as.splitOn sep).dropLast ++ field :: (bs.splitOn sep).tail := by
  induction as with
  | nil => exact ⟨_, splitOn_head sep bs⟩
  | cons a as ih =>
      obtain ⟨field, hfield⟩ := ih
      rw [List.cons_append, List.splitOn_cons_eq_if_modifyHead, List.splitOn_cons_eq_if_modifyHead,
        hfield]
      obtain ⟨first, rest, hsplit⟩ := List.exists_cons_of_ne_nil (List.splitOn_ne_nil sep as)
      rw [hsplit]
      split
      · exact ⟨field, rfl⟩
      · cases rest with
        | nil => exact ⟨a :: field, rfl⟩
        | cons second rest => exact ⟨field, rfl⟩

theorem splitOn_length (sep : α) (l : List α) : (l.splitOn sep).length = l.count sep + 1 := by
  induction l with
  | nil => rfl
  | cons a l ih =>
      rw [List.splitOn_cons_eq_if_modifyHead, List.count_cons]
      split
      · rw [List.length_cons, ih]
      · rw [List.length_modifyHead, ih]

/-- What a short list between two others leaves of their fields. -/
theorem splitOn_around (sep : α) (as middle bs : List α) (hmiddle : middle.length ≤ 1) :
    ((as.splitOn sep).dropLast ++ (bs.splitOn sep).tail).Sublist
        ((as ++ middle ++ bs).splitOn sep) ∧
      ((as ++ middle ++ bs).splitOn sep).length ≤
        ((as.splitOn sep).dropLast ++ (bs.splitOn sep).tail).length + 2 := by
  obtain ⟨field, hfield⟩ := splitOn_append sep (as ++ middle) bs
  obtain ⟨field', hfield'⟩ := splitOn_append sep as middle
  constructor
  · rw [hfield, hfield']
    apply List.Sublist.append
    · rw [List.dropLast_append_of_ne_nil (List.cons_ne_nil _ _)]
      exact List.sublist_append_left _ _
    · exact List.sublist_cons_self _ _
  · have hcount := (List.count_le_length (a := sep) (l := middle)).trans hmiddle
    rw [splitOn_length, List.count_append, List.count_append, List.length_append,
      List.length_dropLast, List.length_tail, splitOn_length, splitOn_length]
    omega

theorem countP_of_sublist {β : Type*} {l l' : List β} (h : l.Sublist l') {n : Nat}
    (hlength : l'.length ≤ l.length + n) (p : β → Bool) : l'.countP p ≤ l.countP p + n := by
  have hother := h.countP_le (p := fun b => !p b)
  have hall : ∀ l : List β, l.length = l.countP p + l.countP fun b => !p b := fun l => by
    rw [List.length_eq_countP_add_countP p]
    simp
  have hl := hall l
  have hl' := hall l'
  omega

theorem countP_around (as bs : List α) {middle middle' : List α} (hmiddle : middle.length ≤ 1)
    (hmiddle' : middle'.length ≤ 1) (p : List α → Bool) :
    ((as ++ middle ++ bs).splitOn sep).countP p ≤
      ((as ++ middle' ++ bs).splitOn sep).countP p + 2 := by
  obtain ⟨hsub, hlength⟩ := splitOn_around sep as middle bs hmiddle
  obtain ⟨hsub', -⟩ := splitOn_around sep as middle' bs hmiddle'
  have hle := countP_of_sublist hsub hlength p
  have hle' := hsub'.countP_le (p := p)
  omega

/-- `n` edits take away `2 * n` fields of a kind at most. -/
theorem countP_splitOn {n : Nat} {as bs : List α} (h : Aligned n as bs) (p : List α → Bool)
    (front : List α) :
    ((front ++ as).splitOn sep).countP p ≤ ((front ++ bs).splitOn sep).countP p + 2 * n := by
  induction h generalizing front with
  | nil => exact Nat.le_add_right _ _
  | @keep n as bs a h ih =>
      have hrest := ih (front ++ [a])
      rw [List.append_assoc, List.append_assoc] at hrest
      exact hrest
  | @replace n as bs a b h ih =>
      have hedit := @countP_around α _ sep front as [a] [b] (Nat.le_refl 1) (Nat.le_refl 1) p
      have hrest := ih (front ++ [b])
      rw [List.append_assoc front [b] bs] at hrest
      rw [List.append_assoc front [a] as] at hedit
      exact hedit.trans (Nat.add_le_add_right hrest 2)
  | @delete n as bs a h ih =>
      have hedit := @countP_around α _ sep front as [a] [] (Nat.le_refl 1) (Nat.zero_le 1) p
      rw [List.append_nil, List.append_assoc front [a] as] at hedit
      exact hedit.trans (Nat.add_le_add_right (ih front) 2)
  | @insert n as bs b h ih =>
      have hedit := @countP_around α _ sep front as [] [b] (Nat.zero_le 1) (Nat.le_refl 1) p
      have hrest := ih (front ++ [b])
      rw [List.append_assoc front [b] bs] at hrest
      rw [List.append_nil] at hedit
      exact hedit.trans (Nat.add_le_add_right hrest 2)

end MCode.Lib.Fields
