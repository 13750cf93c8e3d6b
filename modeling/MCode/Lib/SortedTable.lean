import Mathlib

/-!
# Tables that are sorted by a key

A table is a list of records with pairwise different keys in ascending order.
It is checked by a look at neighbours, searched by halving, and sorted again
after records were added at its end.  Records that are taken out, and records
that change without their key, leave a table sorted.
-/

namespace MCode.Lib.SortedTable

variable {α κ : Type*}

/-! ## Searching -/

/-- The loop of a binary search: the place that a match has to have. -/
def searchLoop (cmp : α → Ordering) (l : List α) (base size : Nat) : Nat :=
  if 1 < size then
    let half := size / 2
    let mid := base + half
    searchLoop cmp l (if l[mid]?.map cmp = some .gt then base else mid) (size - half)
  else base
termination_by size

/-- `slice::binary_search_by`: the place of a match, or where one would be
inserted. -/
def binarySearchBy (cmp : α → Ordering) (l : List α) : Except Nat Nat :=
  let base := searchLoop cmp l 0 l.length
  match l[base]?.map cmp with
  | none => .error 0
  | some .eq => .ok base
  | some .lt => .error (base + 1)
  | some .gt => .error base

/-- A place that is found holds a match, whatever the order. -/
theorem binarySearchBy_ok {cmp : α → Ordering} {l : List α} {i : Nat}
    (h : binarySearchBy cmp l = .ok i) : ∃ a, l[i]? = some a ∧ cmp a = .eq := by
  unfold binarySearchBy at h
  dsimp only at h
  split at h
  · cases h
  · rename_i hmatch
    cases h
    simpa using hmatch
  · cases h
  · cases h

variable [LinearOrder κ]

/-- The keys are in strictly ascending order. -/
def Sorted (key : α → κ) (l : List α) : Prop := (l.map key).Pairwise (· < ·)

theorem Sorted.lt {key : α → κ} {l : List α} (h : Sorted key l) {i j : Nat} {a b : α}
    (hij : i < j) (ha : l[i]? = some a) (hb : l[j]? = some b) : key a < key b := by
  obtain ⟨hi, rfl⟩ := List.getElem?_eq_some_iff.1 ha
  obtain ⟨hj, rfl⟩ := List.getElem?_eq_some_iff.1 hb
  have hlt := List.pairwise_iff_getElem.1 h i j (by simpa using hi) (by simpa using hj) hij
  simpa using hlt

/-- One key has one place. -/
theorem Sorted.place {key : α → κ} {l : List α} (h : Sorted key l) {i j : Nat} {a b : α}
    (ha : l[i]? = some a) (hb : l[j]? = some b) (hkey : key a = key b) : i = j := by
  rcases Nat.lt_trichotomy i j with hlt | heq | hgt
  · exact absurd hkey (ne_of_lt (h.lt hlt ha hb))
  · exact heq
  · exact absurd hkey.symm (ne_of_lt (h.lt hgt hb ha))

theorem Sorted.unique {key : α → κ} {l : List α} (h : Sorted key l) {a b : α} (ha : a ∈ l)
    (hb : b ∈ l) (hkey : key a = key b) : a = b := by
  obtain ⟨i, hi⟩ := List.getElem?_of_mem ha
  obtain ⟨j, hj⟩ := List.getElem?_of_mem hb
  have hij := h.place hi hj hkey
  rw [hij, hj] at hi
  exact (Option.some.inj hi).symm

/-- The place of a match stays in the window that the loop looks at. -/
theorem searchLoop_place {key : α → κ} {l : List α} (hsorted : Sorted key l) {k : κ} {i : Nat}
    {a : α} (ha : l[i]? = some a) (hkey : key a = k) :
    ∀ base size, base ≤ i → i < base + size → base + size ≤ l.length →
      searchLoop (fun b => compare (key b) k) l base size = i := by
  intro base size
  induction size using Nat.strong_induction_on generalizing base with
  | _ size ih =>
      intro hlow hhigh hbound
      unfold searchLoop
      by_cases hsize : 1 < size
      · rw [if_pos hsize]
        dsimp only
        have hmid : base + size / 2 < l.length := by omega
        have hfound := List.getElem?_eq_getElem hmid
        rw [hfound, Option.map_some]
        by_cases hgt : compare (key l[base + size / 2]) k = .gt
        · rw [if_pos (by rw [hgt])]
          have hbefore : i < base + size / 2 := by
            by_contra hle
            rw [compare_gt_iff_gt, ← hkey] at hgt
            rcases Nat.lt_or_ge (base + size / 2) i with hlt | hge
            · exact absurd hgt (not_lt_of_gt (hsorted.lt hlt hfound ha))
            · have hsame : i = base + size / 2 := by omega
              rw [hsame, hfound] at ha
              cases ha
              exact lt_irrefl _ hgt
          exact ih (size - size / 2) (by omega) base hlow (by omega) (by omega)
        · rw [if_neg (by simpa using hgt)]
          have hafter : base + size / 2 ≤ i := by
            by_contra hlt
            rw [compare_gt_iff_gt, ← hkey] at hgt
            exact hgt (hsorted.lt (Nat.not_le.1 hlt) ha hfound)
          exact ih (size - size / 2) (by omega) (base + size / 2) hafter (by omega) (by omega)
      · rw [if_neg hsize]
        omega

/-- A key that is there is found where it is. -/
theorem binarySearchBy_found {key : α → κ} {l : List α} (hsorted : Sorted key l) {k : κ} {i : Nat}
    {a : α} (ha : l[i]? = some a) (hkey : key a = k) :
    binarySearchBy (fun b => compare (key b) k) l = .ok i := by
  have hi := (List.getElem?_eq_some_iff.1 ha).1
  have hplace := searchLoop_place hsorted ha hkey 0 l.length (Nat.zero_le i) (by omega) (by omega)
  unfold binarySearchBy
  dsimp only
  rw [hplace, ha, Option.map_some, hkey, compare_eq_iff_eq.2 rfl]

/-- A key that is not found is not there. -/
theorem binarySearchBy_error {key : α → κ} {l : List α} (hsorted : Sorted key l) {k : κ} {j : Nat}
    (h : binarySearchBy (fun b => compare (key b) k) l = .error j) : k ∉ l.map key := by
  intro hmem
  obtain ⟨a, ha, hkey⟩ := List.mem_map.1 hmem
  obtain ⟨i, hi⟩ := List.getElem?_of_mem ha
  rw [binarySearchBy_found hsorted hi hkey] at h
  cases h

/-! ## Neighbours -/

/-- `windows(2).any(..)`. -/
def anyNeighbours (p : α → α → Bool) : List α → Bool
  | a :: b :: rest => p a b || anyNeighbours p (b :: rest)
  | _ => false

theorem anyNeighbours_false {p : α → α → Bool} {l : List α} :
    anyNeighbours p l = false ↔ l.IsChain fun a b => p a b = false := by
  induction l with
  | nil => simp [anyNeighbours]
  | cons a l ih =>
      cases l with
      | nil => simp [anyNeighbours]
      | cons b rest =>
          unfold anyNeighbours
          rw [Bool.or_eq_false_iff, List.isChain_cons_cons, ih]

/-- No neighbours are out of order just if the table is sorted. -/
theorem sorted_iff {key : α → κ} {l : List α} :
    anyNeighbours (fun a b => decide (key b ≤ key a)) l = false ↔ Sorted key l := by
  rw [anyNeighbours_false]
  unfold Sorted
  rw [← List.isChain_iff_pairwise, List.isChain_map]
  constructor
  · intro h
    exact h.imp fun a b hab => not_le.1 (of_decide_eq_false hab)
  · intro h
    exact h.imp fun a b hab => decide_eq_false (not_le.2 hab)

/-! ## Sorting -/

/-- `sort_by` with the comparison of the keys; the sort is stable. -/
def sortBy (key : α → κ) (l : List α) : List α :=
  l.mergeSort fun a b => decide (key a ≤ key b)

theorem sortBy_perm (key : α → κ) (l : List α) : (sortBy key l).Perm l :=
  List.mergeSort_perm l _

theorem sortBy_le (key : α → κ) (l : List α) :
    (sortBy key l).Pairwise fun a b => key a ≤ key b := by
  have hsorted := @List.pairwise_mergeSort _ (fun a b => decide (key a ≤ key b))
    (fun a b c hab hbc => decide_eq_true (le_trans (of_decide_eq_true hab) (of_decide_eq_true hbc)))
    (fun a b => by simpa using le_total (key a) (key b)) l
  exact hsorted.imp fun h => of_decide_eq_true h

/-- Records with different keys are sorted into a table. -/
theorem sortBy_sorted {key : α → κ} {l : List α} (h : (l.map key).Nodup) :
    Sorted key (sortBy key l) := by
  have hnodup : ((sortBy key l).map key).Nodup := ((sortBy_perm key l).map key).nodup_iff.2 h
  have hle : ((sortBy key l).map key).Pairwise (· ≤ ·) := List.pairwise_map.2 (sortBy_le key l)
  exact (hle.and hnodup).imp fun ⟨hle, hne⟩ => lt_of_le_of_ne hle hne

/-- Neighbours that differ after sorting: all keys differ. -/
theorem nodup_of_sortBy {key : α → κ} {l : List α}
    (h : anyNeighbours (fun a b => decide (key a = key b)) (sortBy key l) = false) :
    (l.map key).Nodup := by
  apply ((sortBy_perm key l).map key).nodup_iff.1
  rw [anyNeighbours_false] at h
  have hstrict : Sorted key (sortBy key l) := by
    unfold Sorted
    rw [← List.isChain_iff_pairwise, List.isChain_map]
    have hle := (sortBy_le key l).isChain
    rw [List.isChain_iff_getElem] at h hle ⊢
    intro i hi
    exact lt_of_le_of_ne (hle i hi) (of_decide_eq_false (h i hi))
  exact hstrict.imp fun hlt => ne_of_lt hlt

theorem Sorted.nodup {key : α → κ} {l : List α} (h : Sorted key l) : (l.map key).Nodup :=
  h.imp fun hlt => ne_of_lt hlt

/-- A table stays as it is when it is sorted again. -/
theorem Sorted.sortBy {key : α → κ} {l : List α} (h : Sorted key l) : sortBy key l = l := by
  apply List.mergeSort_of_pairwise
  exact (List.pairwise_map.1 h).imp fun hlt => decide_eq_true (le_of_lt hlt)

/-- A property that only one key has is had at most once. -/
theorem countP_eq_one {key : α → κ} {l : List α} (h : (l.map key).Nodup) {p : α → Bool} {k : κ}
    (hp : ∀ a, p a → key a = k) : l.countP p = 1 ↔ ∃ a ∈ l, p a := by
  have hle : l.countP p ≤ 1 := by
    rw [List.nodup_iff_count_le_one] at h
    refine le_trans ?_ (h k)
    rw [List.count, List.countP_map]
    exact List.countP_mono_left fun a _ ha => beq_iff_eq.2 (hp a ha)
  rw [← List.countP_pos_iff]
  omega

/-! ## Changes -/

theorem Sorted.sublist {key : α → κ} {l l' : List α} (h : Sorted key l) (hsub : l'.Sublist l) :
    Sorted key l' :=
  List.Pairwise.sublist (hsub.map key) h

omit [LinearOrder κ] in
/-- A record that changes without its key. -/
theorem map_set {key : α → κ} {l : List α} {i : Nat} {a a' : α} (ha : l[i]? = some a)
    (hkey : key a' = key a) : (l.set i a').map key = l.map key := by
  obtain ⟨hi, rfl⟩ := List.getElem?_eq_some_iff.1 ha
  rw [List.map_set, hkey, ← List.getElem_map key (h := by simpa using hi), List.set_getElem_self]

theorem modify_found {l : List α} {i : Nat} {a : α} (ha : l[i]? = some a) (f : α → α) :
    l.modify i f = l.set i (f a) := by
  have : Inhabited α := ⟨a⟩
  rw [List.modify_eq_set, ha]
  rfl

/-- The other records stay where they are. -/
theorem mem_set_of_mem {l : List α} {i : Nat} {a a' b : α} (ha : l[i]? = some a) (hb : b ∈ l) :
    b = a ∨ b ∈ l.set i a' := by
  obtain ⟨j, hj⟩ := List.getElem?_of_mem hb
  by_cases hij : i = j
  · subst hij
    rw [ha] at hj
    exact Or.inl (Option.some.inj hj).symm
  · apply Or.inr
    apply List.mem_of_getElem? (i := j)
    rw [List.getElem?_set_ne hij]
    exact hj

/-! ## Insertion -/

/-- `BTreeMap::insert`: a record takes the place of the one with its key. -/
def insert (key : α → κ) (a : α) : List α → List α
  | [] => [a]
  | b :: rest =>
      if key a < key b then a :: b :: rest
      else if key b < key a then b :: insert key a rest
      else a :: rest

/-- A record with a new key is added. -/
theorem insert_perm {key : α → κ} {a : α} {l : List α} (h : key a ∉ l.map key) :
    (insert key a l).Perm (a :: l) := by
  induction l with
  | nil => exact List.Perm.refl _
  | cons b rest ih =>
      rw [List.map_cons, List.mem_cons, not_or] at h
      unfold insert
      by_cases hlt : key a < key b
      · rw [if_pos hlt]
      · rw [if_neg hlt, if_pos (lt_of_le_of_ne (not_lt.1 hlt) (Ne.symm h.1))]
        exact ((ih h.2).cons b).trans (List.Perm.swap a b rest)

/-- A table stays sorted. -/
theorem Sorted.insert {key : α → κ} {a : α} {l : List α} (hsorted : Sorted key l)
    (h : key a ∉ l.map key) : Sorted key (insert key a l) := by
  induction l with
  | nil => exact List.pairwise_singleton _ _
  | cons b rest ih =>
      have hmore := h
      rw [List.map_cons, List.mem_cons, not_or] at h
      unfold Sorted at hsorted
      rw [List.map_cons, List.pairwise_cons] at hsorted
      unfold SortedTable.insert
      by_cases hlt : key a < key b
      · rw [if_pos hlt]
        refine List.pairwise_cons.2 ⟨?_, List.pairwise_cons.2 hsorted⟩
        intro k hk
        cases List.mem_cons.1 hk with
        | inl hk => exact hk ▸ hlt
        | inr hk => exact lt_trans hlt (hsorted.1 k hk)
      · have hgt := lt_of_le_of_ne (not_lt.1 hlt) (Ne.symm h.1)
        rw [if_neg hlt, if_pos hgt]
        refine List.pairwise_cons.2 ⟨?_, ih hsorted.2 h.2⟩
        intro k hk
        have hkeys := ((insert_perm h.2).map key).mem_iff.1 hk
        rw [List.map_cons, List.mem_cons] at hkeys
        cases hkeys with
        | inl hk => exact hk ▸ hgt
        | inr hk => exact hsorted.1 k hk

/-- What is left to add has new keys still. -/
theorem nodup_insert {key : α → κ} {a : α} {added l : List α}
    (h : ((a :: added ++ l).map key).Nodup) :
    key a ∉ l.map key ∧ (added ++ insert key a l).Perm (a :: (added ++ l)) ∧
      ((added ++ insert key a l).map key).Nodup := by
  have hnew : key a ∉ l.map key := by
    rw [List.cons_append, List.map_cons, List.nodup_cons, List.map_append, List.mem_append,
      not_or] at h
    exact h.1.2
  have hperm : (added ++ insert key a l).Perm (a :: (added ++ l)) :=
    ((insert_perm hnew).append_left added).trans List.perm_middle
  exact ⟨hnew, hperm, (hperm.map key).nodup_iff.2 h⟩

/-- `BTreeSet::extend` with new records. -/
theorem extend_perm {key : α → κ} {added l : List α} (h : ((added ++ l).map key).Nodup) :
    (added.foldl (fun table a => insert key a table) l).Perm (added ++ l) := by
  induction added generalizing l with
  | nil => exact List.Perm.refl _
  | cons a added ih =>
      obtain ⟨-, hperm, hnodup⟩ := nodup_insert h
      exact (ih hnodup).trans hperm

theorem Sorted.extend {key : α → κ} {added l : List α} (hsorted : Sorted key l)
    (h : ((added ++ l).map key).Nodup) :
    Sorted key (added.foldl (fun table a => SortedTable.insert key a table) l) := by
  induction added generalizing l with
  | nil => exact hsorted
  | cons a added ih =>
      obtain ⟨hnew, -, hnodup⟩ := nodup_insert h
      exact ih (hsorted.insert hnew) hnodup

end MCode.Lib.SortedTable
