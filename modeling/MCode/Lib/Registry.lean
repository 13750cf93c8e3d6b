import Mathlib

/-!
# A shared set of the keys that slots hold

Each slot holds at most one key, and a shared set is to contain exactly the
keys that are held.  A slot that takes a new key from outside the set and gives
its old one back keeps the set exact and the keys pairwise different; so does
a slot that only gives its key back.
-/

namespace MCode.Lib.Registry

variable {α κ : Type*}

/-- The keys that the slots hold, in order. -/
def keys (f : α → Option κ) (slots : List α) : List κ := slots.filterMap f

theorem keys_cons (f : α → Option κ) (a : α) (slots : List α) :
    keys f (a :: slots) = (f a).toList ++ keys f slots := by
  unfold keys
  rw [List.filterMap_cons]
  cases f a with
  | none => rfl
  | some key => rfl

theorem keys_append_none {f : α → Option κ} {a : α} (slots : List α) (h : f a = none) :
    keys f (slots ++ [a]) = keys f slots := by
  unfold keys
  rw [List.filterMap_append, List.filterMap_cons_none h, List.filterMap_nil, List.append_nil]

/-- The keys of one slot and of the others. -/
theorem keys_perm {f : α → Option κ} {slots : List α} {i : Nat} {a : α}
    (h : slots[i]? = some a) :
    (keys f slots).Perm ((f a).toList ++ keys f (slots.eraseIdx i)) := by
  obtain ⟨hi, ha⟩ := List.getElem?_eq_some_iff.1 h
  rw [← keys_cons, ← ha]
  exact (List.getElem_cons_eraseIdx_perm hi).symm.filterMap f

theorem keys_set_perm {f : α → Option κ} {slots : List α} {i : Nat} {a : α}
    (h : slots[i]? = some a) (a' : α) :
    (keys f (slots.set i a')).Perm ((f a').toList ++ keys f (slots.eraseIdx i)) := by
  rw [← keys_cons]
  exact (List.set_perm_cons_eraseIdx (List.getElem?_eq_some_iff.1 h).1 a').filterMap f

/-- A slot whose key stays the same does not change the keys. -/
theorem keys_set_same {f : α → Option κ} {slots : List α} {i : Nat} {a a' : α}
    (h : slots[i]? = some a) (hsame : f a' = f a) :
    (keys f (slots.set i a')).Perm (keys f slots) := by
  have hset := keys_set_perm (f := f) h a'
  rw [hsame] at hset
  exact hset.trans (keys_perm h).symm

section Tracks

variable [DecidableEq κ]

/-- The keys are pairwise different, and the set holds exactly these. -/
structure Tracks (f : α → Option κ) (slots : List α) (live : Finset κ) : Prop where
  nodup : (keys f slots).Nodup
  live : live = (keys f slots).toFinset

theorem Tracks.nil (f : α → Option κ) : Tracks f [] ∅ := ⟨List.nodup_nil, rfl⟩

theorem Tracks.of_perm {f : α → Option κ} {slots slots' : List α} {live : Finset κ}
    (h : Tracks f slots live) (hperm : (keys f slots').Perm (keys f slots)) :
    Tracks f slots' live := by
  refine ⟨hperm.nodup_iff.2 h.nodup, ?_⟩
  rw [h.live]
  exact (List.toFinset_eq_of_perm _ _ hperm).symm

theorem Tracks.push {f : α → Option κ} {slots : List α} {live : Finset κ} {a : α}
    (h : Tracks f slots live) (ha : f a = none) : Tracks f (slots ++ [a]) live := by
  apply h.of_perm
  rw [keys_append_none slots ha]

theorem Tracks.same {f : α → Option κ} {slots : List α} {live : Finset κ} {i : Nat} {a a' : α}
    (h : Tracks f slots live) (ha : slots[i]? = some a) (hsame : f a' = f a) :
    Tracks f (slots.set i a') live :=
  h.of_perm (keys_set_same ha hsame)

/-- A slot gives its key back. -/
theorem Tracks.release {f : α → Option κ} {slots : List α} {live : Finset κ} {i : Nat} {a a' : α}
    (h : Tracks f slots live) (ha : slots[i]? = some a) (hnone : f a' = none) :
    Tracks f (slots.set i a') (live \ (f a).toFinset) := by
  have hperm := keys_perm (f := f) ha
  have hset := keys_set_perm (f := f) ha a'
  rw [hnone, Option.toList_none, List.nil_append] at hset
  have hnodup := hperm.nodup_iff.1 h.nodup
  obtain ⟨-, hrest, hdisjoint⟩ := List.nodup_append'.1 hnodup
  refine ⟨hset.nodup_iff.2 hrest, ?_⟩
  rw [h.live, List.toFinset_eq_of_perm _ _ hperm, List.toFinset_eq_of_perm _ _ hset]
  ext key
  have hapart : f a = some key → key ∉ keys f (slots.eraseIdx i) := by
    intro hkey hmem
    exact hdisjoint (by simp [hkey]) hmem
  simp only [Finset.mem_sdiff, List.mem_toFinset, List.mem_append, Option.mem_toList,
    Option.mem_toFinset, Option.mem_def]
  tauto

/-- A slot takes a new key and gives its old one back. -/
theorem Tracks.replace {f : α → Option κ} {slots : List α} {live : Finset κ} {i : Nat} {a a' : α}
    {key : κ} (h : Tracks f slots live) (ha : slots[i]? = some a) (hkey : f a' = some key)
    (hnew : key ∉ live) :
    Tracks f (slots.set i a') (insert key live \ (f a).toFinset) := by
  have hperm := keys_perm (f := f) ha
  have hset := keys_set_perm (f := f) ha a'
  rw [hkey, Option.toList_some, List.singleton_append] at hset
  obtain ⟨-, hrest, hdisjoint⟩ := List.nodup_append'.1 (hperm.nodup_iff.1 h.nodup)
  rw [h.live, List.toFinset_eq_of_perm _ _ hperm] at hnew ⊢
  simp only [List.mem_toFinset, List.mem_append, Option.mem_toList] at hnew
  rw [not_or] at hnew
  refine ⟨hset.nodup_iff.2 (List.nodup_cons.2 ⟨hnew.2, hrest⟩), ?_⟩
  rw [List.toFinset_eq_of_perm _ _ hset]
  ext other
  have hapart : f a = some other → other ∉ keys f (slots.eraseIdx i) := by
    intro hother hmem
    exact hdisjoint (by simp [hother]) hmem
  have hold : other = key → f a ≠ some other := by
    rintro rfl
    exact hnew.1
  simp only [Finset.mem_sdiff, Finset.mem_insert, List.mem_toFinset, List.mem_append,
    Option.mem_toList, Option.mem_toFinset, Option.mem_def, List.mem_cons]
  tauto

end Tracks

end MCode.Lib.Registry
