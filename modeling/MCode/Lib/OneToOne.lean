import Mathlib

/-!
# Pairings that grow

A list of pairs in which every left side has one right side and every right
side has one left side, built by remembering one pair after another.  Such a
list is the graph of a function on its left sides that is injective there.
-/

namespace MCode.Lib.OneToOne

variable {α β : Type} [DecidableEq α] [DecidableEq β]

/-- Keeps a pair, unless one of its sides is kept with another one. -/
def remember (pairs : List (α × β)) (a : α) (b : β) : Option (List (α × β)) :=
  match pairs.find? fun known => known.1 == a with
  | some known => if known.2 = b then some pairs else none
  | none => if pairs.any fun known => known.2 == b then none else some (pairs ++ [(a, b)])

/-- The values of a function on some keys. -/
def graph (f : α → β) (keys : List α) : List (α × β) := keys.map fun a => (a, f a)

/-- The keys with one more, if it is new. -/
def extend (keys : List α) (a : α) : List α := if a ∈ keys then keys else keys ++ [a]

/-- No side is there twice. -/
structure Paired (pairs : List (α × β)) : Prop where
  left : (pairs.map Prod.fst).Nodup
  right : (pairs.map Prod.snd).Nodup

theorem mem_extend {keys : List α} {a b : α} : b ∈ extend keys a ↔ b ∈ keys ∨ b = a := by
  unfold extend
  split
  · rename_i h
    exact ⟨Or.inl, fun h' => h'.elim id fun heq => heq ▸ h⟩
  · rw [List.mem_append, List.mem_singleton]

theorem le_extend (keys : List α) (a : α) : keys <+: extend keys a := by
  unfold extend
  split
  · exact List.prefix_rfl
  · exact List.prefix_append keys [a]

omit [DecidableEq α] [DecidableEq β] in
theorem mem_graph {f : α → β} {keys : List α} {a : α} {b : β} :
    (a, b) ∈ graph f keys ↔ a ∈ keys ∧ f a = b := by
  unfold graph
  rw [List.mem_map]
  constructor
  · rintro ⟨key, hkey, heq⟩
    obtain ⟨rfl, rfl⟩ := Prod.mk.inj heq
    exact ⟨hkey, rfl⟩
  · rintro ⟨ha, rfl⟩
    exact ⟨a, ha, rfl⟩

/-- A pair of an injective function is kept. -/
theorem remember_graph {f : α → β} {keys : List α} {a : α}
    (hinj : Set.InjOn f {key | key ∈ extend keys a}) :
    remember (graph f keys) a (f a) = some (graph f (extend keys a)) := by
  unfold remember
  cases hfind : (graph f keys).find? fun known => known.1 == a with
  | some known =>
      have hkey : known.1 = a := by simpa using List.find?_some hfind
      have hmem : (a, known.2) ∈ graph f keys := hkey ▸ List.mem_of_find?_eq_some hfind
      rw [mem_graph] at hmem
      dsimp only
      rw [if_pos hmem.2.symm, extend, if_pos hmem.1]
  | none =>
      have hnew : a ∉ keys := fun ha => by
        have hmiss := List.find?_eq_none.1 hfind (a, f a) (mem_graph.2 ⟨ha, rfl⟩)
        simp at hmiss
      have hfree : ¬ ((graph f keys).any fun known => known.2 == f a) = true := by
        rw [List.any_eq_true]
        rintro ⟨⟨key, value⟩, hmem, hvalue⟩
        obtain ⟨hkey, rfl⟩ := mem_graph.1 hmem
        have hsame := hinj (mem_extend.2 (Or.inl hkey)) (mem_extend.2 (Or.inr rfl))
          (by simpa using hvalue)
        exact hnew (hsame ▸ hkey)
      dsimp only
      rw [if_neg hfree, extend, if_neg hnew]
      unfold graph
      rw [List.map_append]
      rfl

omit [DecidableEq α] [DecidableEq β] in
/-- Pairs that a function has are its graph. -/
theorem eq_graph {f : α → β} {pairs : List (α × β)} (h : ∀ pair ∈ pairs, f pair.1 = pair.2) :
    pairs = graph f (pairs.map Prod.fst) := by
  unfold graph
  rw [List.map_map]
  refine (List.map_id pairs).symm.trans (List.map_congr_left fun pair hpair => ?_)
  exact Prod.ext rfl (h pair hpair).symm

omit [DecidableEq β] in
/-- Paired sides are the graph of a function that is injective on the left ones. -/
theorem Paired.exists_graph {pairs : List (α × β)} (h : Paired pairs) (f : α → β) :
    ∃ g : α → β, (∀ pair ∈ pairs, g pair.1 = pair.2) ∧
      Set.InjOn g {key | key ∈ pairs.map Prod.fst} := by
  have hvalue : ∀ pair ∈ pairs, ((pairs.find? fun known => known.1 == pair.1).elim (f pair.1)
      Prod.snd) = pair.2 := by
    intro pair hpair
    cases hfind : pairs.find? fun known => known.1 == pair.1 with
    | none =>
        have hmiss := List.find?_eq_none.1 hfind pair hpair
        simp at hmiss
    | some known =>
        have hkey : known.1 = pair.1 := by simpa using List.find?_some hfind
        exact congrArg Prod.snd
          (List.inj_on_of_nodup_map h.left (List.mem_of_find?_eq_some hfind) hpair hkey)
  refine ⟨fun a => (pairs.find? fun known => known.1 == a).elim (f a) Prod.snd, hvalue, ?_⟩
  rintro first hfirst second hsecond heq
  obtain ⟨pair, hpair, rfl⟩ := List.mem_map.1 hfirst
  obtain ⟨other, hother, rfl⟩ := List.mem_map.1 hsecond
  dsimp only at heq
  rw [hvalue pair hpair, hvalue other hother] at heq
  exact congrArg Prod.fst (List.inj_on_of_nodup_map h.right hpair hother heq)

/-- What is remembered stays paired, and is a pair of any function with these
values. -/
theorem remember_some {pairs more : List (α × β)} {a : α} {b : β} (hpaired : Paired pairs)
    (h : remember pairs a b = some more) :
    Paired more ∧ pairs <+: more ∧ (a, b) ∈ more ∧
      more.map Prod.fst = extend (pairs.map Prod.fst) a := by
  unfold remember at h
  cases hfind : pairs.find? fun known => known.1 == a with
  | some known =>
      rw [hfind] at h
      dsimp only at h
      split at h
      · rename_i hvalue
        obtain rfl := Option.some.inj h
        have hkey : known.1 = a := by simpa using List.find?_some hfind
        have hmem : (a, b) ∈ pairs := by
          rw [← hkey, ← hvalue]
          exact List.mem_of_find?_eq_some hfind
        refine ⟨hpaired, List.prefix_rfl, hmem, ?_⟩
        rw [extend, if_pos (List.mem_map.2 ⟨_, hmem, rfl⟩)]
      · cases h
  | none =>
      rw [hfind] at h
      dsimp only at h
      split at h
      · cases h
      · rename_i hfree
        obtain rfl := Option.some.inj h
        have hnew : a ∉ pairs.map Prod.fst := by
          intro hin
          obtain ⟨known, hknown, rfl⟩ := List.mem_map.1 hin
          have hmiss := List.find?_eq_none.1 hfind known hknown
          simp at hmiss
        have hvalue : b ∉ pairs.map Prod.snd := by
          intro hin
          obtain ⟨known, hknown, rfl⟩ := List.mem_map.1 hin
          exact hfree (List.any_eq_true.2 ⟨known, hknown, by simp⟩)
        refine ⟨⟨?_, ?_⟩, List.prefix_append .., by simp, ?_⟩
        · rw [List.map_append]
          exact (List.perm_append_singleton ..).nodup_iff.2 (List.nodup_cons.2 ⟨hnew, hpaired.left⟩)
        · rw [List.map_append]
          exact (List.perm_append_singleton ..).nodup_iff.2
            (List.nodup_cons.2 ⟨hvalue, hpaired.right⟩)
        · rw [List.map_append, extend, if_neg hnew]
          rfl

end MCode.Lib.OneToOne
