import Mathlib

/-!
# Best-first traversals

The items of a forest are ordered by a key; an item comes before its children,
and siblings have different keys.  A traversal keeps a frontier of items it has
still to take: a step takes the least item of the frontier and puts its children
in its place.  The frontier begins with the roots.

What has been taken is then always sorted, and it is the beginning of what there
is to take: an item below the roots that has not been taken is greater than all
that have.  Each step makes the frontier lighter, so the traversal ends, and when
it has ended it has taken everything below the roots.
-/

namespace MCode.Lib.BestFirst

variable {α κ : Type*} [LinearOrder κ]

structure Forest (α κ : Type*) [LinearOrder κ] where
  key : α → κ
  children : α → List α
  weight : α → Nat
  ordered : ∀ a, (children a).Pairwise fun c d => key c < key d
  below : ∀ a, ∀ c ∈ children a, key a < key c
  /-- Items of the same key have parents of the same key. -/
  parent : ∀ a b, ∀ c ∈ children a, ∀ d ∈ children b, key c = key d → key a = key b
  lighter : ∀ a, ((children a).map weight).sum < weight a

variable (F : Forest α κ)

/-- The item is the other, or an ancestor of it. -/
def Forest.Over (a x : α) : Prop :=
  Relation.ReflTransGen (fun a c => c ∈ F.children a) a x

/-- The keys of the roots differ, from each other and from the keys of all children. -/
structure Forest.Planted (roots : Multiset α) : Prop where
  apart : (roots.map F.key).Nodup
  outside : ∀ r ∈ roots, ∀ a, ∀ c ∈ F.children a, F.key r ≠ F.key c

/-- The items taken so far, in order, and the frontier. -/
inductive Run (roots : Multiset α) : List α → Multiset α → Prop
  | start : Run roots [] roots
  | take {taken : List α} {a : α} {rest : Multiset α} (before : Run roots taken (a ::ₘ rest))
      (least : ∀ b ∈ rest, F.key a ≤ F.key b) :
      Run roots (taken ++ [a]) (rest + ↑(F.children a))

variable {F}

theorem Forest.over_iff {a x : α} :
    F.Over a x ↔ x = a ∨ ∃ c ∈ F.children a, F.Over c x := by
  rw [Forest.Over, Relation.ReflTransGen.cases_head_iff]
  exact or_congr_left eq_comm

theorem Forest.Over.le {a x : α} (h : F.Over a x) : F.key a ≤ F.key x := by
  induction h with
  | refl => exact le_refl _
  | tail _ hchild ih => exact ih.trans (F.below _ _ hchild).le

/-! ## What a run keeps -/

structure Kept (F : Forest α κ) (roots : Multiset α) (taken : List α) (frontier : Multiset α) :
    Prop where
  sorted : taken.Pairwise fun a b => F.key a < F.key b
  ahead : ∀ t ∈ taken, ∀ p ∈ frontier, F.key t < F.key p
  apart : (frontier.map F.key).Nodup
  origin : ∀ p ∈ frontier, p ∈ roots ∨ ∃ t ∈ taken, p ∈ F.children t
  cover : ∀ x, (∃ r ∈ roots, F.Over r x) ↔ x ∈ taken ∨ ∃ p ∈ frontier, F.Over p x

theorem Kept.start {roots : Multiset α} (h : F.Planted roots) : Kept F roots [] roots where
  sorted := List.Pairwise.nil
  ahead := fun t ht => absurd ht List.not_mem_nil
  apart := h.apart
  origin := fun p hp => Or.inl hp
  cover := by simp

variable {roots rest : Multiset α} {taken : List α} {a : α}

/-- The least item is less than the others, since their keys differ. -/
theorem Kept.least_lt (h : Kept F roots taken (a ::ₘ rest))
    (hleast : ∀ b ∈ rest, F.key a ≤ F.key b) : ∀ b ∈ rest, F.key a < F.key b := by
  intro b hb
  apply lt_of_le_of_ne (hleast b hb)
  have hapart := h.apart
  rw [Multiset.map_cons, Multiset.nodup_cons] at hapart
  intro hsame
  exact hapart.1 (Multiset.mem_map.2 ⟨b, hb, hsame.symm⟩)

/-- The children of the item taken are new. -/
theorem Kept.children_new (hplanted : F.Planted roots) (h : Kept F roots taken (a ::ₘ rest)) :
    ∀ p ∈ rest, ∀ c ∈ F.children a, F.key p ≠ F.key c := by
  intro p hp c hc hsame
  cases h.origin p (Multiset.mem_cons_of_mem hp) with
  | inl hroot => exact hplanted.outside p hroot a c hc hsame
  | inr hchild =>
      obtain ⟨t, ht, hpt⟩ := hchild
      have hparent := F.parent t a p hpt c hc hsame
      exact absurd hparent (ne_of_lt (h.ahead t ht a (Multiset.mem_cons_self a rest)))

theorem Kept.take (hplanted : F.Planted roots) (h : Kept F roots taken (a ::ₘ rest))
    (hleast : ∀ b ∈ rest, F.key a ≤ F.key b) :
    Kept F roots (taken ++ [a]) (rest + ↑(F.children a)) := by
  have hhead : ∀ t ∈ taken, F.key t < F.key a := by
    intro t ht
    exact h.ahead t ht a (Multiset.mem_cons_self a rest)
  constructor
  case sorted =>
    rw [List.pairwise_append]
    refine ⟨h.sorted, List.pairwise_singleton _ _, ?_⟩
    intro t ht b hb
    rw [List.mem_singleton.1 hb]
    exact hhead t ht
  case ahead =>
    have hfront : ∀ p ∈ rest + ↑(F.children a), F.key a < F.key p := by
      intro p hp
      cases Multiset.mem_add.1 hp with
      | inl hrest => exact h.least_lt hleast p hrest
      | inr hchild => exact F.below a p (Multiset.mem_coe.1 hchild)
    intro t ht p hp
    cases List.mem_append.1 ht with
    | inl htaken => exact (hhead t htaken).trans (hfront p hp)
    | inr hlast =>
        rw [List.mem_singleton.1 hlast]
        exact hfront p hp
  case apart =>
    have hapart := h.apart
    rw [Multiset.map_cons, Multiset.nodup_cons] at hapart
    rw [Multiset.map_add, Multiset.nodup_add]
    refine ⟨hapart.2, ?_, ?_⟩
    · rw [Multiset.map_coe, Multiset.coe_nodup]
      exact List.pairwise_map.2 ((F.ordered a).imp ne_of_lt)
    · rw [Multiset.disjoint_left]
      intro k hrest hchildren
      obtain ⟨p, hp, hkey⟩ := Multiset.mem_map.1 hrest
      obtain ⟨c, hc, hother⟩ := Multiset.mem_map.1 hchildren
      exact h.children_new hplanted p hp c (Multiset.mem_coe.1 hc) (hkey.trans hother.symm)
  case origin =>
    intro p hp
    cases Multiset.mem_add.1 hp with
    | inl hrest =>
        refine (h.origin p (Multiset.mem_cons_of_mem hrest)).imp id ?_
        rintro ⟨t, ht, hchild⟩
        exact ⟨t, List.mem_append_left _ ht, hchild⟩
    | inr hchild => exact Or.inr ⟨a, by simp, Multiset.mem_coe.1 hchild⟩
  case cover =>
    intro x
    rw [h.cover x]
    constructor
    · rintro (htaken | ⟨p, hp, hover⟩)
      · exact Or.inl (List.mem_append_left _ htaken)
      · cases Multiset.mem_cons.1 hp with
        | inr hrest => exact Or.inr ⟨p, Multiset.mem_add.2 (Or.inl hrest), hover⟩
        | inl hsame =>
            rw [hsame, Forest.over_iff] at hover
            cases hover with
            | inl hx => exact Or.inl (by simp [hx])
            | inr hchild =>
                obtain ⟨c, hc, hover⟩ := hchild
                exact Or.inr ⟨c, Multiset.mem_add.2 (Or.inr (Multiset.mem_coe.2 hc)), hover⟩
    · rintro (htaken | ⟨p, hp, hover⟩)
      · cases List.mem_append.1 htaken with
        | inl htaken => exact Or.inl htaken
        | inr hlast =>
            refine Or.inr ⟨a, Multiset.mem_cons_self a rest, ?_⟩
            rw [List.mem_singleton.1 hlast]
            exact Relation.ReflTransGen.refl
      · cases Multiset.mem_add.1 hp with
        | inl hrest => exact Or.inr ⟨p, Multiset.mem_cons_of_mem hrest, hover⟩
        | inr hchild =>
            refine Or.inr ⟨a, Multiset.mem_cons_self a rest, ?_⟩
            exact Forest.over_iff.2 (Or.inr ⟨p, Multiset.mem_coe.1 hchild, hover⟩)

variable {frontier : Multiset α}

theorem Run.kept (hplanted : F.Planted roots) (h : Run F roots taken frontier) :
    Kept F roots taken frontier := by
  induction h with
  | start => exact Kept.start hplanted
  | take _ hleast ih => exact ih.take hplanted hleast

/-- What is taken is sorted. -/
theorem Run.sorted (hplanted : F.Planted roots) (h : Run F roots taken frontier) :
    taken.Pairwise fun a b => F.key a < F.key b :=
  (h.kept hplanted).sorted

/-- What is taken is below the roots. -/
theorem Run.over (hplanted : F.Planted roots) (h : Run F roots taken frontier) {x : α}
    (hx : x ∈ taken) : ∃ r ∈ roots, F.Over r x :=
  ((h.kept hplanted).cover x).2 (Or.inl hx)

/-- What is below the roots and has not been taken comes after all that has been. -/
theorem Run.least (hplanted : F.Planted roots) (h : Run F roots taken frontier) {r x : α}
    (hr : r ∈ roots) (hover : F.Over r x) : x ∈ taken ∨ ∀ t ∈ taken, F.key t < F.key x := by
  have hkept := h.kept hplanted
  refine ((hkept.cover x).1 ⟨r, hr, hover⟩).imp id ?_
  rintro ⟨p, hp, hover⟩ t ht
  exact (hkept.ahead t ht p hp).trans_le hover.le

/-- A run with nothing left has taken everything below the roots. -/
theorem Run.complete (hplanted : F.Planted roots) (h : Run F roots taken 0) {r x : α}
    (hr : r ∈ roots) (hover : F.Over r x) : x ∈ taken := by
  cases ((h.kept hplanted).cover x).1 ⟨r, hr, hover⟩ with
  | inl htaken => exact htaken
  | inr hleft =>
      obtain ⟨p, hp, -⟩ := hleft
      exact absurd hp (Multiset.notMem_zero p)

/-- The frontier gets lighter with every item taken. -/
theorem Run.weight_le (h : Run F roots taken frontier) :
    taken.length + (frontier.map F.weight).sum ≤ (roots.map F.weight).sum := by
  induction h with
  | start => simp
  | @take taken a rest _ _ ih =>
      have hlighter := F.lighter a
      rw [Multiset.map_cons, Multiset.sum_cons] at ih
      rw [List.length_append, List.length_singleton, Multiset.map_add, Multiset.sum_add,
        Multiset.map_coe, Multiset.sum_coe]
      omega

/-! ## Frontiers of sorted lists -/

/-- What is not above the head of any of the sorted lists is not above any item of them. -/
theorem le_of_heads {key : α → κ} {lists : List (List α)} {k : κ}
    (hsorted : ∀ l ∈ lists, l.Pairwise fun a b => key a < key b)
    (hheads : ∀ l ∈ lists, ∀ a ∈ l.head?, k ≤ key a) : ∀ a ∈ lists.flatten, k ≤ key a := by
  intro a ha
  obtain ⟨l, hl, hal⟩ := List.mem_flatten.1 ha
  cases l with
  | nil => cases hal
  | cons first l =>
      have hfirst : k ≤ key first := hheads _ hl first rfl
      cases hal with
      | head => exact hfirst
      | tail _ hal => exact hfirst.trans (List.rel_of_pairwise_cons (hsorted _ hl) hal).le

/-! ## Heaps -/

/-- The least element of a heap, and the heap without it. -/
def popMin {β : Type*} [LinearOrder β] (heap : List β) : Option (β × List β) :=
  heap.min?.map fun least => (least, heap.erase least)

theorem popMin_none {β : Type*} [LinearOrder β] {heap : List β} :
    popMin heap = none ↔ heap = [] := by
  rw [popMin, Option.map_eq_none_iff, List.min?_eq_none_iff]

theorem popMin_some {β : Type*} [LinearOrder β] {heap rest : List β} {least : β}
    (h : popMin heap = some (least, rest)) :
    heap.Perm (least :: rest) ∧ ∀ b ∈ heap, least ≤ b := by
  obtain ⟨other, hmin, hpair⟩ := Option.map_eq_some_iff.1 h
  obtain ⟨rfl, rfl⟩ := Prod.mk.inj hpair
  obtain ⟨hmem, hle⟩ := List.min?_eq_some_iff.1 hmin
  exact ⟨List.perm_cons_erase hmem, hle⟩

end MCode.Lib.BestFirst
