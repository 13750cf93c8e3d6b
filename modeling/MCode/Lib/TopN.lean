import Mathlib

/-!
# Keeping the smallest

A heap of bounded size sees elements one after the other and keeps the smallest
of them: while there is room an element is put in, and from then on it takes the
place of a greatest one of the heap if it is smaller.  Which one of several
greatest elements the heap gives up is left open, so the rules hold of every
heap that answers with some greatest element.
-/

namespace MCode.Lib.TopN

variable {α β : Type*} [LinearOrder β] {key : α → β}

/-- A way to find a greatest element of a heap. -/
structure Greatest (key : α → β) where
  peek : List α → Option α
  peek_none : ∀ {heap}, peek heap = none → heap = []
  peek_mem : ∀ {heap a}, peek heap = some a → a ∈ heap
  peek_le : ∀ {heap a}, peek heap = some a → ∀ b ∈ heap, key b ≤ key a

/-- The first of the greatest elements. -/
def Greatest.first (key : α → β) : Greatest key where
  peek := List.argmax key
  peek_none h := List.argmax_eq_none.1 h
  peek_mem h := List.argmax_mem h
  peek_le h _ hb := List.le_of_mem_argmax hb h

/-- The heap has at most `cap` elements, the smallest of those it was offered. -/
structure Smallest (key : α → β) (cap : Nat) (offered : Multiset α) (heap : List α) : Prop where
  length_le : heap.length ≤ cap
  smallest : ∃ dropped : Multiset α, ↑heap + dropped = offered ∧
    (∀ d ∈ dropped, ∀ a ∈ heap, key a ≤ key d) ∧ (dropped ≠ 0 → heap.length = cap)

theorem Smallest.empty (key : α → β) (cap : Nat) : Smallest key cap 0 [] where
  length_le := Nat.zero_le cap
  smallest := ⟨0, rfl, fun d hd => absurd hd (Multiset.notMem_zero d), fun h => absurd rfl h⟩

/-- There is room for another element. -/
theorem Smallest.push {cap : Nat} {offered : Multiset α} {heap : List α}
    (h : Smallest key cap offered heap) (hroom : heap.length < cap) (a : α) :
    Smallest key cap (a ::ₘ offered) (a :: heap) := by
  obtain ⟨dropped, hsum, -, hfull⟩ := h.smallest
  have hnone : dropped = 0 := by
    by_contra hne
    exact absurd (hfull hne) hroom.ne
  constructor
  · exact hroom
  · refine ⟨0, ?_, fun d hd => absurd hd (Multiset.notMem_zero d), fun hne => absurd rfl hne⟩
    rw [← hsum, hnone, Multiset.add_zero, Multiset.add_zero, Multiset.cons_coe]

/-- The element is no smaller than what is in the full heap. -/
theorem Smallest.refuse {cap : Nat} {offered : Multiset α} {heap : List α}
    (h : Smallest key cap offered heap) (hfull : cap ≤ heap.length) {a : α}
    (hle : ∀ b ∈ heap, key b ≤ key a) : Smallest key cap (a ::ₘ offered) heap := by
  obtain ⟨dropped, hsum, hdropped, -⟩ := h.smallest
  constructor
  · exact h.length_le
  · refine ⟨a ::ₘ dropped, ?_, ?_, fun _ => le_antisymm h.length_le hfull⟩
    · rw [Multiset.add_cons, hsum]
    · intro d hd b hb
      rcases Multiset.mem_cons.1 hd with rfl | hd
      · exact hle b hb
      · exact hdropped d hd b hb

/-- The element takes the place of a greatest one. -/
theorem Smallest.replace [DecidableEq α] {cap : Nat} {offered : Multiset α} {heap : List α}
    (h : Smallest key cap offered heap) (hfull : cap ≤ heap.length) {a worst : α}
    (hmem : worst ∈ heap) (hworst : ∀ b ∈ heap, key b ≤ key worst) (hlt : key a < key worst) :
    Smallest key cap (a ::ₘ offered) (a :: heap.erase worst) := by
  obtain ⟨dropped, hsum, hdropped, -⟩ := h.smallest
  have hlength : (a :: heap.erase worst).length = heap.length := by
    have hpos := List.length_pos_of_mem hmem
    rw [List.length_cons, List.length_erase_of_mem hmem]
    omega
  constructor
  · rw [hlength]
    exact h.length_le
  · refine ⟨worst ::ₘ dropped, ?_, ?_, ?_⟩
    · rw [← hsum, ← Multiset.cons_coe, ← Multiset.coe_erase, Multiset.cons_add,
        Multiset.add_cons, ← Multiset.cons_add,
        Multiset.cons_erase (Multiset.mem_coe.2 hmem)]
    · intro d hd b hb
      have hb : key b ≤ key worst := by
        cases hb with
        | head => exact hlt.le
        | tail _ hb => exact hworst b (List.mem_of_mem_erase hb)
      rcases Multiset.mem_cons.1 hd with rfl | hd
      · exact hb
      · exact hb.trans (hdropped d hd worst hmem)
    · intro _
      rw [hlength]
      exact le_antisymm h.length_le hfull

end MCode.Lib.TopN
