import Mathlib

/-!
# Spans

Records that each take a stretch of places, none of them empty.  In the order of
their starts neighbours are apart just if all of them are.
-/

namespace MCode.Lib.Spans

variable {α : Type} {start stop : α → Nat} {l l' : List α}

/-- No place is in both. -/
def Apart (start stop : α → Nat) (a b : α) : Prop := stop a ≤ start b ∨ stop b ≤ start a

instance : Std.Symm (Apart start stop) := ⟨fun _ _ h => h.symm⟩

theorem pairwise_of_isChain (hsorted : l.Pairwise fun a b => start a ≤ start b)
    (h : l.IsChain fun a b => stop a ≤ start b) : l.Pairwise fun a b => stop a ≤ start b := by
  induction l with
  | nil => exact List.Pairwise.nil
  | cons a l ih =>
      cases l with
      | nil => exact List.pairwise_singleton _ a
      | cons b rest =>
          obtain ⟨hfirst, hrest⟩ := List.isChain_cons_cons.1 h
          have htail := (List.pairwise_cons.1 hsorted).2
          refine List.pairwise_cons.2 ⟨?_, ih htail hrest⟩
          intro c hc
          rcases List.mem_cons.1 hc with rfl | hc
          · exact hfirst
          · exact Nat.le_trans hfirst ((List.pairwise_cons.1 htail).1 c hc)

/-- Neighbours in order are enough. -/
theorem isChain_iff_apart (hpos : ∀ a ∈ l, start a < stop a)
    (hsorted : l.Pairwise fun a b => start a ≤ start b) (hnodup : l.Nodup) :
    (l.IsChain fun a b => stop a ≤ start b) ↔
      ∀ a ∈ l, ∀ b ∈ l, a ≠ b → Apart start stop a b := by
  constructor
  · intro h
    have hpairwise : l.Pairwise (Apart start stop) :=
      (pairwise_of_isChain hsorted h).imp fun hle => Or.inl hle
    intro a ha b hb hne
    exact hpairwise.forall ha hb hne
  · intro h
    have hboth := hsorted.and hnodup
    apply List.Pairwise.isChain
    apply hboth.imp_of_mem
    intro a b ha hb ⟨hle, hne⟩
    have hpositive := hpos b hb
    rcases h a ha b hb hne with hbefore | hbehind
    · exact hbefore
    · omega

/-- There is one order of the starts, if they differ. -/
theorem eq_of_mem_iff (h : l.Pairwise fun a b => start a < start b)
    (h' : l'.Pairwise fun a b => start a < start b) (hmem : ∀ a, a ∈ l ↔ a ∈ l') : l = l' := by
  have : Std.Asymm fun a b : α => start a < start b := ⟨fun _ _ => Nat.lt_asymm⟩
  exact List.Pairwise.eq_of_mem_iff h h' fun {a} => hmem a

end MCode.Lib.Spans
