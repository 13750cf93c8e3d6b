import Mathlib

/-!
# Sequences with at most one terminal

A log in which a terminal item ends everything: no item follows one, so
there is at most one.  A log that has no terminal yet may be extended by any
item, and a log that has one by none.
-/

namespace MCode.Lib.Terminal

variable {α : Type*} {terminal : α → Bool}

/-- Nothing follows a terminal item. -/
def SingleTerminal (terminal : α → Bool) (log : List α) : Prop :=
  ∀ before x after, log = before ++ x :: after → terminal x = true → after = []

theorem SingleTerminal.nil : SingleTerminal terminal ([] : List α) := by
  intro before x after h
  simp at h

/-- A log without a terminal may get any item. -/
theorem SingleTerminal.concat {log : List α} (h : log.any terminal = false)
    (y : α) : SingleTerminal terminal (log ++ [y]) := by
  intro before x after hsplit hx
  rcases List.eq_nil_or_concat after with rfl | ⟨rest, z, rfl⟩
  · rfl
  · have hlog : log = before ++ x :: rest := by
      rw [List.concat_eq_append, ← List.cons_append, ← List.append_assoc] at hsplit
      exact (List.append_inj' hsplit rfl).1
    rw [hlog] at h
    simp [hx] at h

/-- A log with at most one terminal has at most one. -/
theorem SingleTerminal.countP_le_one {log : List α}
    (h : SingleTerminal terminal log) : log.countP terminal ≤ 1 := by
  induction log with
  | nil => simp
  | cons x log ih =>
      have htail : SingleTerminal terminal log := by
        intro before y after hlog hy
        exact h (x :: before) y after (by rw [hlog]; rfl) hy
      by_cases hx : terminal x = true
      · have hlog : log = [] := h [] x log rfl hx
        subst hlog
        simp [hx]
      · rw [List.countP_cons_of_neg hx]
        exact ih htail

end MCode.Lib.Terminal
