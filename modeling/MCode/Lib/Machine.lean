import Mathlib

/-!
# Partial step machines

A machine is a function `step : σ → α → Option σ`: from a state, a label
either leads to one next state or is not enabled.  Everything that chooses
(the environment, another task, a scheduler) is part of the label, so a run
is nothing but a list of labels and every interleaving is some list.

The rules below are what the developments over such a machine use: a state
predicate kept by each step is kept by each run, also when only the steps of
that run keep it, a preorder related by each step relates the ends of each
run, and a history invariant may use the run that led to a state.
-/

namespace MCode.Lib.Machine

variable {σ α : Type*} {step : σ → α → Option σ}

/-- Performs the labels in order; `none` as soon as one is not enabled. -/
def run (step : σ → α → Option σ) (s : σ) (labels : List α) : Option σ :=
  labels.foldlM step s

@[simp] theorem run_nil (s : σ) : run step s [] = some s := rfl

@[simp] theorem run_cons (s : σ) (a : α) (labels : List α) :
    run step s (a :: labels) = (step s a).bind (fun t => run step t labels) :=
  rfl

theorem run_append (s : σ) (first second : List α) :
    run step s (first ++ second) =
      (run step s first).bind (fun t => run step t second) := by
  simp [run, List.foldlM_append, Option.bind_eq_bind]

/-- A run of one more label splits into its first step and the rest. -/
theorem run_cons_some {s u : σ} {a : α} {labels : List α}
    (h : run step s (a :: labels) = some u) :
    ∃ t, step s a = some t ∧ run step t labels = some u := by
  simpa [Option.bind_eq_some_iff] using h

theorem run_append_some {s u : σ} {first second : List α}
    (h : run step s (first ++ second) = some u) :
    ∃ t, run step s first = some t ∧ run step t second = some u := by
  rw [run_append] at h
  simpa [Option.bind_eq_some_iff] using h

/-- Two runs compose. -/
theorem run_trans {s t u : σ} {first second : List α}
    (hfirst : run step s first = some t)
    (hsecond : run step t second = some u) :
    run step s (first ++ second) = some u := by
  rw [run_append, hfirst]
  exact hsecond

/-- `t` is reached from `s` by some run. -/
def Reaches (step : σ → α → Option σ) (s t : σ) : Prop :=
  ∃ labels, run step s labels = some t

theorem Reaches.trans {s t u : σ} (h₁ : Reaches step s t)
    (h₂ : Reaches step t u) : Reaches step s u := by
  obtain ⟨first, h₁⟩ := h₁
  obtain ⟨second, h₂⟩ := h₂
  exact ⟨first ++ second, run_trans h₁ h₂⟩

/-- Every step of the run, label and state before it, satisfies `P`. -/
def Along (step : σ → α → Option σ) (P : σ → α → Prop) (s : σ)
    (labels : List α) : Prop :=
  ∀ before a after u, labels = before ++ a :: after →
    run step s before = some u → P u a

theorem along_of_labels {P : α → Prop} {s : σ} {labels : List α}
    (h : ∀ a ∈ labels, P a) : Along step (fun _ a => P a) s labels := by
  intro before a after u hsplit _
  exact h a (by simp [hsplit])

theorem Along.nil {P : σ → α → Prop} (s : σ) : Along step P s [] := by
  intro before a after u hsplit _
  exact absurd hsplit (by simp)

theorem Along.cons {P : σ → α → Prop} {s t : σ} {a : α} {labels : List α} (ha : P s a)
    (hstep : step s a = some t) (hrest : Along step P t labels) :
    Along step P s (a :: labels) := by
  intro before b after u hsplit hu
  cases before with
  | nil =>
      cases hsplit
      cases hu
      exact ha
  | cons c before =>
      cases hsplit
      rw [run_cons, hstep] at hu
      exact hrest before b after u rfl hu

theorem Along.and {P Q : σ → α → Prop} {s : σ} {labels : List α}
    (hP : Along step P s labels) (hQ : Along step Q s labels) :
    Along step (fun u a => P u a ∧ Q u a) s labels :=
  fun before a after u hsplit hu =>
    ⟨hP before a after u hsplit hu, hQ before a after u hsplit hu⟩

theorem Along.append_left {P : σ → α → Prop} {s : σ} {first second : List α}
    (h : Along step P s (first ++ second)) : Along step P s first := by
  intro before a after u hsplit hu
  exact h before a (after ++ second) u (by rw [hsplit]; simp) hu

theorem Along.append_right {P : σ → α → Prop} {s t : σ} {first second : List α}
    (h : Along step P s (first ++ second)) (hrun : run step s first = some t) :
    Along step P t second := by
  intro before a after u hsplit hu
  exact h (first ++ before) a after u (by simp [hsplit]) (run_trans hrun hu)

/-- The invariant rule, for runs whose steps all satisfy `P`. -/
theorem run_preserves_along {I : σ → Prop} {P : σ → α → Prop}
    (hstep : ∀ s a t, I s → P s a → step s a = some t → I t)
    {s t : σ} {labels : List α} (hP : Along step P s labels) (hs : I s)
    (h : run step s labels = some t) : I t := by
  induction labels generalizing s with
  | nil =>
      cases h
      exact hs
  | cons a labels ih =>
      obtain ⟨u, hu, hrest⟩ := run_cons_some h
      have hu' : I u := hstep s a u hs (hP [] a labels s rfl rfl) hu
      refine ih (fun before b after v hsplit hv => ?_) hu' hrest
      refine hP (a :: before) b after v (by rw [hsplit]; rfl) ?_
      simp [hu, hv]

/-- The invariant rule, for runs whose labels all satisfy `P`. -/
theorem run_preserves {I : σ → Prop} {P : α → Prop}
    (hstep : ∀ s a t, I s → P a → step s a = some t → I t)
    {s t : σ} {labels : List α} (hP : ∀ a ∈ labels, P a) (hs : I s)
    (h : run step s labels = some t) : I t :=
  run_preserves_along hstep (along_of_labels hP) hs h

/-- The invariant rule over every reachable state. -/
theorem Reaches.preserves {I : σ → Prop}
    (hstep : ∀ s a t, I s → step s a = some t → I t) {s t : σ}
    (h : Reaches step s t) (hs : I s) : I t := by
  obtain ⟨labels, h⟩ := h
  exact run_preserves (P := fun _ => True) (fun s a t hI _ => hstep s a t hI)
    (fun _ _ => trivial) hs h

/-- Where each step keeps `Good` exactly if it satisfies `P`, every step of a run
satisfies `P` exactly if every state on the way is good. -/
theorem along_iff_good {I Good : σ → Prop} {P : σ → α → Prop}
    (hinv : ∀ s a t, I s → step s a = some t → I t)
    (hgood : ∀ s a t, I s → Good s → step s a = some t → (Good t ↔ P s a))
    {s t : σ} {labels : List α} (hs : I s) (hstart : Good s)
    (h : run step s labels = some t) :
    Along step P s labels ↔
      ∀ before after u, labels = before ++ after → run step s before = some u → Good u := by
  constructor
  · rintro halong before after u rfl hu
    exact (run_preserves_along (I := fun u => I u ∧ Good u)
      (fun v a w hv ha hstep =>
        ⟨hinv v a w hv.1 hstep, (hgood v a w hv.1 hv.2 hstep).2 ha⟩)
      halong.append_left ⟨hs, hstart⟩ hu).2
  · rintro hall before a after u rfl hu
    obtain ⟨u', hu', hrest⟩ := run_append_some h
    cases hu.symm.trans hu'
    obtain ⟨v, hstep, -⟩ := run_cons_some hrest
    have hv : run step s (before ++ [a]) = some v :=
      run_trans hu (by rw [run_cons, hstep]; rfl)
    have hinvu : I u := Reaches.preserves hinv ⟨before, hu⟩ hs
    exact (hgood u a v hinvu (hall before _ u rfl hu) hstep).1
      (hall (before ++ [a]) after v (by simp) hv)

/-- Induction over the history of a run: what holds of the labels performed
so far and the state they lead to, with the run itself at hand. -/
theorem run_history {s₀ : σ} {I : List α → σ → Prop} (hnil : I [] s₀)
    (hstep : ∀ history s a t, run step s₀ history = some s → I history s →
      step s a = some t → I (history ++ [a]) t)
    {labels : List α} {t : σ} (h : run step s₀ labels = some t) :
    I labels t := by
  induction labels using List.reverseRec generalizing t with
  | nil =>
      cases h
      exact hnil
  | append_singleton labels a ih =>
      obtain ⟨s, hs, hlast⟩ := run_append_some h
      obtain ⟨u, hu, hnext⟩ := run_cons_some hlast
      cases hnext
      exact hstep labels s a t hs (ih hs) hu

end MCode.Lib.Machine
