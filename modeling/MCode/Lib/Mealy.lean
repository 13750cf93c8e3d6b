import Mathlib

/-!
# Machines that answer

A machine that takes any call in any state: `step s a` is the answer to the
call `a` and the next state.  A run is a list of calls; its log pairs every
call with its answer, in order.

What holds of the log so far and the state it led to, and is kept by one more
call, holds of every run.
-/

namespace MCode.Lib.Mealy

variable {σ α β : Type*} (step : σ → α → β × σ)

/-- The state behind the calls. -/
def after (s : σ) (calls : List α) : σ :=
  calls.foldl (fun s a => (step s a).2) s

/-- The calls with their answers. -/
def log (s : σ) : List α → List (α × β)
  | [] => []
  | a :: calls => (a, (step s a).1) :: log (step s a).2 calls

@[simp] theorem after_nil (s : σ) : after step s [] = s := rfl

@[simp] theorem log_nil (s : σ) : log step s [] = [] := rfl

theorem after_append (s : σ) (first second : List α) :
    after step s (first ++ second) = after step (after step s first) second :=
  List.foldl_append

theorem log_append (s : σ) (first second : List α) :
    log step s (first ++ second) =
      log step s first ++ log step (after step s first) second := by
  induction first generalizing s with
  | nil => rfl
  | cons a first ih =>
      show _ :: log step (step s a).2 (first ++ second) = _
      rw [ih]
      rfl

variable {step}

/-- The invariant rule over every run: an invariant of the log and the state
it led to. -/
theorem log_induction {s₀ : σ} {I : List (α × β) → σ → Prop} (hnil : I [] s₀)
    (hstep : ∀ log s a, I log s → I (log ++ [(a, (step s a).1)]) (step s a).2)
    (calls : List α) : I (log step s₀ calls) (after step s₀ calls) := by
  induction calls using List.reverseRec with
  | nil => exact hnil
  | append_singleton calls a ih =>
      rw [log_append, after_append]
      exact hstep _ _ a ih

/-- The invariant rule for an invariant of the state alone. -/
theorem after_induction {s₀ : σ} {I : σ → Prop} (hs : I s₀)
    (hstep : ∀ s a, I s → I (step s a).2) (calls : List α) :
    I (after step s₀ calls) :=
  log_induction (I := fun _ s => I s) hs (fun _ s a h => hstep s a h) calls

/-- A place in the log is a call in a state of the run. -/
theorem log_split {s : σ} {calls : List α} {before rest : List (α × β)} {a : α}
    {b : β} (h : log step s calls = before ++ (a, b) :: rest) :
    ∃ first second, calls = first ++ a :: second ∧ before = log step s first ∧
      b = (step (after step s first) a).1 ∧
      rest = log step (step (after step s first) a).2 second := by
  induction before generalizing s calls with
  | nil =>
      cases calls with
      | nil => cases h
      | cons c calls =>
          obtain ⟨hhead, htail⟩ := List.cons.inj h
          cases hhead
          exact ⟨[], calls, rfl, rfl, rfl, htail.symm⟩
  | cons entry before ih =>
      cases calls with
      | nil => cases h
      | cons c calls =>
          obtain ⟨hhead, htail⟩ := List.cons.inj h
          obtain ⟨first, second, hcalls, hbefore, hb, hrest⟩ := ih htail
          refine ⟨c :: first, second, ?_, ?_, hb, hrest⟩
          · rw [hcalls]
            rfl
          · rw [hbefore, ← hhead]
            rfl

end MCode.Lib.Mealy
