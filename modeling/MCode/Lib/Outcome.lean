import Mathlib

/-!
# Outcomes

Where computations with errors end: in one of the errors that are allowed, or
with an answer of which something is known.  `Ends` is about a result,
`Outcome` about a computation with a state, from every state that it can start
in.  The rules follow the constructions of the monads, so that a proof goes
through a computation step by step.
-/

namespace MCode.Lib

variable {ε σ α β : Type}

/-- A result is one of the errors, or one of the answers. -/
def Ends (fails : ε → Prop) (returns : α → Prop) : Except ε α → Prop
  | .error e => fails e
  | .ok a => returns a

/-- A computation with a state ends so from every state. -/
def Outcome (fails : ε → Prop) (returns : α → Prop) (x : StateT σ (Except ε) α) : Prop :=
  ∀ s, Ends fails (fun result => returns result.1) (x s)

variable {fails fails' : ε → Prop} {returns returns' : α → Prop} {answers : β → Prop}

/-! ## Results -/

theorem Ends.ok {x : Except ε α} {a : α} (h : Ends fails returns x) (hx : x = .ok a) :
    returns a := by
  subst hx
  exact h

theorem Ends.error {x : Except ε α} {e : ε} (h : Ends fails returns x) (hx : x = .error e) :
    fails e := by
  subst hx
  exact h

/-- The answer is that of the result. -/
theorem Ends.of_result {x : Except ε α} (h : Ends fails returns x) :
    Ends fails (fun a => returns a ∧ x = .ok a) x := by
  cases x with
  | error e => exact h
  | ok a => exact ⟨h, rfl⟩

theorem Ends.mono {x : Except ε α} (h : Ends fails returns x) (hfails : ∀ e, fails e → fails' e)
    (hreturns : ∀ a, returns a → returns' a) : Ends fails' returns' x := by
  cases x with
  | error e => exact hfails e h
  | ok a => exact hreturns a h

theorem Ends.bind {x : Except ε α} {f : α → Except ε β} (hx : Ends fails returns x)
    (hf : ∀ a, returns a → Ends fails answers (f a)) : Ends fails answers (x >>= f) := by
  cases x with
  | error e => exact hx
  | ok a => exact hf a hx

/-- What is computed of every element is known element by element. -/
theorem Ends.mapM {l : List α} {f : α → Except ε β} {R : α → β → Prop}
    (h : ∀ a ∈ l, Ends fails (R a) (f a)) :
    Ends fails (List.Forall₂ R l) (l.mapM f) := by
  induction l with
  | nil => exact .nil
  | cons a l ih =>
      rw [List.mapM_cons]
      refine (h a List.mem_cons_self).bind fun b hb => ?_
      refine (ih fun other hother => h other (List.mem_cons_of_mem _ hother)).bind
        fun bs hbs => ?_
      exact .cons hb hbs

/-! ## Computations with a state -/

theorem Outcome.pure {a : α} (h : returns a) :
    Outcome fails returns (Pure.pure a : StateT σ (Except ε) α) :=
  fun _ => h

theorem Outcome.mono {x : StateT σ (Except ε) α} (h : Outcome fails returns x)
    (hfails : ∀ e, fails e → fails' e) (hreturns : ∀ a, returns a → returns' a) :
    Outcome fails' returns' x :=
  fun s => (h s).mono hfails fun result => hreturns result.1

theorem Outcome.bind {x : StateT σ (Except ε) α} {f : α → StateT σ (Except ε) β}
    (hx : Outcome fails returns x) (hf : ∀ a, returns a → Outcome fails answers (f a)) :
    Outcome fails answers (x >>= f) :=
  fun s => (hx s).bind fun result hresult => hf result.1 hresult result.2

/-- A result, whatever the state. -/
theorem Outcome.lift {x : Except ε α} (h : Ends fails returns x) :
    Outcome fails returns (StateT.lift x : StateT σ (Except ε) α) :=
  fun _ => h.bind fun _ ha => ha

theorem Outcome.mapM {l : List α} {f : α → StateT σ (Except ε) β} {R : α → β → Prop}
    (h : ∀ a ∈ l, Outcome fails (R a) (f a)) :
    Outcome fails (List.Forall₂ R l) (l.mapM f) := by
  induction l with
  | nil => exact Outcome.pure .nil
  | cons a l ih =>
      rw [List.mapM_cons]
      refine (h a List.mem_cons_self).bind fun b hb => ?_
      refine (ih fun other hother => h other (List.mem_cons_of_mem _ hother)).bind
        fun bs hbs => ?_
      exact Outcome.pure (.cons hb hbs)

theorem Outcome.forM {l : List α} {f : α → StateT σ (Except ε) Unit}
    (h : ∀ a ∈ l, Outcome fails (fun _ => True) (f a)) :
    Outcome fails (fun _ => True) (l.forM f) := by
  induction l with
  | nil => exact Outcome.pure trivial
  | cons a l ih =>
      refine (h a List.mem_cons_self).bind fun _ _ => ?_
      exact ih fun other hother => h other (List.mem_cons_of_mem _ hother)

/-! ## Runs that succeed -/

theorem bind_run_ok {x : StateT σ (Except ε) α} {f : α → StateT σ (Except ε) β} {s : σ}
    {result : β × σ} : (x >>= f) s = .ok result ↔
      ∃ a middle, x s = .ok (a, middle) ∧ f a middle = .ok result := by
  show (x s >>= fun r => f r.1 r.2) = .ok result ↔ _
  cases x s with
  | error e => simp [bind, Except.bind]
  | ok r =>
      obtain ⟨a, middle⟩ := r
      simp [bind, Except.bind]

theorem lift_run_ok {x : Except ε α} {s : σ} {result : α × σ} :
    (StateT.lift x : StateT σ (Except ε) α) s = .ok result ↔ x = .ok result.1 ∧ result.2 = s := by
  obtain ⟨a, after⟩ := result
  cases x with
  | error e => simp [StateT.lift, bind, Except.bind]
  | ok b => simp [StateT.lift, bind, Except.bind, pure, Except.pure, eq_comm]

/-- Every element is computed from some state of the run. -/
theorem mapM_run_ok {l : List α} {f : α → StateT σ (Except ε) β} {s : σ} {result : List β × σ}
    (h : l.mapM f s = .ok result) : ∀ a ∈ l, ∃ before after, f a before = .ok after := by
  induction l generalizing s result with
  | nil => nofun
  | cons a l ih =>
      rw [List.mapM_cons] at h
      obtain ⟨b, middle, hb, h⟩ := bind_run_ok.1 h
      obtain ⟨bs, last, hbs, -⟩ := bind_run_ok.1 h
      exact List.forall_mem_cons.2 ⟨⟨s, _, hb⟩, ih hbs⟩

end MCode.Lib
