import Mathlib

/-!
# Reducers

A reducer changes a state in place and may fail.  What it has changed before
it fails stays changed, so a failure is clean only where the checks come first:
`Clean` follows the shape of a reducer, from `ReadOnly` for what looks at the
state, to `Total` for what changes it and cannot fail.
-/

namespace MCode.Lib

/-- A computation on a state that ends with an answer or an error. -/
def Reducer (σ ε α : Type) := σ → Except ε α × σ

namespace Reducer

variable {σ ε α β : Type}

instance : Monad (Reducer σ ε) where
  pure a := fun s => (.ok a, s)
  bind m f := fun s =>
    match m s with
    | (.ok a, t) => f a t
    | (.error e, t) => (.error e, t)

/-- The state as it is. -/
def get : Reducer σ ε σ := fun s => (.ok s, s)

/-- A check that does not touch the state. -/
def check (result : Except ε α) : Reducer σ ε α := fun s => (result, s)

def modify (f : σ → σ) : Reducer σ ε Unit := fun s => (.ok (), f s)

/-! ## What a success has done -/

theorem bind_ok {m : Reducer σ ε α} {f : α → Reducer σ ε β} {s u : σ} {b : β} :
    (m >>= f) s = (.ok b, u) ↔ ∃ a t, m s = (.ok a, t) ∧ f a t = (.ok b, u) := by
  show (match m s with
    | (.ok a, t) => f a t
    | (.error e, t) => (.error e, t)) = _ ↔ _
  cases hm : m s with
  | mk result t =>
      cases result with
      | error e => simp
      | ok a => simp

theorem get_bind (f : σ → Reducer σ ε β) (s : σ) : (get >>= f) s = f s s := rfl

theorem check_bind_ok {result : Except ε α} {f : α → Reducer σ ε β} {s u : σ} {b : β} :
    (check result >>= f) s = (.ok b, u) ↔ ∃ a, result = .ok a ∧ f a s = (.ok b, u) := by
  rw [bind_ok]
  constructor
  · rintro ⟨a, t, hcheck, hrest⟩
    obtain ⟨rfl, rfl⟩ := Prod.mk.inj hcheck
    exact ⟨a, rfl, hrest⟩
  · rintro ⟨a, rfl, hrest⟩
    exact ⟨a, s, rfl, hrest⟩

theorem check_ok (a : α) (f : α → Reducer σ ε β) (s : σ) : (check (.ok a) >>= f) s = f a s := rfl

theorem check_error (e : ε) (f : α → Reducer σ ε β) (s : σ) :
    (check (.error e) >>= f) s = (.error e, s) := rfl

/-! ## What a failure has done -/

/-- It leaves the state as it is. -/
def ReadOnly (m : Reducer σ ε α) : Prop := ∀ s, (m s).2 = s

/-- It never fails. -/
def Total (m : Reducer σ ε α) : Prop := ∀ s, ∃ a t, m s = (.ok a, t)

/-- Where it fails, it leaves the state as it is. -/
def Clean (m : Reducer σ ε α) : Prop := ∀ s e t, m s = (.error e, t) → t = s

theorem readOnly_get : ReadOnly (get : Reducer σ ε σ) := fun _ => rfl

theorem readOnly_check (result : Except ε α) : ReadOnly (check result : Reducer σ ε α) :=
  fun _ => rfl

theorem total_pure (a : α) : Total (pure a : Reducer σ ε α) := fun s => ⟨a, s, rfl⟩

theorem total_modify (f : σ → σ) : Total (modify f : Reducer σ ε Unit) := fun s => ⟨(), f s, rfl⟩

theorem Total.bind {m : Reducer σ ε α} {f : α → Reducer σ ε β} (hm : Total m)
    (hf : ∀ a, Total (f a)) : Total (m >>= f) := by
  intro s
  obtain ⟨a, t, ha⟩ := hm s
  obtain ⟨b, u, hb⟩ := hf a t
  exact ⟨b, u, bind_ok.2 ⟨a, t, ha, hb⟩⟩

theorem Total.clean {m : Reducer σ ε α} (h : Total m) : Clean m := by
  intro s e t hfail
  obtain ⟨a, u, ha⟩ := h s
  rw [ha] at hfail
  cases hfail

/-- Checks come first. -/
theorem ReadOnly.bind {m : Reducer σ ε α} {f : α → Reducer σ ε β} (hm : ReadOnly m)
    (hf : ∀ a, Clean (f a)) : Clean (m >>= f) := by
  intro s e u hfail
  have hsame := hm s
  change (match m s with
    | (.ok a, t) => f a t
    | (.error e, t) => (.error e, t)) = _ at hfail
  cases hresult : m s with
  | mk result t =>
      rw [hresult] at hfail hsame
      cases result with
      | error e =>
          cases hfail
          exact hsame
      | ok a =>
          rw [hf a t e u hfail]
          exact hsame

end Reducer

end MCode.Lib
