import MCode.Lib.Checked
import MCode.Lib.Growth
import MCode.Lib.Machine
import MCode.Lib.Results

/-!
# Resource limits of a Store

`mcode-plugin-host/src/runtime/limits.rs`: the limiter that Wasmtime asks before
a memory or a table of the Store grows, and that it tells where a growth failed.
The limits of a single resource are Wasmtime's own (`StoreLimits`) and may be any;
the limiter adds a ledger of what all resources of a kind were allowed.

A Store has any number of memories and tables.  An allowed growth is granted until
it takes effect or fails, and everything else may happen in between.
-/

namespace MCode.Runtime.Limits

open MCode.Lib MCode.Lib.Growth MCode.Lib.Machine

def MAX_AGGREGATE_MEMORY_BYTES : Nat := 128 * 1024 * 1024
def MAX_AGGREGATE_TABLE_ELEMENTS : Nat := 65536

/-- `usize::MAX`. -/
def USIZE_MAX : Nat := 18446744073709551615

/-- `wasmtime::Error`, by its message. -/
abbrev Error := String

/-- Wasmtime's limits of a single resource: the current size, the desired one and
the maximum of its type. -/
structure StoreLimits where
  memoryGrowing : Nat → Nat → Option Nat → Except Error Bool
  tableGrowing : Nat → Nat → Option Nat → Except Error Bool

structure StoreResourceLimiter where
  perResource : StoreLimits
  reservedMemoryBytes : Nat
  reservedTableElements : Nat
  poisoned : Bool

namespace StoreResourceLimiter

def new (perResource : StoreLimits) : StoreResourceLimiter := ⟨perResource, 0, 0, false⟩

def rejectIfPoisoned (limiter : StoreResourceLimiter) : Except Error Unit :=
  if limiter.poisoned then .error "Store resource ledger is poisoned" else .ok ()

def poisonAfterGrowthFailure (limiter : StoreResourceLimiter) (error : Error) :
    Except Error Unit × StoreResourceLimiter :=
  (.error error, { limiter with poisoned := true })

/-- What both growing calls do: the next reservation, where the growth is allowed. -/
def reserve (limiter : StoreResourceLimiter)
    (perResource : Nat → Nat → Option Nat → Except Error Bool)
    (limit reserved current desired : Nat) (maximum : Option Nat) : Except Error (Option Nat) := do
  limiter.rejectIfPoisoned
  match Checked.sub desired current with
  | none => .ok none
  | some delta =>
      if !(← perResource current desired maximum) then .ok none
      else
        match Checked.add USIZE_MAX reserved delta with
        | none => .ok none
        | some reserved => if limit < reserved then .ok none else .ok (some reserved)

def memoryGrowing (limiter : StoreResourceLimiter) (current desired : Nat) (maximum : Option Nat) :
    Except Error Bool × StoreResourceLimiter :=
  match limiter.reserve limiter.perResource.memoryGrowing MAX_AGGREGATE_MEMORY_BYTES
      limiter.reservedMemoryBytes current desired maximum with
  | .error error => (.error error, limiter)
  | .ok none => (.ok false, limiter)
  | .ok (some reserved) => (.ok true, { limiter with reservedMemoryBytes := reserved })

def memoryGrowFailed (limiter : StoreResourceLimiter) (error : Error) :
    Except Error Unit × StoreResourceLimiter :=
  limiter.poisonAfterGrowthFailure error

def tableGrowing (limiter : StoreResourceLimiter) (current desired : Nat) (maximum : Option Nat) :
    Except Error Bool × StoreResourceLimiter :=
  match limiter.reserve limiter.perResource.tableGrowing MAX_AGGREGATE_TABLE_ELEMENTS
      limiter.reservedTableElements current desired maximum with
  | .error error => (.error error, limiter)
  | .ok none => (.ok false, limiter)
  | .ok (some reserved) => (.ok true, { limiter with reservedTableElements := reserved })

def tableGrowFailed (limiter : StoreResourceLimiter) (error : Error) :
    Except Error Unit × StoreResourceLimiter :=
  limiter.poisonAfterGrowthFailure error

end StoreResourceLimiter

/-! ## The Store around the limiter -/

inductive Kind where
  | Memory
  | Table
  deriving DecidableEq

namespace StoreResourceLimiter

def growing (limiter : StoreResourceLimiter) : Kind → Nat → Nat → Option Nat →
    Except Error Bool × StoreResourceLimiter
  | .Memory => limiter.memoryGrowing
  | .Table => limiter.tableGrowing

def growFailed (limiter : StoreResourceLimiter) : Kind → Error →
    Except Error Unit × StoreResourceLimiter
  | .Memory => limiter.memoryGrowFailed
  | .Table => limiter.tableGrowFailed

def reserved (limiter : StoreResourceLimiter) : Kind → Nat
  | .Memory => limiter.reservedMemoryBytes
  | .Table => limiter.reservedTableElements

end StoreResourceLimiter

def aggregateLimit : Kind → Nat
  | .Memory => MAX_AGGREGATE_MEMORY_BYTES
  | .Table => MAX_AGGREGATE_TABLE_ELEMENTS

/-- The limiter, and the memories and tables as they are. -/
structure Resources where
  limiter : StoreResourceLimiter
  cells : Kind → List Cell

def Resources.new (perResource : StoreLimits) : Resources :=
  ⟨.new perResource, fun _ => []⟩

def Resources.update (s : Resources) (kind : Kind) (cells : List Cell) : Kind → List Cell :=
  fun other => if other = kind then cells else s.cells other

/-- A resource is named by its kind and number, and a granted growth by its number
there.  A failure may be about a granted growth, or about none. -/
inductive Event where
  | Created (kind : Kind)
  | Growing (kind : Kind) (resource desired : Nat) (maximum : Option Nat)
  | Grown (kind : Kind) (resource growth : Nat)
  | GrowFailed (kind : Kind) (growth : Option (Nat × Nat)) (error : Error)

/-- One event; `none` where there is no such resource or granted growth. -/
def step (s : Resources) : Event → Option Resources
  | .Created kind => some { s with cells := s.update kind (s.cells kind ++ [.empty]) }
  | .Growing kind resource desired maximum => do
      let cell ← (s.cells kind)[resource]?
      match s.limiter.growing kind cell.size desired maximum with
      | (.ok true, limiter) =>
          some ⟨limiter, s.update kind ((s.cells kind).set resource (cell.grant desired))⟩
      | (_, limiter) => some { s with limiter := limiter }
  | .Grown kind resource growth => do
      let cell ← (s.cells kind)[resource]?
      let grant ← cell.granted[growth]?
      some ⟨s.limiter, s.update kind ((s.cells kind).set resource (cell.settle growth grant))⟩
  | .GrowFailed kind none error => some { s with limiter := (s.limiter.growFailed kind error).2 }
  | .GrowFailed kind (some (resource, growth)) error => do
      let cell ← (s.cells kind)[resource]?
      let _ ← cell.granted[growth]?
      some ⟨(s.limiter.growFailed kind error).2,
        s.update kind ((s.cells kind).set resource (cell.abandon growth))⟩

/-- What the growing call of the event answers. -/
def answer (s : Resources) : Event → Option (Except Error Bool)
  | .Growing kind resource desired maximum =>
      (s.cells kind)[resource]?.map fun cell =>
        (s.limiter.growing kind cell.size desired maximum).1
  | _ => none

/-! ## One event -/

theorem reserve_some {limiter : StoreResourceLimiter}
    {perResource : Nat → Nat → Option Nat → Except Error Bool}
    {limit reserved current desired : Nat} {maximum : Option Nat} {next : Nat}
    (h : limiter.reserve perResource limit reserved current desired maximum = .ok (some next)) :
    next = reserved + (desired - current) ∧ next ≤ limit := by
  unfold StoreResourceLimiter.reserve at h
  obtain ⟨-, -, h⟩ := Results.bind_ok.1 h
  cases hdelta : Checked.sub desired current with
  | none =>
      rw [hdelta] at h
      exact nomatch h
  | some delta =>
      rw [hdelta] at h
      obtain ⟨allowed, -, h⟩ := Results.bind_ok.1 h
      cases allowed with
      | false => exact nomatch h
      | true =>
          cases hsum : Checked.add USIZE_MAX reserved delta with
          | none =>
              rw [if_neg (by decide), hsum] at h
              exact nomatch h
          | some sum =>
              rw [if_neg (by decide), hsum] at h
              dsimp only at h
              split at h
              · exact nomatch h
              · cases h
                have hdesired : desired - current = delta := by
                  unfold Checked.sub at hdelta
                  split at hdelta
                  · exact Option.some.inj hdelta
                  · exact nomatch hdelta
                have hnext : reserved + delta = next := (Checked.within_eq_some.1 hsum).2
                exact ⟨by omega, by omega⟩

/-- A growing call allows and reserves what is added, or leaves the limiter alone. -/
theorem growing_cases (limiter : StoreResourceLimiter) (kind : Kind) (current desired : Nat)
    (maximum : Option Nat) :
    (∃ next, limiter.growing kind current desired maximum = (.ok true, next) ∧
      next.reserved kind = limiter.reserved kind + (desired - current) ∧
      next.reserved kind ≤ aggregateLimit kind ∧
      (∀ other, other ≠ kind → next.reserved other = limiter.reserved other) ∧
      next.poisoned = limiter.poisoned) ∨
    ∃ result, limiter.growing kind current desired maximum = (result, limiter) ∧
      result ≠ .ok true := by
  cases kind with
  | Memory =>
      show (∃ next, limiter.memoryGrowing current desired maximum = _ ∧ _) ∨
        ∃ result, limiter.memoryGrowing current desired maximum = _ ∧ _
      unfold StoreResourceLimiter.memoryGrowing
      split
      · exact Or.inr ⟨_, rfl, nofun⟩
      · exact Or.inr ⟨_, rfl, nofun⟩
      · rename_i next heq
        have hnext := reserve_some heq
        refine Or.inl ⟨_, rfl, hnext.1, hnext.2, fun other hother => ?_, rfl⟩
        cases other with
        | Memory => exact absurd rfl hother
        | Table => rfl
  | Table =>
      show (∃ next, limiter.tableGrowing current desired maximum = _ ∧ _) ∨
        ∃ result, limiter.tableGrowing current desired maximum = _ ∧ _
      unfold StoreResourceLimiter.tableGrowing
      split
      · exact Or.inr ⟨_, rfl, nofun⟩
      · exact Or.inr ⟨_, rfl, nofun⟩
      · rename_i next heq
        have hnext := reserve_some heq
        refine Or.inl ⟨_, rfl, hnext.1, hnext.2, fun other hother => ?_, rfl⟩
        cases other with
        | Memory => rfl
        | Table => exact absurd rfl hother

theorem growFailed_reserved (limiter : StoreResourceLimiter) (kind other : Kind) (error : Error) :
    (limiter.growFailed kind error).2.reserved other = limiter.reserved other := by
  cases kind <;> cases other <;> rfl

theorem growFailed_poisoned (limiter : StoreResourceLimiter) (kind : Kind) (error : Error) :
    (limiter.growFailed kind error).2.poisoned = true := by
  cases kind <;> rfl

/-- What an event may do: the resources of one kind claim more by no more than
what is reserved for it, and only an allowed growth reserves. -/
structure Changes (s t : Resources) (event : Event) (kind : Kind) (more : Nat) : Prop where
  claims : claims (t.cells kind) ≤ claims (s.cells kind) + more
  reserved : t.limiter.reserved kind = s.limiter.reserved kind + more
  allowed : more = 0 ∨ answer s event = some (.ok true) ∧
    t.limiter.reserved kind ≤ aggregateLimit kind
  others : ∀ other, other ≠ kind →
    t.cells other = s.cells other ∧ t.limiter.reserved other = s.limiter.reserved other
  poisoned : s.limiter.poisoned = true → t.limiter.poisoned = true

theorem update_self (s : Resources) (kind : Kind) (cells : List Cell) :
    s.update kind cells kind = cells := if_pos rfl

theorem update_other (s : Resources) {kind other : Kind} (h : other ≠ kind) (cells : List Cell) :
    s.update kind cells other = s.cells other := if_neg h

theorem update_cells (s : Resources) (kind : Kind) : s.update kind (s.cells kind) = s.cells := by
  funext other
  by_cases hother : other = kind
  · rw [hother, update_self]
  · rw [update_other s hother]

/-- A kind's resources claim no more than before, and nothing is reserved. -/
theorem Changes.of_claims {s t : Resources} {event : Event} {kind : Kind} {cells : List Cell}
    (hcells : t.cells = s.update kind cells)
    (hclaims : Growth.claims cells ≤ Growth.claims (s.cells kind))
    (hreserved : ∀ other, t.limiter.reserved other = s.limiter.reserved other)
    (hpoisoned : s.limiter.poisoned = true → t.limiter.poisoned = true) :
    Changes s t event kind 0 where
  claims := by rw [hcells, update_self]; exact hclaims
  reserved := hreserved kind
  allowed := Or.inl rfl
  others := fun other hother => ⟨by rw [hcells, update_other s hother], hreserved other⟩
  poisoned := hpoisoned

theorem step_changes {s t : Resources} {event : Event} (h : step s event = some t) :
    ∃ kind more, Changes s t event kind more := by
  cases event with
  | Created kind =>
      cases h
      exact ⟨kind, 0, .of_claims rfl (Nat.le_of_eq (claims_empty (s.cells kind)))
        (fun _ => rfl) id⟩
  | Growing kind resource desired maximum =>
      obtain ⟨cell, hcell, h⟩ := Option.bind_eq_some_iff.1 h
      obtain ⟨next, heq, hown, hlimit, hothers, hpoisoned⟩ | ⟨result, heq, hrefused⟩ :=
        growing_cases s.limiter kind cell.size desired maximum
      · rw [heq] at h
        cases h
        have hset := claims_set hcell (cell.grant desired)
        rw [claim_grant] at hset
        refine ⟨kind, desired - cell.size, ?_, hown, Or.inr ⟨?_, hlimit⟩, fun other hother =>
          ⟨update_other s hother _, hothers other hother⟩, fun hdead => hpoisoned ▸ hdead⟩
        · show claims (s.update kind _ kind) ≤ _
          rw [update_self]
          omega
        · show (s.cells kind)[resource]?.map _ = _
          rw [hcell, Option.map_some, heq]
      · rw [heq] at h
        have hsame : t = s := by
          cases result with
          | error _ => exact (Option.some.inj h).symm
          | ok allowed =>
              cases allowed with
              | true => exact absurd rfl hrefused
              | false => exact (Option.some.inj h).symm
        rw [hsame]
        exact ⟨kind, 0, .of_claims (update_cells s kind).symm (Nat.le_refl _) (fun _ => rfl) id⟩
  | Grown kind resource growth =>
      obtain ⟨cell, hcell, h⟩ := Option.bind_eq_some_iff.1 h
      obtain ⟨grant, hgrant, h⟩ := Option.bind_eq_some_iff.1 h
      cases h
      have hset := claims_set hcell (cell.settle growth grant)
      have hle := claim_settle_le hgrant
      exact ⟨kind, 0, .of_claims rfl (by omega) (fun _ => rfl) id⟩
  | GrowFailed kind growth error =>
      have hreserved := growFailed_reserved s.limiter kind
      have hpoisoned : s.limiter.poisoned = true →
          (s.limiter.growFailed kind error).2.poisoned = true :=
        fun _ => growFailed_poisoned s.limiter kind error
      cases growth with
      | none =>
          cases h
          exact ⟨kind, 0, .of_claims (update_cells s kind).symm (Nat.le_refl _)
            (fun other => hreserved other error) hpoisoned⟩
      | some place =>
          obtain ⟨resource, growth⟩ := place
          obtain ⟨cell, hcell, h⟩ := Option.bind_eq_some_iff.1 h
          obtain ⟨grant, hgrant, h⟩ := Option.bind_eq_some_iff.1 h
          cases h
          have hset := claims_set hcell (cell.abandon growth)
          have hle := claim_abandon_le hgrant
          exact ⟨kind, 0, .of_claims rfl (by omega) (fun other => hreserved other error) hpoisoned⟩

/-! ## Runs -/

/-- The sizes lie within what is reserved, and that within the aggregate limit. -/
structure Bounded (s : Resources) : Prop where
  claims : ∀ kind, claims (s.cells kind) ≤ s.limiter.reserved kind
  reserved : ∀ kind, s.limiter.reserved kind ≤ aggregateLimit kind

theorem Changes.bounded {s t : Resources} {event : Event} {kind : Kind} {more : Nat}
    (h : Changes s t event kind more) (hs : Bounded s) : Bounded t where
  claims := fun other => by
    by_cases hother : other = kind
    · subst hother
      have hgrows := h.claims
      have hreserved := h.reserved
      have hbefore := hs.claims other
      omega
    · rw [(h.others other hother).1, (h.others other hother).2]
      exact hs.claims other
  reserved := fun other => by
    by_cases hother : other = kind
    · subst hother
      cases h.allowed with
      | inl hnone =>
          rw [h.reserved, hnone]
          exact hs.reserved other
      | inr hallowed => exact hallowed.2
    · rw [(h.others other hother).2]
      exact hs.reserved other

theorem Changes.reserved_le {s t : Resources} {event : Event} {kind : Kind} {more : Nat}
    (h : Changes s t event kind more) (other : Kind) :
    s.limiter.reserved other ≤ t.limiter.reserved other := by
  by_cases hother : other = kind
  · subst hother
    rw [h.reserved]
    exact Nat.le_add_right _ _
  · exact Nat.le_of_eq (h.others other hother).2.symm

theorem Changes.refused {s t : Resources} {event : Event} {kind : Kind} {more : Nat}
    (h : Changes s t event kind more) (hanswer : answer s event ≠ some (.ok true)) (other : Kind) :
    t.limiter.reserved other = s.limiter.reserved other := by
  by_cases hother : other = kind
  · subst hother
    rw [h.reserved, h.allowed.resolve_right fun hallowed => hanswer hallowed.1, Nat.add_zero]
  · exact (h.others other hother).2

theorem bounded_new (perResource : StoreLimits) : Bounded (.new perResource) where
  claims := fun kind => by cases kind <;> exact Nat.le_refl 0
  reserved := fun kind => by cases kind <;> exact Nat.zero_le _

/-- A poisoned limiter answers every growing call with an error. -/
theorem growing_poisoned {limiter : StoreResourceLimiter} (h : limiter.poisoned = true)
    (kind : Kind) (current desired : Nat) (maximum : Option Nat) :
    ∃ error, limiter.growing kind current desired maximum = (.error error, limiter) := by
  have hreserve (perResource : Nat → Nat → Option Nat → Except Error Bool) (limit reserved : Nat) :
      limiter.reserve perResource limit reserved current desired maximum =
        .error "Store resource ledger is poisoned" := by
    unfold StoreResourceLimiter.reserve StoreResourceLimiter.rejectIfPoisoned
    rw [if_pos h]
    rfl
  cases kind with
  | Memory =>
      refine ⟨"Store resource ledger is poisoned", ?_⟩
      show limiter.memoryGrowing current desired maximum = _
      rw [StoreResourceLimiter.memoryGrowing, hreserve]
  | Table =>
      refine ⟨"Store resource ledger is poisoned", ?_⟩
      show limiter.tableGrowing current desired maximum = _
      rw [StoreResourceLimiter.tableGrowing, hreserve]

theorem step_poisoned {s t : Resources} {kind : Kind} {growth : Option (Nat × Nat)} {error : Error}
    (h : step s (.GrowFailed kind growth error) = some t) : t.limiter.poisoned = true := by
  cases growth with
  | none =>
      cases h
      exact growFailed_poisoned s.limiter kind error
  | some place =>
      obtain ⟨cell, -, h⟩ := Option.bind_eq_some_iff.1 h
      obtain ⟨grant, -, h⟩ := Option.bind_eq_some_iff.1 h
      cases h
      exact growFailed_poisoned s.limiter kind error

/-- Over every run, the memories and tables of a Store are as large together as is
reserved at most, and no more is reserved than the aggregate limits.  An event
takes nothing back and, where it is no allowed growth, reserves nothing.  After a
failed growth every growing call is an error. -/
theorem aggregate_bounded (perResource : StoreLimits) :
    (∀ s, Reaches step (.new perResource) s →
      total (s.cells .Memory) ≤ s.limiter.reservedMemoryBytes ∧
        s.limiter.reservedMemoryBytes ≤ MAX_AGGREGATE_MEMORY_BYTES ∧
        total (s.cells .Table) ≤ s.limiter.reservedTableElements ∧
        s.limiter.reservedTableElements ≤ MAX_AGGREGATE_TABLE_ELEMENTS) ∧
    (∀ s event t, step s event = some t →
      ∀ kind, s.limiter.reserved kind ≤ t.limiter.reserved kind ∧
        (answer s event ≠ some (.ok true) →
          t.limiter.reserved kind = s.limiter.reserved kind)) ∧
    ∀ s kind growth error t u, step s (.GrowFailed kind growth error) = some t →
      Reaches step t u →
      ∀ event result, answer u event = some result → ∃ error, result = .error error := by
  refine ⟨fun s hs => ?_, fun s event t hstep kind => ?_,
    fun s kind growth error t u hstep hu event result hanswer => ?_⟩
  · have hbounded : Bounded s := hs.preserves
      (fun s event t hs hstep => (step_changes hstep).elim fun _ h => h.elim fun _ h =>
        h.bounded hs)
      (bounded_new perResource)
    have hsizes (kind : Kind) : total (s.cells kind) ≤ s.limiter.reserved kind :=
      Nat.le_trans (total_le_claims _) (hbounded.claims kind)
    exact ⟨hsizes .Memory, hbounded.reserved .Memory, hsizes .Table, hbounded.reserved .Table⟩
  · obtain ⟨changed, more, hchanges⟩ := step_changes hstep
    exact ⟨hchanges.reserved_le kind, fun hanswer => hchanges.refused hanswer kind⟩
  · have hdead : u.limiter.poisoned = true := hu.preserves
      (I := fun s => s.limiter.poisoned = true)
      (fun s event t hs hstep => (step_changes hstep).elim fun _ h => h.elim fun _ h =>
        h.poisoned hs) (step_poisoned hstep)
    cases event with
    | Growing kind resource desired maximum =>
        obtain ⟨cell, -, rfl⟩ := Option.map_eq_some_iff.1 hanswer
        obtain ⟨error, herror⟩ := growing_poisoned hdead kind cell.size desired maximum
        exact ⟨error, by rw [herror]⟩
    | Created kind => exact nomatch hanswer
    | Grown kind resource growth => exact nomatch hanswer
    | GrowFailed kind growth error => exact nomatch hanswer

end MCode.Runtime.Limits
