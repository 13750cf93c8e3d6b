import MCode.Lib.Machine
import MCode.Runtime.Segment

/-!
# Fuel and disposal of a Store

Every sequence of operations, instantiations and plugin calls on one owner.  While
a guard has the Store, guest code uses any fuel that is in it and may poison the
limiter; the guard borrows the owner, and its segment borrows the lease.

Beside each lease stands the fuel that was used in all of its segments, charged or
not.  Where a segment's end does not charge it, the Store is gone.
-/

namespace MCode.Runtime

open MCode.Lib.Machine

/-- A lease with the fuel used in its segments. -/
structure Held where
  lease : OperationLease
  consumed : Nat
  closed : Bool

inductive Guard where
  | Instantiation (execution : InstantiationExecution)
  | Segment (lease : Nat) (segment : SegmentExecution)

structure System where
  owner : PluginOwner
  opened : Nat
  leases : List Held
  guard : Option Guard

def System.new (identity : OwnerIdentity) : System := ⟨.new identity, 0, [], none⟩

/-- What the owner's user and the guest do; the booleans say which of the calls to
`get_fuel` and `set_fuel` succeed. -/
inductive Action where
  | OpenOperation
  | CloseOperation (lease : Nat)
  | StartInstantiation (setFuel : Bool)
  | CompleteInstantiation (setFuel : Bool)
  | DropInstantiation
  | StartPluginCall (lease : Nat) (setFuel : Bool)
  | Complete (getFuel setFuel : Bool)
  | Dispose (getFuel setFuel : Bool)
  | Drop (getFuel setFuel : Bool)
  | Consume (fuel : Nat)
  | Poison

/-- The guard's Store, changed by the guest. -/
def Guard.modify (guard : Guard) (change : Store → Store) : Guard :=
  match guard with
  | .Instantiation execution => .Instantiation ⟨execution.store.map change⟩
  | .Segment lease segment =>
      .Segment lease { segment with store := segment.store.map change }

def Guard.store : Guard → Option Store
  | .Instantiation execution => execution.store
  | .Segment _ segment => segment.store

def Guard.borrows (lease : Nat) : Guard → Bool
  | .Instantiation _ => false
  | .Segment borrowed _ => borrowed == lease

/-- The segment's guard is gone; its owner and lease are no longer borrowed. -/
def System.leave (s : System) (i : Nat) (held : Held) (owner : PluginOwner)
    (lease : OperationLease) : System :=
  { s with owner := owner, leases := s.leases.set i { held with lease := lease }, guard := none }

/-- Used fuel is recorded with the lease of the segment. -/
def System.spend (s : System) (guard : Guard) (fuel : Nat) : List Held :=
  match guard with
  | .Instantiation _ => s.leases
  | .Segment i _ =>
      match s.leases[i]? with
      | none => s.leases
      | some held => s.leases.set i { held with consumed := held.consumed + fuel }

/-- One action; `none` where it cannot be taken, or panics. -/
def step (s : System) (action : Action) : Option System :=
  match s.guard, action with
  | none, .OpenOperation =>
      match s.owner.openOperation s.opened with
      | (.error _, owner, opened) => some { s with owner := owner, opened := opened }
      | (.ok lease, owner, opened) =>
          some { s with
            owner := owner, opened := opened, leases := s.leases ++ [⟨lease, 0, false⟩] }
  | guard, .CloseOperation i => do
      let held ← s.leases[i]?
      if held.closed || guard.any (Guard.borrows i) then none
      else
        some { s with
          opened := s.opened - 1, leases := s.leases.set i { held with closed := true } }
  | none, .StartInstantiation setFuel =>
      match InstantiationExecution.start s.owner setFuel with
      | (.error _, owner) => some { s with owner := owner }
      | (.ok execution, owner) =>
          some { s with owner := owner, guard := some (.Instantiation execution) }
  | none, .StartPluginCall i setFuel => do
      let held ← s.leases[i]?
      if held.closed then none
      else
        match SegmentExecution.startPluginCall s.owner held.lease setFuel with
        | (.error _, owner) => some { s with owner := owner }
        | (.ok segment, owner) => some { s with owner := owner, guard := some (.Segment i segment) }
  | some (.Instantiation execution), .CompleteInstantiation setFuel => do
      let (_, owner) ← execution.complete s.owner setFuel
      some { s with owner := owner, guard := none }
  | some (.Instantiation execution), .DropInstantiation =>
      some { s with owner := execution.drop s.owner, guard := none }
  | some (.Segment i segment), .Complete getFuel setFuel => do
      let held ← s.leases[i]?
      let (_, owner, lease) ← segment.complete s.owner held.lease getFuel setFuel
      some (s.leave i held owner lease)
  | some (.Segment i segment), .Dispose getFuel setFuel => do
      let held ← s.leases[i]?
      let (_, owner, lease) ← segment.dispose s.owner held.lease getFuel setFuel
      some (s.leave i held owner lease)
  | some (.Segment i segment), .Drop getFuel setFuel => do
      let held ← s.leases[i]?
      let (owner, lease) ← segment.drop s.owner held.lease getFuel setFuel
      some (s.leave i held owner lease)
  | some guard, .Consume fuel => do
      let store ← guard.store
      if store.fuel < fuel then none
      else
        some { s with leases := s.spend guard fuel, guard := some (guard.modify fun store =>
          { store with fuel := store.fuel - fuel }) }
  | some guard, .Poison =>
      some { s with guard := some (guard.modify fun store => { store with poisoned := true }) }
  | _, _ => none

/-! ## Invariant -/

/-- The lease knows what was used in its segments. -/
def Held.Exact (held : Held) : Prop := held.lease.remaining + held.consumed = OPERATION_FUEL_BUDGET

def Held.Within (held : Held) : Prop := held.consumed ≤ OPERATION_FUEL_BUDGET

/-- Without a guard the Store is parked and every lease exact.  A guard has the
Store, and in a segment's Store is what its lease has not used yet. -/
def Phase (owner : PluginOwner) (leases : List Held) : Option Guard → Prop
  | none => ∀ store, owner.store = some store → store.Parked ∧ ∀ held ∈ leases, held.Exact
  | some (.Instantiation execution) => owner.store = none ∧
      (∃ store, execution.store = some store ∧ store.activeSegment = none) ∧
      ∀ held ∈ leases, held.Exact
  | some (.Segment i segment) => owner.store = none ∧ segment.restoreIfIncomplete = false ∧
      (∃ held store, leases[i]? = some held ∧ segment.store = some store ∧
        store.fuel + held.consumed = OPERATION_FUEL_BUDGET) ∧
      ∀ j held, j ≠ i → leases[j]? = some held → held.Exact

structure Sound (s : System) : Prop where
  within : ∀ held ∈ s.leases, held.Within
  phase : Phase s.owner s.leases s.guard

theorem Held.Exact.within {held : Held} (h : held.Exact) : held.Within := by
  unfold Held.Exact at h
  unfold Held.Within
  omega

/-- One lease is replaced. -/
theorem forall_set {leases : List Held} {i : Nat} {next : Held} {P : Held → Prop}
    (hothers : ∀ j held, j ≠ i → leases[j]? = some held → P held) (hnext : P next) :
    ∀ held ∈ leases.set i next, P held := by
  intro held h
  obtain ⟨j, hj⟩ := List.mem_iff_getElem?.1 h
  by_cases hsame : j = i
  · subst hsame
    rw [List.getElem?_set_self'] at hj
    obtain ⟨_, -, rfl⟩ := Option.map_eq_some_iff.1 hj
    exact hnext
  · rw [List.getElem?_set_ne (Ne.symm hsame)] at hj
    exact hothers j held hsame hj

theorem sound_new (identity : OwnerIdentity) : Sound (.new identity) where
  within := fun held h => nomatch h
  phase := fun store h => by
    cases h
    exact ⟨⟨rfl, rfl, rfl, rfl⟩, fun held h => nomatch h⟩

/-- Where the Store is gone, nothing is asked of it. -/
theorem phase_disposed {owner : PluginOwner} (h : owner.store = none) (leases : List Held) :
    Phase owner leases none := by
  intro store hsome
  rw [h] at hsome
  exact nomatch hsome

/-! ## Steps without a guard -/

theorem openOperation_cases (owner : PluginOwner) (opened : Nat) :
    (∃ error, owner.openOperation opened = (.error error, owner, opened)) ∨
      ∃ lease next count, owner.openOperation opened = (.ok lease, next, count) ∧
        lease.remaining = OPERATION_FUEL_BUDGET ∧ next.store = owner.store := by
  unfold PluginOwner.openOperation
  split
  · exact Or.inl ⟨_, rfl⟩
  · split
    · exact Or.inl ⟨_, rfl⟩
    · dsimp only
      split
      · exact Or.inl ⟨_, rfl⟩
      · exact Or.inr ⟨_, _, _, rfl, rfl, rfl⟩

variable {owner : PluginOwner} {opened : Nat} {leases : List Held}

theorem sound_open {t : System} (hs : Sound ⟨owner, opened, leases, none⟩)
    (h : step ⟨owner, opened, leases, none⟩ .OpenOperation = some t) : Sound t := by
  unfold step at h
  dsimp only at h
  obtain ⟨error, heq⟩ | ⟨lease, next, count, heq, hremaining, hstore⟩ :=
    openOperation_cases owner opened
  · rw [heq] at h
    exact Option.some.inj h ▸ hs
  · rw [heq] at h
    cases h
    have hnew : Held.Exact ⟨lease, 0, false⟩ := hremaining
    refine ⟨fun held hin => ?_, fun store hsome => ?_⟩
    · cases List.mem_append.1 hin with
      | inl hold => exact hs.within held hold
      | inr hlast => exact List.mem_singleton.1 hlast ▸ hnew.within
    · have hparked := hs.phase store (hstore ▸ hsome)
      refine ⟨hparked.1, fun held hin => ?_⟩
      cases List.mem_append.1 hin with
      | inl hold => exact hparked.2 held hold
      | inr hlast => exact List.mem_singleton.1 hlast ▸ hnew

theorem sound_startInstantiation {t : System} {setFuel : Bool}
    (hs : Sound ⟨owner, opened, leases, none⟩)
    (h : step ⟨owner, opened, leases, none⟩ (.StartInstantiation setFuel) = some t) : Sound t := by
  unfold step at h
  dsimp only at h
  cases hstore : owner.store with
  | none =>
      rw [startInstantiation_none hstore] at h
      exact Option.some.inj h ▸ hs
  | some store =>
      obtain ⟨result, heq, hok⟩ := startInstantiation_some hstore setFuel
      rw [heq] at h
      cases result with
      | error error =>
          cases h
          exact ⟨hs.within, phase_disposed rfl leases⟩
      | ok execution =>
          cases h
          exact ⟨hs.within, rfl, hok execution rfl, (hs.phase store hstore).2⟩

theorem sound_startPluginCall {t : System} {i : Nat} {setFuel : Bool}
    (hs : Sound ⟨owner, opened, leases, none⟩)
    (h : step ⟨owner, opened, leases, none⟩ (.StartPluginCall i setFuel) = some t) :
    Sound t := by
  unfold step at h
  dsimp only at h
  obtain ⟨held, hheld, h⟩ := Option.bind_eq_some_iff.1 h
  split at h
  · exact nomatch h
  · unfold SegmentExecution.startPluginCall at h
    cases hstore : owner.store with
    | none =>
        rw [startWithDisposition_none hstore] at h
        exact Option.some.inj h ▸ hs
    | some store =>
        obtain ⟨result, heq, hok⟩ :=
          startWithDisposition_some hstore held.lease false setFuel
        rw [heq] at h
        cases result with
        | error error =>
            cases h
            exact ⟨hs.within, phase_disposed rfl leases⟩
        | ok segment =>
            cases h
            obtain ⟨hrestore, taken, htaken, hfuel⟩ := hok segment rfl
            have hexact := (hs.phase store hstore).2
            refine ⟨hs.within, rfl, hrestore, ⟨held, taken, hheld, htaken, ?_⟩,
              fun j other _ hj => hexact other (List.mem_of_getElem? hj)⟩
            rw [hfuel]
            exact hexact held (List.mem_of_getElem? hheld)

/-! ## Steps of a guard -/

/-- The guard is gone and has given its Store back, or not. -/
theorem sound_ended {next : PluginOwner}
    (hwithin : ∀ held ∈ leases, held.Within) (hstore : owner.store = none)
    (hnext : next = owner ∨ (∀ held ∈ leases, held.Exact) ∧
      ∃ parked : Store, parked.Parked ∧ next = owner.restoreStore parked) :
    Sound ⟨next, opened, leases, none⟩ where
  within := hwithin
  phase := by
    obtain rfl | ⟨hexact, parked, hparked, rfl⟩ := hnext
    · exact phase_disposed hstore leases
    · intro store hsome
      cases hsome
      exact ⟨hparked, hexact⟩

theorem sound_instantiation {t : System} {execution : InstantiationExecution} {action : Action}
    (hs : Sound ⟨owner, opened, leases, some (.Instantiation execution)⟩)
    (haction : action = .DropInstantiation ∨ ∃ setFuel, action = .CompleteInstantiation setFuel)
    (h : step ⟨owner, opened, leases, some (.Instantiation execution)⟩ action = some t) :
    Sound t := by
  obtain ⟨hnone, ⟨store, hstore, hidle⟩, hexact⟩ := hs.phase
  obtain rfl | ⟨setFuel, rfl⟩ := haction
  · unfold step at h
    cases h
    exact sound_ended hs.within hnone (Or.inl rfl)
  · obtain ⟨result, next, heq, hcases⟩ := completeInstantiation_cases hstore hidle owner setFuel
    unfold step at h
    dsimp only at h
    rw [heq] at h
    cases h
    exact sound_ended hs.within hnone (hcases.imp id fun hparked => ⟨hexact, hparked⟩)

/-- A segment's end: the lease is charged for what is gone from the Store, where
the Store is given back. -/
theorem sound_leave {i : Nat} {segment : SegmentExecution} {held : Held} {store : Store}
    {next : PluginOwner} {charged : OperationLease}
    (hs : Sound ⟨owner, opened, leases, some (.Segment i segment)⟩)
    (hheld : leases[i]? = some held) (hstore : segment.store = some store)
    (hnext : next = owner ∨ charged = { held.lease with remaining := store.fuel } ∧
      ∃ parked : Store, parked.Parked ∧ next = owner.restoreStore parked) :
    Sound
      (System.leave ⟨owner, opened, leases, some (.Segment i segment)⟩ i held next charged) := by
  obtain ⟨hnone, -, ⟨held', store', hheld', hstore', hspent⟩, hothers⟩ := hs.phase
  cases hheld.symm.trans hheld'
  cases hstore.symm.trans hstore'
  have hwithin : ∀ other ∈ leases.set i { held with lease := charged }, other.Within :=
    forall_set (fun j other hj hother => (hothers j other hj hother).within)
      (hs.within held (List.mem_of_getElem? hheld))
  refine sound_ended hwithin hnone (hnext.imp id fun ⟨hcharged, hparked⟩ => ⟨?_, hparked⟩)
  refine forall_set hothers ?_
  rw [hcharged]
  exact hspent

theorem sound_segment {t : System} {i : Nat} {segment : SegmentExecution} {action : Action}
    {getFuel setFuel : Bool}
    (hs : Sound ⟨owner, opened, leases, some (.Segment i segment)⟩)
    (haction : action = .Complete getFuel setFuel ∨ action = .Dispose getFuel setFuel ∨
      action = .Drop getFuel setFuel)
    (h : step ⟨owner, opened, leases, some (.Segment i segment)⟩ action = some t) :
    Sound t ∧ (action ≠ .Complete getFuel setFuel → t.owner.store = none ∧ t.guard = none) := by
  obtain ⟨hnone, hrestore, ⟨held, store, hheld, hstore, -⟩, -⟩ := hs.phase
  obtain rfl | rfl | rfl := haction
  · obtain ⟨result, next, charged, heq, hcases⟩ :=
      complete_cases hstore owner held.lease getFuel setFuel
    unfold step at h
    dsimp only at h
    rw [hheld, Option.bind_eq_bind, Option.bind_some, heq] at h
    cases h
    exact ⟨sound_leave hs hheld hstore hcases, fun hother => absurd rfl hother⟩
  · obtain ⟨result, charged, heq⟩ := dispose_cases hstore owner held.lease getFuel setFuel
    unfold step at h
    dsimp only at h
    rw [hheld, Option.bind_eq_bind, Option.bind_some, heq] at h
    cases h
    exact ⟨sound_leave hs hheld hstore (Or.inl rfl), fun _ => ⟨hnone, rfl⟩⟩
  · obtain ⟨charged, heq⟩ := drop_cases hstore hrestore owner held.lease getFuel setFuel
    unfold step at h
    dsimp only at h
    rw [hheld, Option.bind_eq_bind, Option.bind_some, heq] at h
    cases h
    exact ⟨sound_leave hs hheld hstore (Or.inl rfl), fun _ => ⟨hnone, rfl⟩⟩

theorem sound_consume {t : System} {guard : Guard} {fuel : Nat}
    (hs : Sound ⟨owner, opened, leases, some guard⟩)
    (h : step ⟨owner, opened, leases, some guard⟩ (.Consume fuel) = some t) : Sound t := by
  unfold step at h
  dsimp only at h
  obtain ⟨store, hstore, h⟩ := Option.bind_eq_some_iff.1 h
  split at h
  · exact nomatch h
  · rename_i hfuel
    cases h
    cases guard with
    | Instantiation execution =>
        obtain ⟨hnone, ⟨store', hstore', hidle⟩, hexact⟩ := hs.phase
        refine ⟨hs.within, hnone, ⟨{ store' with fuel := store'.fuel - fuel }, ?_, hidle⟩, hexact⟩
        show execution.store.map _ = some _
        rw [hstore', Option.map_some]
    | Segment i segment =>
        obtain ⟨hnone, hrestore, ⟨held, store', hheld, hstore', hspent⟩, hothers⟩ := hs.phase
        cases hstore.symm.trans hstore'
        have hspend : System.spend ⟨owner, opened, leases, some (.Segment i segment)⟩
            (.Segment i segment) fuel =
              leases.set i { held with consumed := held.consumed + fuel } := by
          unfold System.spend
          dsimp only
          rw [hheld]
        have htotal : store.fuel - fuel + (held.consumed + fuel) = OPERATION_FUEL_BUDGET := by omega
        rw [hspend]
        refine ⟨forall_set (fun j other hj hother => (hothers j other hj hother).within) ?_,
          hnone, hrestore, ⟨{ held with consumed := held.consumed + fuel },
            { store with fuel := store.fuel - fuel }, ?_, ?_, htotal⟩, fun j other hj hother => ?_⟩
        · show held.consumed + fuel ≤ OPERATION_FUEL_BUDGET
          omega
        · rw [List.getElem?_set_self', hheld]
          rfl
        · show segment.store.map _ = some _
          rw [hstore', Option.map_some]
        · rw [List.getElem?_set_ne (Ne.symm hj)] at hother
          exact hothers j other hj hother

theorem sound_poison {t : System} {guard : Guard}
    (hs : Sound ⟨owner, opened, leases, some guard⟩)
    (h : step ⟨owner, opened, leases, some guard⟩ .Poison = some t) : Sound t := by
  unfold step at h
  cases h
  cases guard with
  | Instantiation execution =>
      obtain ⟨hnone, ⟨store, hstore, hidle⟩, hexact⟩ := hs.phase
      refine ⟨hs.within, hnone, ⟨{ store with poisoned := true }, ?_, hidle⟩, hexact⟩
      show execution.store.map _ = some _
      rw [hstore, Option.map_some]
  | Segment i segment =>
      obtain ⟨hnone, hrestore, ⟨held, store, hheld, hstore, hspent⟩, hothers⟩ := hs.phase
      refine ⟨hs.within, hnone, hrestore,
        ⟨held, { store with poisoned := true }, hheld, ?_, hspent⟩, hothers⟩
      show segment.store.map _ = some _
      rw [hstore, Option.map_some]

/-- To close a lease changes nothing of what it knows. -/
theorem sound_close {s t : System} {i : Nat} (hs : Sound s)
    (h : step s (.CloseOperation i) = some t) :
    Sound t ∧ t.guard = s.guard ∧ t.owner = s.owner := by
  obtain ⟨owner, opened, leases, guard⟩ := s
  have hstep : step ⟨owner, opened, leases, guard⟩ (.CloseOperation i) =
      (leases[i]?.bind fun held =>
        if held.closed || guard.any (Guard.borrows i) then none
        else some ⟨owner, opened - 1, leases.set i { held with closed := true }, guard⟩) := by
    cases guard with
    | none => rfl
    | some guard => cases guard <;> rfl
  rw [hstep] at h
  obtain ⟨held, hheld, h⟩ := Option.bind_eq_some_iff.1 h
  split at h
  · exact nomatch h
  · rename_i hfree
    rw [Bool.or_eq_true, not_or] at hfree
    cases h
    have hin := List.mem_of_getElem? hheld
    have hall {P : Held → Prop} (hP : ∀ held ∈ leases, P held)
        (hclosed : P held → P { held with closed := true }) :
        ∀ other ∈ leases.set i { held with closed := true }, P other :=
      forall_set (fun j other _ hother => hP other (List.mem_of_getElem? hother))
        (hclosed (hP held hin))
    refine ⟨⟨hall hs.within id, ?_⟩, rfl, rfl⟩
    cases guard with
    | none => exact fun store hsome =>
        ⟨(hs.phase store hsome).1, hall (hs.phase store hsome).2 id⟩
    | some guard =>
        cases guard with
        | Instantiation execution =>
            obtain ⟨hnone, hidle, hexact⟩ := hs.phase
            exact ⟨hnone, hidle, hall hexact id⟩
        | Segment j segment =>
            obtain ⟨hnone, hrestore, ⟨active, store, hactive, hstore, hspent⟩, hothers⟩ := hs.phase
            have hij : i ≠ j := by
              rintro rfl
              exact hfree.2 (beq_self_eq_true i)
            refine ⟨hnone, hrestore, ⟨active, store, ?_, hstore, hspent⟩,
              fun k other hk hother => ?_⟩
            · rw [List.getElem?_set_ne hij]
              exact hactive
            · by_cases hki : i = k
              · subst hki
                rw [List.getElem?_set_self', hheld] at hother
                cases hother
                exact hothers i held hk hheld
              · rw [List.getElem?_set_ne hki] at hother
                exact hothers k other hk hother

theorem step_sound {s t : System} {action : Action} (hs : Sound s) (h : step s action = some t) :
    Sound t := by
  cases action with
  | CloseOperation i => exact (sound_close hs h).1
  | OpenOperation =>
      obtain ⟨owner, opened, leases, _ | _ | _⟩ := s
      · exact sound_open hs h
      all_goals exact nomatch h
  | StartInstantiation setFuel =>
      obtain ⟨owner, opened, leases, _ | _ | _⟩ := s
      · exact sound_startInstantiation hs h
      all_goals exact nomatch h
  | StartPluginCall i setFuel =>
      obtain ⟨owner, opened, leases, _ | _ | _⟩ := s
      · exact sound_startPluginCall hs h
      all_goals exact nomatch h
  | CompleteInstantiation setFuel =>
      obtain ⟨owner, opened, leases, _ | execution | _⟩ := s
      · exact nomatch h
      · exact sound_instantiation hs (Or.inr ⟨setFuel, rfl⟩) h
      · exact nomatch h
  | DropInstantiation =>
      obtain ⟨owner, opened, leases, _ | execution | _⟩ := s
      · exact nomatch h
      · exact sound_instantiation hs (Or.inl rfl) h
      · exact nomatch h
  | Complete getFuel setFuel =>
      obtain ⟨owner, opened, leases, _ | _ | ⟨i, segment⟩⟩ := s
      · exact nomatch h
      · exact nomatch h
      · exact (sound_segment hs (Or.inl rfl) h).1
  | Dispose getFuel setFuel =>
      obtain ⟨owner, opened, leases, _ | _ | ⟨i, segment⟩⟩ := s
      · exact nomatch h
      · exact nomatch h
      · exact (sound_segment hs (Or.inr (Or.inl rfl)) h).1
  | Drop getFuel setFuel =>
      obtain ⟨owner, opened, leases, _ | _ | ⟨i, segment⟩⟩ := s
      · exact nomatch h
      · exact nomatch h
      · exact (sound_segment hs (Or.inr (Or.inr rfl)) h).1
  | Consume fuel =>
      obtain ⟨owner, opened, leases, _ | guard⟩ := s
      · exact nomatch h
      · exact sound_consume hs h
  | Poison =>
      obtain ⟨owner, opened, leases, _ | guard⟩ := s
      · exact nomatch h
      · exact sound_poison hs h

/-! ## Disposal -/

/-- No guard has the Store, and the owner does not have it either. -/
def Disposed (s : System) : Prop := s.owner.store = none ∧ s.guard = none

theorem step_disposed {s t : System} {action : Action} (hs : Disposed s)
    (h : step s action = some t) : Disposed t := by
  obtain ⟨owner, opened, leases, guard⟩ := s
  obtain ⟨hstore, rfl⟩ : owner.store = none ∧ guard = none := hs
  cases action with
  | OpenOperation =>
      unfold step PluginOwner.openOperation at h
      dsimp only at h
      rw [hstore] at h
      cases h
      exact ⟨hstore, rfl⟩
  | CloseOperation i =>
      obtain ⟨held, -, h⟩ := Option.bind_eq_some_iff.1 h
      split at h
      · exact nomatch h
      · cases h
        exact ⟨hstore, rfl⟩
  | StartInstantiation setFuel =>
      unfold step at h
      dsimp only at h
      rw [startInstantiation_none hstore] at h
      cases h
      exact ⟨hstore, rfl⟩
  | StartPluginCall i setFuel =>
      obtain ⟨held, -, h⟩ := Option.bind_eq_some_iff.1 h
      split at h
      · exact nomatch h
      · unfold SegmentExecution.startPluginCall at h
        rw [startWithDisposition_none hstore] at h
        cases h
        exact ⟨hstore, rfl⟩
  | CompleteInstantiation setFuel => exact nomatch h
  | DropInstantiation => exact nomatch h
  | Complete getFuel setFuel => exact nomatch h
  | Dispose getFuel setFuel => exact nomatch h
  | Drop getFuel setFuel => exact nomatch h
  | Consume fuel => exact nomatch h
  | Poison => exact nomatch h

theorem reaches_disposed {s t : System} (hs : Disposed s) (h : Reaches step s t) : Disposed t :=
  h.preserves (fun _ _ _ => step_disposed) hs

/-- A segment that is dropped or disposed of leaves no Store. -/
theorem drop_disposed {s t : System} {action : Action} {getFuel setFuel : Bool} (hs : Sound s)
    (haction : action = .Dispose getFuel setFuel ∨ action = .Drop getFuel setFuel)
    (h : step s action = some t) : Disposed t := by
  obtain ⟨owner, opened, leases, _ | _ | ⟨i, segment⟩⟩ := s
  · obtain rfl | rfl := haction <;> exact nomatch h
  · obtain rfl | rfl := haction <;> exact nomatch h
  · refine (sound_segment hs (Or.inr haction) h).2 ?_
    obtain rfl | rfl := haction <;> exact nofun

/-- In every run, the Store of an owner is parked or gone between guards, and once
gone it stays so; a lease's segments use no more fuel than the budget, and while
the Store is there the lease has what they left of it; and a plugin call that is
dropped never gives its Store back. -/
theorem store_disposal (identity : OwnerIdentity) :
    (∀ s, Reaches step (.new identity) s →
      (s.guard = none →
        (∀ store, s.owner.store = some store → store.Parked) ∧
        (s.owner.store = none → ∀ t, Reaches step s t → t.owner.store = none)) ∧
      ∀ held ∈ s.leases, held.consumed ≤ OPERATION_FUEL_BUDGET ∧
        (s.owner.store ≠ none →
          held.lease.remaining + held.consumed = OPERATION_FUEL_BUDGET)) ∧
    ∀ s getFuel setFuel t u, Reaches step (.new identity) s →
      step s (.Drop getFuel setFuel) = some t → Reaches step t u → u.owner.store = none := by
  have hsound {s : System} (hs : Reaches step (.new identity) s) : Sound s :=
    hs.preserves (fun _ _ _ => step_sound) (sound_new identity)
  refine ⟨fun s hs => ⟨fun hguard => ⟨fun store hstore => ?_, fun hstore t ht => ?_⟩,
    fun held hin => ⟨(hsound hs).within held hin, fun hstore => ?_⟩⟩,
    fun s getFuel setFuel t u hs hstep hu => ?_⟩
  · have hphase := (hsound hs).phase
    rw [hguard] at hphase
    exact (hphase store hstore).1
  · exact (reaches_disposed ⟨hstore, hguard⟩ ht).1
  · have hphase := (hsound hs).phase
    obtain ⟨store, hsome⟩ := Option.ne_none_iff_exists'.1 hstore
    cases hguard : s.guard with
    | none =>
        rw [hguard] at hphase
        exact (hphase store hsome).2 held hin
    | some guard =>
        rw [hguard] at hphase
        cases guard with
        | Instantiation execution => exact absurd hphase.1 hstore
        | Segment i segment => exact absurd hphase.1 hstore
  · exact (reaches_disposed (drop_disposed (hsound hs) (Or.inr rfl) hstep) hu).1

end MCode.Runtime
