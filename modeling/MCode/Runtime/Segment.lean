import Mathlib

/-!
# Guards of a Store

`mcode-plugin-host/src/runtime/owner.rs` and `segment.rs`: an owner has one Store
and gives it to a guard while guest code runs in it.  An instantiation guard gives
a complete instantiation's Store back; a segment guard charges the fuel that was
used to the operation's lease, and gives the Store back where it is told to.

What is borrowed (the owner, the lease) is passed and returned.  Wasmtime's
`set_fuel` and `get_fuel` may fail at every call: each function takes what its own
calls do.  `expect` is `none`, and a guard's destructor runs where its function
ends.
-/

namespace MCode.Runtime

def OPERATION_FUEL_BUDGET : Nat := 100000000
def INSTANTIATION_FUEL : Nat := OPERATION_FUEL_BUDGET
def GUEST_DEADLINE_TICKS : Nat := 50
def MAX_OPEN_OPERATIONS : Nat := 1024

/-- `u64::MAX`. -/
def U64_MAX : Nat := 18446744073709551615

inductive RuntimeError where
  | StoreDisposed
  | Admission
  | IdentityExhausted
  | SegmentActive
  | SegmentMismatch
  | Fuel
  | FuelIncreased
  deriving DecidableEq

/-- The address of the owner's token. -/
abbrev OwnerIdentity := Nat

abbrev OperationIdentity := Nat

structure ActiveSegment where
  owner : OwnerIdentity
  operation : OperationIdentity
  installed : Nat

/-- The Store's fuel and deadline, and of its data what the guards read. -/
structure Store where
  fuel : Nat
  deadline : Nat
  activeSegment : Option ActiveSegment
  poisoned : Bool

structure PluginOwner where
  identity : OwnerIdentity
  store : Option Store
  nextOperation : Nat

structure OperationLease where
  owner : OwnerIdentity
  operation : OperationIdentity
  remaining : Nat

namespace Store

/-- `set_fuel`, where `works` says whether this call succeeds. -/
def setFuel (store : Store) (works : Bool) (fuel : Nat) : Except RuntimeError Unit × Store :=
  if works then (.ok (), { store with fuel := fuel }) else (.error .Fuel, store)

def getFuel (store : Store) (works : Bool) : Except RuntimeError Nat :=
  if works then .ok store.fuel else .error .Fuel

def armGuestDeadline (store : Store) : Store := { store with deadline := GUEST_DEADLINE_TICKS }

def parkGuestDeadline (store : Store) : Store := { store with deadline := 0 }

end Store

/-! ## The owner -/

namespace PluginOwner

def new (identity : OwnerIdentity) : PluginOwner := ⟨identity, some ⟨0, 0, none, false⟩, 1⟩

/-- `opened` is the admission ledger's count of open operations.  A permit that is
not given to a lease is dropped. -/
def openOperation (owner : PluginOwner) (opened : Nat) :
    Except RuntimeError OperationLease × PluginOwner × Nat :=
  match owner.store with
  | none => (.error .StoreDisposed, owner, opened)
  | some _ =>
      if MAX_OPEN_OPERATIONS < opened + 1 then (.error .Admission, owner, opened)
      else
        let operation := owner.nextOperation
        if operation = 0 ∨ operation = U64_MAX then (.error .IdentityExhausted, owner, opened)
        else
          (.ok ⟨owner.identity, operation, OPERATION_FUEL_BUDGET⟩,
            { owner with nextOperation := owner.nextOperation + 1 }, opened + 1)

def takeStore (owner : PluginOwner) : Except RuntimeError Store × PluginOwner :=
  match owner.store with
  | none => (.error .StoreDisposed, owner)
  | some store => (.ok store, { owner with store := none })

def restoreStore (owner : PluginOwner) (store : Store) : PluginOwner :=
  { owner with store := some store }

end PluginOwner

/-! ## Instantiation -/

structure InstantiationExecution where
  store : Option Store

namespace InstantiationExecution

def start (owner : PluginOwner) (setFuel : Bool) :
    Except RuntimeError InstantiationExecution × PluginOwner :=
  match owner.takeStore with
  | (.error error, owner) => (.error error, owner)
  | (.ok store, owner) =>
      if store.activeSegment.isSome || store.poisoned then (.error .StoreDisposed, owner)
      else
        match store.setFuel setFuel INSTANTIATION_FUEL with
        | (.error _, _) => (.error .Fuel, owner)
        | (.ok _, store) => (.ok ⟨some store.armGuestDeadline⟩, owner)

/-- The Store is dropped with the guard. -/
def drop (_execution : InstantiationExecution) (owner : PluginOwner) : PluginOwner := owner

def complete (execution : InstantiationExecution) (owner : PluginOwner) (setFuel : Bool) :
    Option (Except RuntimeError Unit × PluginOwner) := do
  let store ← execution.store
  let execution : InstantiationExecution := ⟨none⟩
  match store.setFuel setFuel 0 with
  | (.error _, _) => some (.error .StoreDisposed, execution.drop owner)
  | (.ok _, store) =>
      if store.poisoned then some (.error .StoreDisposed, execution.drop owner)
      else some (.ok (), execution.drop (owner.restoreStore store.parkGuestDeadline))

end InstantiationExecution

/-! ## Segments -/

structure SegmentExecution where
  store : Option Store
  restoreIfIncomplete : Bool

/-- What a guard's end answers and leaves. -/
structure SegmentEnd where
  result : Except RuntimeError Unit
  segment : SegmentExecution
  owner : PluginOwner
  lease : OperationLease

namespace SegmentExecution

def startWithDisposition (owner : PluginOwner) (lease : OperationLease)
    (restoreIfIncomplete setFuel : Bool) : Except RuntimeError SegmentExecution × PluginOwner :=
  match owner.takeStore with
  | (.error error, owner) => (.error error, owner)
  | (.ok store, owner) =>
      if store.activeSegment.isSome then (.error .SegmentActive, owner)
      else if store.poisoned then (.error .StoreDisposed, owner)
      else
        let installed := lease.remaining
        match store.setFuel setFuel installed with
        | (.error _, _) => (.error .Fuel, owner)
        | (.ok _, store) =>
            let store := { store.armGuestDeadline with
              activeSegment := some ⟨owner.identity, lease.operation, installed⟩ }
            (.ok ⟨some store, restoreIfIncomplete⟩, owner)

/-- A plugin call that is cancelled does not give its Store back. -/
def startPluginCall (owner : PluginOwner) (lease : OperationLease) (setFuel : Bool) :
    Except RuntimeError SegmentExecution × PluginOwner :=
  startWithDisposition owner lease false setFuel

def completeInner (segment : SegmentExecution) (owner : PluginOwner) (lease : OperationLease)
    (restore getFuel setFuel : Bool) : Option SegmentEnd := do
  let store ← segment.store
  let segment := { segment with store := none }
  let actual := store.getFuel getFuel
  let (fuelParked, store) := store.setFuel setFuel 0
  let store := store.parkGuestDeadline
  let active := store.activeSegment
  let store := { store with activeSegment := none }
  match actual with
  | .error _ => some ⟨.error .Fuel, segment, owner, lease⟩
  | .ok actual =>
      match fuelParked with
      | .error _ => some ⟨.error .Fuel, segment, owner, lease⟩
      | .ok _ =>
          if store.poisoned then some ⟨.error .StoreDisposed, segment, owner, lease⟩
          else
            match active with
            | none => some ⟨.error .SegmentMismatch, segment, owner, lease⟩
            | some active =>
                if active.owner ≠ owner.identity ∨ active.owner ≠ lease.owner ∨
                    active.operation ≠ lease.operation ∨ active.installed ≠ lease.remaining then
                  some ⟨.error .SegmentMismatch, segment, owner, lease⟩
                else if active.installed < actual then
                  some ⟨.error .FuelIncreased, segment, owner, lease⟩
                else
                  let lease := { lease with remaining := actual }
                  let owner := if restore then owner.restoreStore store else owner
                  some ⟨.ok (), segment, owner, lease⟩

/-- The destructor; a Store that was taken is not looked at again. -/
def drop (segment : SegmentExecution) (owner : PluginOwner) (lease : OperationLease)
    (getFuel setFuel : Bool) : Option (PluginOwner × OperationLease) :=
  if segment.store.isSome then
    (segment.completeInner owner lease segment.restoreIfIncomplete getFuel setFuel).map
      fun ended => (ended.owner, ended.lease)
  else some (owner, lease)

def complete (segment : SegmentExecution) (owner : PluginOwner) (lease : OperationLease)
    (getFuel setFuel : Bool) :
    Option (Except RuntimeError Unit × PluginOwner × OperationLease) := do
  let ended ← segment.completeInner owner lease true getFuel setFuel
  let dropped ← ended.segment.drop ended.owner ended.lease getFuel setFuel
  some (ended.result, dropped)

def dispose (segment : SegmentExecution) (owner : PluginOwner) (lease : OperationLease)
    (getFuel setFuel : Bool) :
    Option (Except RuntimeError Unit × PluginOwner × OperationLease) := do
  let ended ← segment.completeInner owner lease false getFuel setFuel
  let dropped ← ended.segment.drop ended.owner ended.lease getFuel setFuel
  some (ended.result, dropped)

end SegmentExecution

/-! ## What a guard does to the Store -/

/-- A Store that waits for its next guard. -/
structure Store.Parked (store : Store) : Prop where
  fuel : store.fuel = 0
  deadline : store.deadline = 0
  activeSegment : store.activeSegment = none
  poisoned : store.poisoned = false

theorem takeStore_none {owner : PluginOwner} (h : owner.store = none) :
    owner.takeStore = (.error .StoreDisposed, owner) := by
  rw [PluginOwner.takeStore, h]

theorem takeStore_some {owner : PluginOwner} {store : Store} (h : owner.store = some store) :
    owner.takeStore = (.ok store, { owner with store := none }) := by
  rw [PluginOwner.takeStore, h]

theorem setFuel_ok {store next : Store} {works : Bool} {fuel : Nat} {done : Unit}
    (h : store.setFuel works fuel = (.ok done, next)) : next = { store with fuel := fuel } := by
  unfold Store.setFuel at h
  split at h
  · exact (Prod.mk.inj h).2.symm
  · exact nomatch (Prod.mk.inj h).1

/-- Without a Store no guard starts. -/
theorem startInstantiation_none {owner : PluginOwner} (h : owner.store = none) (setFuel : Bool) :
    InstantiationExecution.start owner setFuel = (.error .StoreDisposed, owner) := by
  rw [InstantiationExecution.start, takeStore_none h]

theorem startWithDisposition_none {owner : PluginOwner} (h : owner.store = none)
    (lease : OperationLease) (restore setFuel : Bool) :
    SegmentExecution.startWithDisposition owner lease restore setFuel =
      (.error .StoreDisposed, owner) := by
  rw [SegmentExecution.startWithDisposition, takeStore_none h]

/-- An instantiation takes the Store away, and has it without an active segment
where it starts. -/
theorem startInstantiation_some {owner : PluginOwner} {store : Store}
    (h : owner.store = some store) (setFuel : Bool) :
    ∃ result, InstantiationExecution.start owner setFuel =
        (result, { owner with store := none }) ∧
      ∀ execution, result = .ok execution →
        ∃ taken, execution.store = some taken ∧ taken.activeSegment = none := by
  unfold InstantiationExecution.start
  rw [takeStore_some h]
  dsimp only
  split
  · exact ⟨_, rfl, fun _ herror => nomatch herror⟩
  · rename_i hidle
    split
    · exact ⟨_, rfl, fun _ herror => nomatch herror⟩
    · rename_i next hset
      refine ⟨_, rfl, fun execution hok => ?_⟩
      cases hok
      refine ⟨_, rfl, ?_⟩
      rw [setFuel_ok hset]
      show store.activeSegment = none
      rw [Bool.or_eq_true, not_or, Bool.not_eq_true, Option.isSome_eq_false_iff] at hidle
      exact Option.isNone_iff_eq_none.1 hidle.1

/-- A segment takes the Store away, and has as much fuel in it as the lease has
left where it starts. -/
theorem startWithDisposition_some {owner : PluginOwner} {store : Store}
    (h : owner.store = some store) (lease : OperationLease) (restore setFuel : Bool) :
    ∃ result, SegmentExecution.startWithDisposition owner lease restore setFuel =
        (result, { owner with store := none }) ∧
      ∀ segment, result = .ok segment → segment.restoreIfIncomplete = restore ∧
        ∃ taken, segment.store = some taken ∧ taken.fuel = lease.remaining := by
  unfold SegmentExecution.startWithDisposition
  rw [takeStore_some h]
  dsimp only
  split
  · exact ⟨_, rfl, fun _ herror => nomatch herror⟩
  · split
    · exact ⟨_, rfl, fun _ herror => nomatch herror⟩
    · split
      · exact ⟨_, rfl, fun _ herror => nomatch herror⟩
      · rename_i next hset
        refine ⟨_, rfl, fun segment hok => ?_⟩
        cases hok
        refine ⟨rfl, _, rfl, ?_⟩
        rw [setFuel_ok hset]
        rfl

/-- An instantiation that ends gives a parked Store back, or none. -/
theorem completeInstantiation_cases {execution : InstantiationExecution} {store : Store}
    (h : execution.store = some store) (hidle : store.activeSegment = none) (owner : PluginOwner)
    (setFuel : Bool) : ∃ result next, execution.complete owner setFuel = some (result, next) ∧
      (next = owner ∨ ∃ parked : Store, parked.Parked ∧ next = owner.restoreStore parked) := by
  unfold InstantiationExecution.complete
  rw [h]
  show ∃ result next, (match store.setFuel setFuel 0 with
    | (.error _, _) => some (Except.error RuntimeError.StoreDisposed, owner)
    | (.ok _, store) =>
        if store.poisoned then some (.error .StoreDisposed, owner)
        else some (.ok (), owner.restoreStore store.parkGuestDeadline)) = some (result, next) ∧ _
  split
  · exact ⟨_, _, rfl, Or.inl rfl⟩
  · rename_i next hset
    split
    · exact ⟨_, _, rfl, Or.inl rfl⟩
    · rename_i hpoisoned
      refine ⟨_, _, rfl, Or.inr ⟨_, ?_, rfl⟩⟩
      rw [setFuel_ok hset] at hpoisoned ⊢
      exact ⟨rfl, rfl, hidle, Bool.eq_false_iff.2 hpoisoned⟩

/-- A segment that ends leaves owner and lease alone, or charges the lease for what
is gone from the Store and parks the Store. -/
theorem completeInner_cases {segment : SegmentExecution} {store : Store}
    (h : segment.store = some store) (owner : PluginOwner) (lease : OperationLease)
    (restore getFuel setFuel : Bool) :
    ∃ ended, segment.completeInner owner lease restore getFuel setFuel = some ended ∧
      ended.segment.store = none ∧
      (ended.owner = owner ∧ ended.lease = lease ∨
        ended.lease = { lease with remaining := store.fuel } ∧
          ∃ parked : Store, parked.Parked ∧
            ended.owner = if restore then owner.restoreStore parked else owner) := by
  unfold SegmentExecution.completeInner
  rw [h]
  dsimp only [Option.bind_eq_bind, Option.bind_some]
  cases hset : store.setFuel setFuel 0 with
  | mk fuelParked next =>
      cases hget : store.getFuel getFuel with
      | error error => exact ⟨_, rfl, rfl, Or.inl ⟨rfl, rfl⟩⟩
      | ok actual =>
          cases fuelParked with
          | error error => exact ⟨_, rfl, rfl, Or.inl ⟨rfl, rfl⟩⟩
          | ok done =>
              dsimp only
              split
              · exact ⟨_, rfl, rfl, Or.inl ⟨rfl, rfl⟩⟩
              · rename_i hpoisoned
                split
                · exact ⟨_, rfl, rfl, Or.inl ⟨rfl, rfl⟩⟩
                · split
                  · exact ⟨_, rfl, rfl, Or.inl ⟨rfl, rfl⟩⟩
                  · split
                    · exact ⟨_, rfl, rfl, Or.inl ⟨rfl, rfl⟩⟩
                    · have hactual : store.fuel = actual := by
                        unfold Store.getFuel at hget
                        split at hget
                        · exact Except.ok.inj hget
                        · exact nomatch hget
                      refine ⟨_, rfl, rfl, Or.inr ⟨hactual ▸ rfl, _, ?_, rfl⟩⟩
                      rw [setFuel_ok hset] at hpoisoned ⊢
                      exact ⟨rfl, rfl, rfl, Bool.eq_false_iff.2 hpoisoned⟩

/-- A guard without its Store does nothing. -/
theorem drop_none {segment : SegmentExecution} (h : segment.store = none) (owner : PluginOwner)
    (lease : OperationLease) (getFuel setFuel : Bool) :
    segment.drop owner lease getFuel setFuel = some (owner, lease) := by
  rw [SegmentExecution.drop, h]
  rfl

/-- A completed segment leaves the owner alone, or charges and gives the Store back. -/
theorem complete_cases {segment : SegmentExecution} {store : Store}
    (h : segment.store = some store) (owner : PluginOwner) (lease : OperationLease)
    (getFuel setFuel : Bool) :
    ∃ result next charged, segment.complete owner lease getFuel setFuel =
        some (result, next, charged) ∧
      (next = owner ∨ charged = { lease with remaining := store.fuel } ∧
        ∃ parked : Store, parked.Parked ∧ next = owner.restoreStore parked) := by
  obtain ⟨ended, hended, hstore, hcases⟩ := completeInner_cases h owner lease true getFuel setFuel
  refine ⟨ended.result, ended.owner, ended.lease, ?_, hcases.imp And.left id⟩
  unfold SegmentExecution.complete
  rw [hended]
  show (ended.segment.drop ended.owner ended.lease getFuel setFuel).bind _ = _
  rw [drop_none hstore]
  rfl

/-- A disposed segment leaves the owner alone. -/
theorem dispose_cases {segment : SegmentExecution} {store : Store}
    (h : segment.store = some store) (owner : PluginOwner) (lease : OperationLease)
    (getFuel setFuel : Bool) :
    ∃ result charged, segment.dispose owner lease getFuel setFuel =
      some (result, owner, charged) := by
  obtain ⟨ended, hended, hstore, hcases⟩ := completeInner_cases h owner lease false getFuel setFuel
  have howner : ended.owner = owner :=
    hcases.elim And.left fun ⟨_, _, _, hnext⟩ => hnext.trans (if_neg Bool.false_ne_true)
  refine ⟨ended.result, ended.lease, ?_⟩
  unfold SegmentExecution.dispose
  rw [hended]
  show (ended.segment.drop ended.owner ended.lease getFuel setFuel).bind _ = _
  rw [drop_none hstore, howner]
  rfl

/-- So does a dropped one that is not to be restored. -/
theorem drop_cases {segment : SegmentExecution} {store : Store}
    (h : segment.store = some store) (hrestore : segment.restoreIfIncomplete = false)
    (owner : PluginOwner) (lease : OperationLease) (getFuel setFuel : Bool) :
    ∃ charged, segment.drop owner lease getFuel setFuel = some (owner, charged) := by
  obtain ⟨ended, hended, hstore, hcases⟩ := completeInner_cases h owner lease false getFuel setFuel
  have howner : ended.owner = owner :=
    hcases.elim And.left fun ⟨_, _, _, hnext⟩ => hnext.trans (if_neg Bool.false_ne_true)
  refine ⟨ended.lease, ?_⟩
  rw [SegmentExecution.drop, h, Option.isSome_some, if_pos rfl, hrestore, hended, Option.map_some,
    howner]

end MCode.Runtime
