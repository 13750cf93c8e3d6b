import MCode.Lib.Mealy
import MCode.Packs.Selection

/-!
# Pack activations

`mcode-plugin-host/src/pack_activation.rs`, over the clients of one authority.
An `activate` begins in one critical section, prepares its Packs one after the
other, and commits in another; between these everything else may happen,
other than on the same client, which the call borrows.

`step` takes any call in any state: one that has to wait, or that the borrows
of the source do not allow, is answered `blocked` and changes nothing.  What
the loader, the runtime and the generation fence answer is part of a call.
-/

namespace MCode.Packs

open MCode.Lib
open MCode.Routes.Stamps (PluginFamily)

/-! ## Preparation -/

/-- `RuntimeError`, without what its variants carry. -/
inductive RuntimeError where
  | Engine
  | RuntimeUninitialized
  | EpochTicker
  | Preflight
  | IdentityExhausted
  | RuntimeMismatch
  | InstanceActive
  | OwnerMismatch
  | InstanceMismatch
  | SegmentActive
  | SegmentMismatch
  | Fuel
  | FuelIncreased
  | StoreDisposed
  | Instantiation
  | Guest
  | Admission
  deriving DecidableEq

/-- `pack_activation::PackActivationError`. -/
inductive PackActivationError where
  | InvalidSelection
  | StaleGeneration
  | Limit
  | Unavailable
  | Failed
  deriving DecidableEq

def PackActivationError.from : SelectionActivationError → PackActivationError
  | .InvalidSelection => .InvalidSelection
  | .Unavailable => .Unavailable

def mapRuntimeError : RuntimeError → PackActivationError
  | .Admission => .Limit
  | .Engine | .RuntimeUninitialized | .EpochTicker | .Fuel => .Unavailable
  | _ => .Failed

/-- `GenerationCommitError`. -/
inductive GenerationCommitError where
  | Stale
  | Unavailable
  deriving DecidableEq

def mapGenerationError : GenerationCommitError → PackActivationError
  | .Stale => .StaleGeneration
  | .Unavailable => .Unavailable

inductive ComponentWorld where
  | Provider
  | Web
  | Mcp
  | Usage
  deriving DecidableEq

def packWorld : PluginFamily → Option ComponentWorld
  | .Providers => some .Provider
  | .Web => some .Web
  | .Mcp => some .Mcp
  | .Usage => some .Usage
  | .Ui => none

/-- What is read of a `VerifiedPackCandidate`. -/
structure VerifiedPackCandidate where
  family : PluginFamily
  packId : PackId
  world : ComponentWorld
  deriving DecidableEq

/-- A prepared Pack; a number tells its instance and owner apart. -/
structure ActivePack where
  candidate : VerifiedPackCandidate
  instanceId : Nat
  deriving DecidableEq

/-- How the preparation of one Pack goes. -/
inductive Preparation where
  /-- Its installation is not read, verified or compiled. -/
  | unloadable
  /-- There is no owner for it, or no instance. -/
  | runtime (error : RuntimeError)
  | prepared (instanceId : Nat)

/-- `load_verified_pack`, of an installation that is in order or not. -/
def loadVerifiedPack (family : PluginFamily) (packId : PackId) (inOrder : Bool) :
    Option VerifiedPackCandidate :=
  match packWorld family with
  | none => none
  | some world => if inOrder then some ⟨family, packId, world⟩ else none

/-- One round of the loop in `activate`. -/
def preparePack (family : PluginFamily) (packId : PackId) (preparation : Preparation) :
    Except PackActivationError ActivePack :=
  match loadVerifiedPack family packId (preparation matches .runtime _ | .prepared _) with
  | none => .error .Failed
  | some candidate =>
      match preparation with
      | .unloadable => .error .Failed
      | .runtime error => .error (mapRuntimeError error)
      | .prepared instanceId => .ok ⟨candidate, instanceId⟩

/-! ## Activation clients -/

structure ActivePackSet where
  target : PackActivationTarget
  packs : List ActivePack
  deriving DecidableEq

/-- Where a client is in `activate`. -/
inductive Activating where
  | idle
  /-- Before the next Pack. -/
  | preparing (target : PackActivationTarget) (packs : List ActivePack)
  /-- In `commit`, before `begin_commit`. -/
  | committing (target : PackActivationTarget) (replacement : Option (List ActivePack))
  /-- In `commit`, with the commit of the generation. -/
  | generationHeld (target : PackActivationTarget) (replacement : Option (List ActivePack))

structure PackActivationClient where
  family : PluginFamily
  selection : PackSelectionClient
  active : Option ActivePackSet
  activating : Activating

def PackActivationClient.new (family selectionFamily : PluginFamily) : PackActivationClient :=
  ⟨family, ⟨selectionFamily, none⟩, none, .idle⟩

/-- The loop goes on while there are Packs to prepare. -/
def prepared (target : PackActivationTarget) (packs : List ActivePack) : Activating :=
  if packs.length < target.selection.packIds.length then .preparing target packs
  else .committing target (some packs)

/-- `active.replace`, and the stamp that `commit` returns. -/
def PackActivationClient.replace (self : PackActivationClient) (target : PackActivationTarget)
    (replacement : Option (List ActivePack)) : PackActivationClient × String :=
  let active := match replacement with
    | none => self.active
    | some packs => some ⟨target, packs⟩
  ({ self with active, activating := .idle },
    (active.map fun set => set.target.selection.stamp).getD target.selection.stamp)

/-! ## The system -/

/-- The authority, its clients (`none` once dropped), and the targets that
`begin_activation` has returned. -/
structure PackSystem where
  authority : PackSelectionAuthority
  clients : List (Option PackActivationClient)
  targets : List PackActivationTarget

def PackSystem.new : PackSystem := ⟨.new, [], []⟩

inductive PackCall where
  | publish (document : Option RootCompositionDocument)
  | client (family selectionFamily : PluginFamily)
  | issue (client : Nat) (draws : Draws)
  | beginActivation (client : Nat) (selectionStamp : String)
  | commitActivation (client target : Nat)
  /-- The guard of a commit is dropped, by a thread that panics or not. -/
  | dropCommit (panicking : Bool)
  | activate (client : Nat) (selectionStamp : String)
  | prepare (client : Nat) (preparation : Preparation)
  /-- The future of an `activate` is dropped. -/
  | cancel (client : Nat)
  | beginCommit (client : Nat) (generation : Except GenerationCommitError Unit)
  | commit (client : Nat)
  | dropClient (client : Nat)
  | close

inductive PackAnswer where
  | blocked
  | done
  | published (result : Except PackConfigurationError Unit)
  | issued (result : Except PackSelectionIssueError ConfiguredPackSelection)
  | begun (result : Except SelectionActivationError PackActivationTarget)
  | committed (result : Except SelectionActivationError Unit)
  | activated (result : Except PackActivationError String)

/-- A client that no call borrows. -/
def PackSystem.idle (s : PackSystem) (i : Nat) : Option PackActivationClient :=
  match s.clients[i]? with
  | some (some client) => if client.activating matches .idle then some client else none
  | _ => none

def PackSystem.put (s : PackSystem) (i : Nat) (client : PackActivationClient) : PackSystem :=
  { s with clients := s.clients.set i (some client) }

/-- `begin_activation` and what follows it in `activate` without waiting. -/
def PackActivationClient.activate (self : PackActivationClient)
    (authority : PackSelectionAuthority) (selectionStamp : String) :
    Except PackActivationError Activating :=
  match self.selection.beginActivation authority selectionStamp with
  | .error error => .error (.from error)
  | .ok target =>
      if self.active.any fun active => active.target = target then .ok (.committing target none)
      else .ok (prepared target [])

/-- The calls that lock the authority's mutex. -/
def locked (s : PackSystem) : PackCall → PackAnswer × PackSystem
  | .publish document =>
      let (result, authority) := s.authority.publish document
      (.published result, { s with authority })
  | .issue i draws =>
      match s.idle i with
      | none => (.blocked, s)
      | some client =>
          let (result, authority, selection) := client.selection.issue s.authority draws
          (.issued result, { s with authority }.put i { client with selection })
  | .beginActivation i selectionStamp =>
      match s.idle i with
      | none => (.blocked, s)
      | some client =>
          match client.selection.beginActivation s.authority selectionStamp with
          | .error error => (.begun (.error error), s)
          | .ok target => (.begun (.ok target), { s with targets := s.targets ++ [target] })
  | .commitActivation i k =>
      match s.idle i, s.targets[k]? with
      | some client, some target =>
          match client.selection.lockCurrentActivation s.authority target.selection with
          | .error error => (.committed (.error error), s)
          | .ok () =>
              (.committed (.ok ()), { s with authority := { s.authority with guardedBy := some i } })
      | _, _ => (.blocked, s)
  | .activate i selectionStamp =>
      match s.idle i with
      | none => (.blocked, s)
      | some client =>
          match client.activate s.authority selectionStamp with
          | .error error => (.activated (.error error), s)
          | .ok activating => (.done, s.put i { client with activating })
  | .commit i =>
      match s.clients[i]? with
      | some (some client) =>
          match client.activating with
          | .generationHeld target replacement =>
              match client.selection.lockCurrentActivation s.authority target.selection with
              | .error error =>
                  (.activated (.error (.from error)), s.put i { client with activating := .idle })
              | .ok () =>
                  let (client, stamp) := client.replace target replacement
                  (.activated (.ok stamp), s.put i client)
          | _ => (.blocked, s)
      | _ => (.blocked, s)
  | .dropClient i =>
      match s.idle i with
      | none => (.blocked, s)
      | some client =>
          (.done, { s with
            authority := client.selection.release s.authority, clients := s.clients.set i none })
  | .close => (.done, { s with authority := s.authority.close })
  | _ => (.blocked, s)

def step (s : PackSystem) (call : PackCall) : PackAnswer × PackSystem :=
  match call with
  | .client family selectionFamily =>
      (.done, { s with clients := s.clients ++ [some (.new family selectionFamily)] })
  | .dropCommit panicking =>
      match s.authority.guardedBy with
      | none => (.blocked, s)
      | some _ =>
          (.done, { s with authority := { s.authority with
            guardedBy := none, poisoned := s.authority.poisoned || panicking } })
  | .prepare i preparation =>
      match s.clients[i]? with
      | some (some client) =>
          match client.activating with
          | .preparing target packs =>
              match target.selection.packIds[packs.length]? with
              | none => (.blocked, s)
              | some packId =>
                  match preparePack client.family packId preparation with
                  | .error error =>
                      (.activated (.error error), s.put i { client with activating := .idle })
                  | .ok pack =>
                      (.done, s.put i { client with activating := prepared target (packs ++ [pack]) })
          | _ => (.blocked, s)
      | _ => (.blocked, s)
  | .cancel i =>
      match s.clients[i]? with
      | some (some client) =>
          match client.activating with
          | .preparing _ _ => (.done, s.put i { client with activating := .idle })
          | _ => (.blocked, s)
      | _ => (.blocked, s)
  | .beginCommit i generation =>
      match s.clients[i]? with
      | some (some client) =>
          match client.activating, generation with
          | .committing _ _, .error error =>
              (.activated (.error (mapGenerationError error)),
                s.put i { client with activating := .idle })
          | .committing target replacement, .ok () =>
              (.done, s.put i { client with activating := .generationHeld target replacement })
          | _, _ => (.blocked, s)
      | _ => (.blocked, s)
  | call => if s.authority.guardedBy = none then locked s call else (.blocked, s)

end MCode.Packs
