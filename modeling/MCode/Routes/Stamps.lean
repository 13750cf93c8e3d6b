import MCode.Routes.Identity

/-!
# Provider ownership, route leases and usage stamps

The immutable values of `provider_routes/stamps.rs`.  Two of the source's
types are reference-counted cells compared by address with `Arc::ptr_eq`:
the `LedgerSeal` of a ledger and the `UsageStamp` of one request instance.
Here an address is a number handed out once, `Seal` for a ledger and
`StampRef` for a stamp, and the stamp's own fields live in a heap
(`MCode.Routes.Ledger`), because its terminal flag is shared by every clone
of a context.
-/

namespace MCode.Routes.Stamps

open MCode.Routes.Identity

/-- `mcode_config::PluginFamily`. -/
inductive PluginFamily where
  | Providers
  | Web
  | Mcp
  | Usage
  | Ui
  deriving DecidableEq, Repr

/-- `mcode_config::ArtifactRef`: a version and a digest, only compared
here. -/
structure ArtifactRef where
  version : String
  digest : String
  deriving DecidableEq, Repr

/-- The Manager and Provider Pack generation claiming routes. -/
structure ProviderRouteOwner where
  managerFamily : PluginFamily
  managerArtifact : ArtifactRef
  packId : String
  packSource : String
  packArtifact : ArtifactRef
  generation : ProviderGeneration
  deriving DecidableEq, Repr

def ProviderRouteOwner.matchesExceptGeneration
    (self other : ProviderRouteOwner) : Bool :=
  self.managerFamily == other.managerFamily
    && self.managerArtifact == other.managerArtifact
    && self.packId == other.packId
    && self.packSource == other.packSource
    && self.packArtifact == other.packArtifact

/-- One provider, route and authentication-slot claim with its two
fingerprints. -/
structure ProviderRouteClaim where
  providerId : ProviderId
  routeId : ProviderRouteId
  authSlotId : AuthSlotId
  endpointFingerprint : String
  authFingerprint : String
  deriving DecidableEq, Repr

/-- One immutable registered route ownership. -/
structure ProviderRouteOwnership where
  owner : ProviderRouteOwner
  claim : ProviderRouteClaim
  deriving DecidableEq, Repr

/-- The address of one ledger's `LedgerSeal`. -/
abbrev Seal := Nat

/-- The address of one `UsageStamp`. -/
abbrev StampRef := Nat

/-- Proof that a current model was selected through a registered route. -/
structure ModelRouteLease where
  ledgerSeal : Seal
  ownership : ProviderRouteOwnership
  currentModel : ModelId
  deriving DecidableEq, Repr

def ModelRouteLease.belongsTo (self : ModelRouteLease) (ledger : Seal) : Bool :=
  self.ledgerSeal == ledger

def ModelRouteLease.sameStamp (self other : ModelRouteLease) : Bool :=
  self.ledgerSeal == other.ledgerSeal
    && self.ownership == other.ownership
    && self.currentModel == other.currentModel

/-- The contents of one `UsageStamp` cell. -/
structure UsageStamp where
  ledger : Seal
  terminal : Bool
  deriving DecidableEq, Repr

def UsageStamp.new (ledger : Seal) : UsageStamp := ⟨ledger, false⟩

def UsageStamp.belongsTo (self : UsageStamp) (ledger : Seal) : Bool :=
  self.ledger == ledger

/-- One immutable request and model identity; `stamp` is the cell its clones
share. -/
structure UsageContextSnapshot where
  lease : ModelRouteLease
  requestId : RequestId
  turnId : TurnId
  requestedModel : ModelId
  requestedAlias : Option ModelAlias
  resolvedModel : Option ModelId
  stamp : StampRef
  deriving DecidableEq, Repr

def UsageContextSnapshot.sameRequestInstance
    (self other : UsageContextSnapshot) : Bool :=
  self.stamp == other.stamp

def UsageContextSnapshot.withResolvedModel (self : UsageContextSnapshot)
    (resolvedModel : ModelId) : UsageContextSnapshot :=
  { self with resolvedModel := some resolvedModel }

def UsageContextSnapshot.sameSnapshot (self other : UsageContextSnapshot) :
    Bool :=
  self.sameRequestInstance other
    && self.lease.sameStamp other.lease
    && self.requestId == other.requestId
    && self.turnId == other.turnId
    && self.requestedModel == other.requestedModel
    && self.requestedAlias == other.requestedAlias
    && self.resolvedModel == other.resolvedModel

/-- One terminal usage sample. -/
structure UsageSample where
  context : UsageContextSnapshot
  counters : UsageCounters
  deriving DecidableEq, Repr

/-! ## What the comparisons decide -/

theorem ModelRouteLease.sameStamp_iff (a b : ModelRouteLease) :
    a.sameStamp b = true ↔ a = b := by
  cases a
  cases b
  simp [sameStamp, and_assoc]

/-- `same_snapshot` compares every field, so it is equality. -/
theorem UsageContextSnapshot.sameSnapshot_iff (a b : UsageContextSnapshot) :
    a.sameSnapshot b = true ↔ a = b := by
  cases a
  cases b
  simp only [sameSnapshot, sameRequestInstance, Bool.and_eq_true, beq_iff_eq,
    ModelRouteLease.sameStamp_iff, mk.injEq]
  tauto

@[simp] theorem UsageContextSnapshot.withResolvedModel_stamp
    (c : UsageContextSnapshot) (m : ModelId) :
    (c.withResolvedModel m).stamp = c.stamp := rfl

@[simp] theorem UsageContextSnapshot.withResolvedModel_requestId
    (c : UsageContextSnapshot) (m : ModelId) :
    (c.withResolvedModel m).requestId = c.requestId := rfl

@[simp] theorem UsageContextSnapshot.withResolvedModel_lease
    (c : UsageContextSnapshot) (m : ModelId) :
    (c.withResolvedModel m).lease = c.lease := rfl

@[simp] theorem UsageContextSnapshot.withResolvedModel_resolvedModel
    (c : UsageContextSnapshot) (m : ModelId) :
    (c.withResolvedModel m).resolvedModel = some m := rfl

end MCode.Routes.Stamps
