import MCode.Lib.Reducer
import MCode.Vault.Model

/-!
# Vault commands

`mcode-config/src/host_vault/reducer.rs` from `apply_command` down.  A command
changes the document in place, so it is a `Reducer` of the document: what it has
changed when it fails stays changed.

`document.credentials[index]` panics outside the list; `index` here comes from
a search, which never gives such a place (`binarySearchBy_ok`).
-/

namespace MCode.Vault

open MCode.Lib
open MCode.Lib.SortedTable (binarySearchBy anyNeighbours sortBy)
open MCode.Lib.Reducer (get check modify)

/-! ## Commands -/

structure VaultRevision where
  value : Nat
  deriving DecidableEq

def VaultRevision.EMPTY : VaultRevision := ⟨0⟩

inductive ExpectedVaultState where
  | Absent
  | Present (revision : VaultRevision)
  deriving DecidableEq

structure MutationResult where
  revision : VaultRevision
  credentialVersion : Option CredentialVersion
  deriving DecidableEq

structure CredentialDescriptor where
  serviceId : String
  accountId : String
  issuerId : String
  authSchemaId : String

structure CredentialTarget where
  descriptor : CredentialDescriptor
  expectedVersion : CredentialVersion

structure GrantKey where
  consumerFamily : ConsumerFamily
  packId : String
  operationId : String

structure GrantApproval where
  key : GrantKey
  authorityDigest : Sha256Digest

structure BindApproval where
  key : GrantKey
  target : CredentialTarget
  authorityDigest : Sha256Digest

structure PersistedBinding where
  serviceId : String
  accountId : String
  authorityDigest : Sha256Digest

inductive VaultCommand where
  | InitializeEmpty
  | Insert (expected : ExpectedVaultState) (descriptor : CredentialDescriptor)
      (secret : List UInt8) (approvals : List GrantApproval)
  | Rotate (expected : ExpectedVaultState) (serviceId accountId : String)
      (expectedVersion : CredentialVersion) (secret : List UInt8)
  | Revoke (expected : ExpectedVaultState) (serviceId accountId : String)
      (expectedVersion : CredentialVersion)
  | Bind (expected : ExpectedVaultState) (approvals : List BindApproval)
  | Rebind (expected : ExpectedVaultState) (key : GrantKey) (old : PersistedBinding)
      (replacement : CredentialTarget) (authorityDigest : Sha256Digest)
  | Unbind (expected : ExpectedVaultState) (key : GrantKey) (old : PersistedBinding)

def VaultCommand.expected : VaultCommand → Option ExpectedVaultState
  | .InitializeEmpty => none
  | .Insert expected .. => some expected
  | .Rotate expected .. => some expected
  | .Revoke expected .. => some expected
  | .Bind expected .. => some expected
  | .Rebind expected .. => some expected
  | .Unbind expected .. => some expected

def VaultCommand.canCreate : VaultCommand → Bool
  | .InitializeEmpty => true
  | .Insert .. => true
  | _ => false

def emptyDocument : VaultDocument where
  formatVersion := HOST_VAULT_FORMAT_VERSION
  kind := HOST_VAULT_KIND
  revision := 0
  credentials := []
  grants := []

/-! ## Checks -/

def nextRevision (current : Nat) : Except ConfigErrorKind VaultRevision :=
  if current + 1 ≤ MAX_SIGNED then .ok ⟨current + 1⟩ else .error .RevisionExhausted

def findCredential (document : VaultDocument) (serviceId accountId : String) : Except Nat Nat :=
  binarySearchBy (fun credential => compare (credentialKey credential) (toLex (serviceId, accountId)))
    document.credentials

/-- The credential at a place that a search has found. -/
def credentialAt (document : VaultDocument) (index : Nat) : Except ConfigErrorKind Credential :=
  match document.credentials[index]? with
  | some credential => .ok credential
  | none => .error conflict

def activeCredentialIndex (document : VaultDocument) (serviceId accountId : String)
    (expectedVersion : CredentialVersion) : Except ConfigErrorKind Nat := do
  let index ← (findCredential document serviceId accountId).mapError fun _ => conflict
  let credential ← credentialAt document index
  reject (credential.state != .Active || credential.credentialVersion != expectedVersion) conflict
  pure index

def exactActiveCredential (document : VaultDocument) (target : CredentialTarget) :
    Except ConfigErrorKind Nat := do
  let index ← activeCredentialIndex document target.descriptor.serviceId
    target.descriptor.accountId target.expectedVersion
  let credential ← credentialAt document index
  reject (credential.issuerId != target.descriptor.issuerId
    || credential.authSchemaId != target.descriptor.authSchemaId) conflict
  pure index

def inputGrantTuple (key : GrantKey) : GrantTuple :=
  toLex (key.consumerFamily.sortKey, toLex (pluginId key.consumerFamily.pluginFamily,
    toLex (key.packId, key.operationId)))

def findGrant (document : VaultDocument) (key : GrantKey) : Except Nat Nat :=
  binarySearchBy (fun grant => compare (grantTuple grant) (inputGrantTuple key)) document.grants

def ensureNewGrantKeys (document : VaultDocument) (keys : List GrantKey) :
    Except ConfigErrorKind Unit :=
  let pending := sortBy inputGrantTuple keys
  reject (anyNeighbours (fun a b => decide (inputGrantTuple a = inputGrantTuple b)) pending
    || pending.any fun key => (findGrant document key).isOk) conflict

def exactGrantIndex (document : VaultDocument) (key : GrantKey) (old : PersistedBinding) :
    Except ConfigErrorKind Nat := do
  let index ← (findGrant document key).mapError fun _ => conflict
  match document.grants[index]? with
  | none => .error conflict
  | some grant =>
      reject (grant.serviceId != old.serviceId || grant.accountId != old.accountId
        || grant.authorityDigest != old.authorityDigest.text) conflict
      pure index

def validateDescriptor (descriptor : CredentialDescriptor) : Except ConfigErrorKind Unit := do
  validateLocalId descriptor.serviceId
  validateLocalId descriptor.accountId
  validateLocalId descriptor.issuerId
  validateLocalId descriptor.authSchemaId

def validateGrantInput (key : GrantKey) : Except ConfigErrorKind Unit :=
  validateGrantCoordinates key.consumerFamily (pluginId key.consumerFamily.pluginFamily)
    key.packId key.operationId

def validateBinding (binding : PersistedBinding) : Except ConfigErrorKind Unit := do
  validateLocalId binding.serviceId
  validateLocalId binding.accountId

def ownedGrant (key : GrantKey) (serviceId accountId : String) (authorityDigest : Sha256Digest) :
    Grant where
  consumerFamily := key.consumerFamily
  managerId := pluginId key.consumerFamily.pluginFamily
  packId := key.packId
  operationId := key.operationId
  serviceId := serviceId
  accountId := accountId
  authorityDigest := authorityDigest.text

def activeCount (document : VaultDocument) : Nat :=
  document.credentials.countP fun credential => credential.state == .Active

/-! ## The commands in place -/

abbrev Apply := Reducer VaultDocument ConfigErrorKind

def pushCredential (credential : Credential) : Apply Unit :=
  modify fun document => { document with credentials := document.credentials ++ [credential] }

def pushGrants (grants : List Grant) : Apply Unit :=
  modify fun document => { document with grants := document.grants ++ grants }

def updateCredential (index : Nat) (f : Credential → Credential) : Apply Unit :=
  modify fun document => { document with credentials := document.credentials.modify index f }

def updateGrants (f : List Grant → List Grant) : Apply Unit :=
  modify fun document => { document with grants := f document.grants }

def finishMutation (revision : VaultRevision) (credentialVersion : Option CredentialVersion) :
    Apply MutationResult := do
  modify fun document => { document with revision := revision.value }
  modify fun document => { document with credentials := sortBy credentialKey document.credentials }
  updateGrants (sortBy grantTuple)
  pure ⟨revision, credentialVersion⟩

def newCredential (descriptor : CredentialDescriptor) (secret : Secret) : Credential where
  serviceId := descriptor.serviceId
  accountId := descriptor.accountId
  issuerId := descriptor.issuerId
  authSchemaId := descriptor.authSchemaId
  credentialVersion := .FIRST
  state := .Active
  secretBase64Url := some secret

def insert (descriptor : CredentialDescriptor) (secret : List UInt8)
    (approvals : List GrantApproval) : Apply MutationResult := do
  check (reject (decide (MAX_GRANTS < approvals.length)) authorityError)
  let document ← get
  check (reject (findCredential document descriptor.serviceId descriptor.accountId).isOk conflict)
  check (ensureNewGrantKeys document (approvals.map GrantApproval.key))
  check (validateDescriptor descriptor)
  let secret ← check (Secret.fromInput secret)
  check (approvals.forM fun approval => validateGrantInput approval.key)
  check (reject (decide (MAX_GRANTS - document.grants.length < approvals.length)
    || decide (MAX_ACTIVE_CREDENTIALS ≤ activeCount document)
    || decide (MAX_CREDENTIALS ≤ document.credentials.length)) authorityError)
  let revision ← check (nextRevision document.revision)
  pushCredential (newCredential descriptor secret)
  pushGrants (approvals.map fun approval =>
    ownedGrant approval.key descriptor.serviceId descriptor.accountId approval.authorityDigest)
  finishMutation revision (some .FIRST)

def rotate (serviceId accountId : String) (expectedVersion : CredentialVersion)
    (secret : List UInt8) : Apply MutationResult := do
  let document ← get
  let index ← check (activeCredentialIndex document serviceId accountId expectedVersion)
  let secret ← check (Secret.fromInput secret)
  let credential ← check (credentialAt document index)
  let credentialVersion ← check credential.credentialVersion.checkedIncrement
  let revision ← check (nextRevision document.revision)
  updateCredential index fun credential => { credential with credentialVersion }
  updateCredential index fun credential => { credential with secretBase64Url := some secret }
  finishMutation revision (some credentialVersion)

def revoke (serviceId accountId : String) (expectedVersion : CredentialVersion) :
    Apply MutationResult := do
  let document ← get
  let index ← check (activeCredentialIndex document serviceId accountId expectedVersion)
  let credential ← check (credentialAt document index)
  let credentialVersion ← check credential.credentialVersion.checkedIncrement
  let revision ← check (nextRevision document.revision)
  updateCredential index fun credential => { credential with credentialVersion }
  updateCredential index fun credential => { credential with state := .Revoked }
  updateCredential index fun credential => { credential with secretBase64Url := none }
  updateGrants (List.filter fun grant => grant.serviceId != serviceId || grant.accountId != accountId)
  finishMutation revision (some credentialVersion)

def bind (approvals : List BindApproval) : Apply MutationResult := do
  check (reject (approvals.isEmpty || decide (MAX_GRANTS < approvals.length)) authorityError)
  let document ← get
  check (ensureNewGrantKeys document (approvals.map BindApproval.key))
  check (approvals.forM fun approval => do
    let _ ← exactActiveCredential document approval.target)
  check (approvals.forM fun approval => do
    validateGrantInput approval.key
    validateDescriptor approval.target.descriptor)
  check (reject (decide (MAX_GRANTS - document.grants.length < approvals.length)) authorityError)
  let revision ← check (nextRevision document.revision)
  pushGrants (approvals.map fun approval =>
    ownedGrant approval.key approval.target.descriptor.serviceId
      approval.target.descriptor.accountId approval.authorityDigest)
  finishMutation revision none

def replaceBinding (replacement : CredentialTarget) (authorityDigest : Sha256Digest)
    (grant : Grant) : Grant :=
  { grant with
    serviceId := replacement.descriptor.serviceId
    accountId := replacement.descriptor.accountId
    authorityDigest := authorityDigest.text }

def rebind (key : GrantKey) (old : PersistedBinding) (replacement : CredentialTarget)
    (authorityDigest : Sha256Digest) : Apply MutationResult := do
  let document ← get
  let grantIndex ← check (exactGrantIndex document key old)
  let _ ← check (exactActiveCredential document replacement)
  check (validateGrantInput key)
  check (validateBinding old)
  check (validateDescriptor replacement.descriptor)
  let revision ← check (nextRevision document.revision)
  updateGrants (List.modify · grantIndex (replaceBinding replacement authorityDigest))
  finishMutation revision none

def unbind (key : GrantKey) (old : PersistedBinding) : Apply MutationResult := do
  let document ← get
  let index ← check (exactGrantIndex document key old)
  check (validateGrantInput key)
  check (validateBinding old)
  let revision ← check (nextRevision document.revision)
  updateGrants (List.eraseIdx · index)
  finishMutation revision none

def applyCommand : VaultCommand → Apply MutationResult
  | .InitializeEmpty => pure ⟨.EMPTY, none⟩
  | .Insert _ descriptor secret approvals => insert descriptor secret approvals
  | .Rotate _ serviceId accountId expectedVersion secret =>
      rotate serviceId accountId expectedVersion secret
  | .Revoke _ serviceId accountId expectedVersion => revoke serviceId accountId expectedVersion
  | .Bind _ approvals => bind approvals
  | .Rebind _ key old replacement authorityDigest => rebind key old replacement authorityDigest
  | .Unbind _ key old => unbind key old

end MCode.Vault
