import MCode.Lib.SortedTable
import MCode.Routes.Stamps

/-!
# The vault document

`mcode-config/src/host_vault/model.rs`, with the identifier grammars it checks
by: credentials and grants, their keys, and `validate_document`.

Strings are compared by their characters here and by their UTF-8 bytes in the
source, which is the same order.  Of a `ConfigError` only its kind is kept.
-/

namespace MCode.Vault

open MCode.Lib
open MCode.Routes.Stamps (PluginFamily)

/-! ## Failures -/

/-- `ConfigErrorKind`. -/
inductive ConfigErrorKind where
  | InvalidHome
  | PathEscape
  | LinkEscape
  | AccessControl
  | Io
  | Random
  | NonUtf8
  | Oversized
  | TooDeep
  | TooManyNodes
  | DuplicateKey
  | InvalidJson
  | AuthorityValidation
  | RevisionConflict
  | RevisionExhausted
  | Serialization
  | Lock
  | AtomicReplace
  | RecoveryIndeterminate
  deriving DecidableEq

def authorityError : ConfigErrorKind := .AuthorityValidation

def conflict : ConfigErrorKind := .RevisionConflict

/-- `if condition { return Err(error) }`. -/
def reject (condition : Bool) (error : ConfigErrorKind) : Except ConfigErrorKind Unit :=
  if condition then .error error else .ok ()

theorem reject_ok {condition : Bool} {error : ConfigErrorKind} {u : Unit} :
    reject condition error = .ok u ↔ condition = false := by
  unfold reject
  cases condition with
  | true => simp
  | false => simp

/-! ## Grammars -/

def isAsciiDigit (c : Char) : Bool := '0' ≤ c && c ≤ '9'

def isAsciiLowercase (c : Char) : Bool := 'a' ≤ c && c ≤ 'z'

def isAsciiAlphanumeric (c : Char) : Bool :=
  isAsciiLowercase c || ('A' ≤ c && c ≤ 'Z') || isAsciiDigit c

def isSeparator (c : Char) : Bool := c == '.' || c == '_' || c == '-'

def isIdChar (c : Char) : Bool := isAsciiLowercase c || isAsciiDigit c || isSeparator c

/-- The grammar that `is_valid_operation_id` and `validate_local_id` share. -/
def isLocalId (value : String) : Bool :=
  1 ≤ value.utf8ByteSize && value.utf8ByteSize ≤ 128
    && value.toList.head?.any isAsciiLowercase
    && value.toList.all isIdChar
    && !value.toList.getLast?.any isSeparator
    && !SortedTable.anyNeighbours (fun a b => isSeparator a && isSeparator b) value.toList

def isValidOperationId (value : String) : Bool := isLocalId value

def validateLocalId (value : String) : Except ConfigErrorKind Unit :=
  reject (!isLocalId value) authorityError

def toAsciiLowercase (c : Char) : Char :=
  if 'A' ≤ c && c ≤ 'Z' then Char.ofNat (c.toNat + 32) else c

def eqIgnoreAsciiCase (a : List Char) (b : String) : Bool :=
  a.map toAsciiLowercase == b.toList.map toAsciiLowercase

def isControl (c : Char) : Bool := c.toNat < 0x20 || (0x7f ≤ c.toNat && c.toNat ≤ 0x9f)

def isComOrLptDevice (basename : List Char) : Bool :=
  (eqIgnoreAsciiCase (basename.take 3) "com" || eqIgnoreAsciiCase (basename.take 3) "lpt")
    && (["1", "2", "3", "4", "5", "6", "7", "8", "9", "¹", "²", "³"].map String.toList).contains
      (basename.drop 3)

def isWindowsDeviceName (name : List Char) : Bool :=
  let stripped := (name.reverse.dropWhile fun c => c == ' ' || c == '.').reverse
  if stripped.isEmpty then false
  else
    let basename := stripped.takeWhile (· != '.')
    ["con", "prn", "aux", "nul", "conin$", "conout$", "clock$"].any (eqIgnoreAsciiCase basename)
      || isComOrLptDevice basename

def isSafePathComponent (name : String) : Bool :=
  !(name == "" || name == "." || name == "..")
    && !name.toList.any (fun c => c ∈ ['/', '\\', '\x00', ':', '*', '?', '"', '<', '>', '|'])
    && !name.toList.any isControl
    && !(name.toList.getLast? == some '.')
    && !(name.toList.getLast? == some ' ')
    && !isWindowsDeviceName name.toList

def isValidPortableId (value : String) : Bool :=
  value.utf8ByteSize ≤ 128
    && value.toList.head?.any isAsciiLowercase
    && value.toList.tail.all isIdChar
    && value.toList.getLast?.any isAsciiAlphanumeric
    && isSafePathComponent value

def SHA256_HEX_LENGTH : Nat := 64

def isValidSha256Digest (value : String) : Bool :=
  "sha256:".toList.isPrefixOf value.toList
    && (value.toList.drop 7).length == SHA256_HEX_LENGTH
    && (value.toList.drop 7).all fun c => isAsciiDigit c || ('a' ≤ c && c ≤ 'f')

/-! ## The document -/

def HOST_VAULT_FORMAT_VERSION : Nat := 1
def HOST_VAULT_KIND : String := "mcode-host-auth"
def MAX_ACTIVE_CREDENTIALS : Nat := 64
def MAX_CREDENTIALS : Nat := 320
def MAX_GRANTS : Nat := 1024
def MAX_SECRET_BYTES : Nat := 8192

/-- `i64::MAX as u64`. -/
def MAX_SIGNED : Nat := 2 ^ 63 - 1

inductive CredentialState where
  | Active
  | Revoked
  deriving DecidableEq

inductive ConsumerFamily where
  | Providers
  | Web
  | Usage
  deriving DecidableEq

def ConsumerFamily.pluginFamily : ConsumerFamily → PluginFamily
  | .Providers => .Providers
  | .Web => .Web
  | .Usage => .Usage

def ConsumerFamily.sortKey : ConsumerFamily → String
  | .Providers => "providers"
  | .Web => "web"
  | .Usage => "usage"

/-- `PluginFamily::id`. -/
def pluginId : PluginFamily → String
  | .Providers => "com.mcode.providers"
  | .Web => "com.mcode.web"
  | .Mcp => "com.mcode.mcp"
  | .Usage => "com.mcode.usage"
  | .Ui => "com.mcode.ui"

structure CredentialVersion where
  value : Nat
  atLeast : 1 ≤ value
  atMost : value ≤ MAX_SIGNED
  deriving DecidableEq

def CredentialVersion.FIRST : CredentialVersion := ⟨1, by decide, by decide⟩

def CredentialVersion.new (value : Nat) : Except ConfigErrorKind CredentialVersion :=
  if h : 1 ≤ value ∧ value ≤ MAX_SIGNED then .ok ⟨value, h.1, h.2⟩ else .error authorityError

theorem CredentialVersion.one_le_next (self : CredentialVersion) : 1 ≤ self.value + 1 :=
  Nat.le_add_left 1 _

def CredentialVersion.checkedIncrement (self : CredentialVersion) :
    Except ConfigErrorKind CredentialVersion :=
  if h : self.value + 1 ≤ MAX_SIGNED then .ok ⟨self.value + 1, self.one_le_next, h⟩
  else .error .RevisionExhausted

structure Secret where
  bytes : List UInt8
  nonempty : 1 ≤ bytes.length
  bounded : bytes.length ≤ MAX_SECRET_BYTES
  deriving DecidableEq

def Secret.fromInput (bytes : List UInt8) : Except ConfigErrorKind Secret :=
  if h : 1 ≤ bytes.length ∧ bytes.length ≤ MAX_SECRET_BYTES then .ok ⟨bytes, h.1, h.2⟩
  else .error authorityError

structure Sha256Digest where
  text : String
  valid : isValidSha256Digest text = true
  deriving DecidableEq

structure Credential where
  serviceId : String
  accountId : String
  issuerId : String
  authSchemaId : String
  credentialVersion : CredentialVersion
  state : CredentialState
  secretBase64Url : Option Secret
  deriving DecidableEq

structure Grant where
  consumerFamily : ConsumerFamily
  managerId : String
  packId : String
  operationId : String
  serviceId : String
  accountId : String
  authorityDigest : String
  deriving DecidableEq

structure VaultDocument where
  formatVersion : Nat
  kind : String
  revision : Nat
  credentials : List Credential
  grants : List Grant
  deriving DecidableEq

/-! ## Keys -/

abbrev CredentialKey := String ×ₗ String

abbrev GrantTuple := String ×ₗ String ×ₗ String ×ₗ String

def credentialKey (credential : Credential) : CredentialKey :=
  toLex (credential.serviceId, credential.accountId)

/-- `grant_key` and `grant_tuple`. -/
def grantTuple (grant : Grant) : GrantTuple :=
  toLex (grant.consumerFamily.sortKey, toLex (grant.managerId,
    toLex (grant.packId, grant.operationId)))

theorem credentialKey_eq {a b : Credential} :
    credentialKey a = credentialKey b ↔ a.serviceId = b.serviceId ∧ a.accountId = b.accountId := by
  unfold credentialKey
  rw [toLex_inj, Prod.mk.injEq]

/-! ## Validation -/

def validateGrantCoordinates (consumerFamily : ConsumerFamily)
    (managerId packId operationId : String) : Except ConfigErrorKind Unit := do
  reject (!isValidOperationId operationId) authorityError
  reject (managerId != pluginId consumerFamily.pluginFamily || !isValidPortableId packId)
    authorityError

def validateGrant (grant : Grant) : Except ConfigErrorKind Unit := do
  validateGrantCoordinates grant.consumerFamily grant.managerId grant.packId grant.operationId
  validateLocalId grant.serviceId
  validateLocalId grant.accountId
  reject (!isValidSha256Digest grant.authorityDigest) authorityError

/-- One round over the credentials: what is active counts. -/
def validateCredential (active : Nat) (credential : Credential) : Except ConfigErrorKind Nat := do
  validateLocalId credential.serviceId
  validateLocalId credential.accountId
  validateLocalId credential.issuerId
  validateLocalId credential.authSchemaId
  match credential.state, credential.secretBase64Url with
  | .Active, some _ => pure (active + 1)
  | .Revoked, none => pure active
  | _, _ => .error authorityError

/-- The active credentials that a grant references. -/
def references (credentials : List Credential) (grant : Grant) : Nat :=
  credentials.countP fun credential =>
    credential.state == .Active && credential.serviceId == grant.serviceId
      && credential.accountId == grant.accountId

def validateReference (credentials : List Credential) (grant : Grant) :
    Except ConfigErrorKind Unit := do
  validateGrant grant
  reject (references credentials grant != 1) authorityError

def validateDocument (document : VaultDocument) : Except ConfigErrorKind Unit := do
  reject (document.formatVersion != HOST_VAULT_FORMAT_VERSION || document.kind != HOST_VAULT_KIND
    || decide (MAX_SIGNED < document.revision)) authorityError
  let active ← document.credentials.foldlM validateCredential 0
  reject (decide (MAX_ACTIVE_CREDENTIALS < active)
    || decide (MAX_CREDENTIALS < document.credentials.length)) authorityError
  reject (SortedTable.anyNeighbours (fun a b => decide (credentialKey b ≤ credentialKey a))
    document.credentials) authorityError
  reject (decide (MAX_GRANTS < document.grants.length)) authorityError
  document.grants.forM (validateReference document.credentials)
  reject (SortedTable.anyNeighbours (fun a b => decide (grantTuple b ≤ grantTuple a))
    document.grants) authorityError

end MCode.Vault
