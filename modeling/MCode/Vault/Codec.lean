import MCode.Lib.Base64
import MCode.Lib.Json
import MCode.Vault.Changes

/-!
# The text of a vault

`host_vault/model.rs`, `model/parser.rs` and `model/serializer.rs`: the members
of the document, each read once and all required, and secrets in Base64.  The
crates `serde_json` and `base64` are `Codecs`; what the vault relies on them for
is `Codecs.Lawful`.

A file that is not UTF-8 keeps nothing but its length.  The visitors read the
members while the text is parsed; here the text is parsed first, so of a text
with both kinds of defect the syntax is reported.
-/

namespace MCode.Vault

open MCode.Lib
open MCode.Lib.Results (bind_ok bind_unit_ok)

def MAX_HOST_VAULT_BYTES : Nat := 1024 * 1024

/-- Eight KiB encode to at most 10,923 characters. -/
def MAX_ENCODED_SECRET_BYTES : Nat := 10923

/-- `serde_json` writes and reads trees, with its error already classified;
`base64` is the engine `URL_SAFE_NO_PAD`. -/
structure Codecs where
  write : Json → String
  read : String → Except ConfigErrorKind Json
  encode : List UInt8 → String
  decode : String → Option (List UInt8)

/-- `serde_json` reads at most so many nested containers. -/
def SERDE_DEPTH : Nat := 127

structure Codecs.Lawful (codecs : Codecs) : Prop where
  read_write : ∀ tree : Json, tree.plain SERDE_DEPTH →
    codecs.read (codecs.write tree ++ "\n") = .ok tree
  unescaped : ∀ tree : Json, tree.plain SERDE_DEPTH → '\\' ∉ (codecs.write tree).toList
  decode_encode : ∀ bytes, codecs.decode (codecs.encode bytes) = some bytes
  encode_length : ∀ bytes,
    (codecs.encode bytes).utf8ByteSize = Base64.textLength bytes.length
  encode_plain : ∀ bytes, Json.plainString (codecs.encode bytes)

inductive FileBytes where
  | utf8 (text : String)
  | other (length : Nat)
  deriving DecidableEq

def FileBytes.len : FileBytes → Nat
  | .utf8 text => text.utf8ByteSize
  | .other length => length

variable (codecs : Codecs)

/-! ## Writing -/

def stateText : CredentialState → String
  | .Active => "active"
  | .Revoked => "revoked"

def secretText (secret : Secret) : Except ConfigErrorKind String :=
  let encoded := codecs.encode secret.bytes
  if encoded.utf8ByteSize = Base64.textLength secret.bytes.length then .ok encoded
  else .error .Serialization

def secretTree : Option Secret → Except ConfigErrorKind Json
  | none => .ok .null
  | some secret => (secretText codecs secret).map .string

def credentialMembers (credential : Credential) (secret : Json) : List (String × Json) := [
  ("serviceId", .string credential.serviceId),
  ("accountId", .string credential.accountId),
  ("issuerId", .string credential.issuerId),
  ("authSchemaId", .string credential.authSchemaId),
  ("credentialVersion", .natural credential.credentialVersion.value),
  ("state", .string (stateText credential.state)),
  ("secretBase64Url", secret)]

def credentialTree (credential : Credential) : Except ConfigErrorKind Json := do
  let secret ← secretTree codecs credential.secretBase64Url
  pure (.object (credentialMembers credential secret))

def grantMembers (grant : Grant) : List (String × Json) := [
  ("consumerFamily", .string grant.consumerFamily.sortKey),
  ("managerId", .string grant.managerId),
  ("packId", .string grant.packId),
  ("operationId", .string grant.operationId),
  ("serviceId", .string grant.serviceId),
  ("accountId", .string grant.accountId),
  ("authorityDigest", .string grant.authorityDigest)]

def grantTree (grant : Grant) : Json := .object (grantMembers grant)

def documentMembers (document : VaultDocument) (credentials : List Json) : List (String × Json) := [
  ("formatVersion", .natural document.formatVersion),
  ("kind", .string document.kind),
  ("revision", .natural document.revision),
  ("credentials", .array credentials),
  ("grants", .array (document.grants.map grantTree))]

def documentTree (document : VaultDocument) : Except ConfigErrorKind Json := do
  let credentials ← document.credentials.mapM (credentialTree codecs)
  pure (.object (documentMembers document credentials))

def serializeDocument (document : VaultDocument) : Except ConfigErrorKind FileBytes := do
  let tree ← documentTree codecs document
  reject (decide (MAX_HOST_VAULT_BYTES - 1 < (codecs.write tree).utf8ByteSize)) .Serialization
  pure (.utf8 (codecs.write tree ++ "\n"))

/-! ## Reading -/

def borrowedString : Json → Except ConfigErrorKind String
  | .string value => .ok value
  | _ => .error authorityError

def u64Value : Json → Except ConfigErrorKind Nat
  | .natural value => .ok value
  | _ => .error authorityError

def vaultArray {α : Type} (item : Json → Except ConfigErrorKind α) :
    Json → Except ConfigErrorKind (List α)
  | .array items => items.mapM item
  | _ => .error authorityError

def credentialState : Json → Except ConfigErrorKind CredentialState
  | .string "active" => .ok .Active
  | .string "revoked" => .ok .Revoked
  | _ => .error authorityError

def consumerFamily : Json → Except ConfigErrorKind ConsumerFamily
  | .string "providers" => .ok .Providers
  | .string "web" => .ok .Web
  | .string "usage" => .ok .Usage
  | _ => .error authorityError

def decodedCapacity (length : Nat) : Option Nat :=
  match length % 4 with
  | 0 => some (length / 4 * 3)
  | 2 => some (length / 4 * 3 + 1)
  | 3 => some (length / 4 * 3 + 2)
  | _ => none

def decodeSecret (encoded : String) : Except ConfigErrorKind Secret := do
  reject (encoded.utf8ByteSize == 0 || decide (MAX_ENCODED_SECRET_BYTES < encoded.utf8ByteSize))
    authorityError
  match decodedCapacity encoded.utf8ByteSize, codecs.decode encoded with
  | some capacity, some bytes =>
      reject (bytes.length != capacity) authorityError
      Secret.fromInput bytes
  | _, _ => .error authorityError

def optionalSecret : Json → Except ConfigErrorKind (Option Secret)
  | .null => .ok none
  | .string value => (decodeSecret codecs value).map some
  | _ => .error authorityError

/-- `visit_map`: every member is known and comes once. -/
def readMembers (known : List String) (slots : List (String × Json)) :
    List (String × Json) → Except ConfigErrorKind (List (String × Json))
  | [] => .ok slots
  | (name, value) :: members => do
      reject (!known.contains name || (slots.map Prod.fst).contains name) authorityError
      readMembers known (slots ++ [(name, value)]) members

def required (slots : List (String × Json)) (name : String) : Except ConfigErrorKind Json :=
  match slots.lookup name with
  | some value => .ok value
  | none => .error authorityError

def visitMap (known : List String) : Json → Except ConfigErrorKind (List (String × Json))
  | .object members => readMembers known [] members
  | _ => .error authorityError

def credentialFields : List String :=
  ["serviceId", "accountId", "issuerId", "authSchemaId", "credentialVersion", "state",
    "secretBase64Url"]

def readCredential (tree : Json) : Except ConfigErrorKind Credential := do
  let slots ← visitMap credentialFields tree
  let serviceId ← required slots "serviceId" >>= borrowedString
  let accountId ← required slots "accountId" >>= borrowedString
  let issuerId ← required slots "issuerId" >>= borrowedString
  let authSchemaId ← required slots "authSchemaId" >>= borrowedString
  let credentialVersion ← required slots "credentialVersion" >>= u64Value >>= CredentialVersion.new
  let state ← required slots "state" >>= credentialState
  let secretBase64Url ← required slots "secretBase64Url" >>= optionalSecret codecs
  pure { serviceId, accountId, issuerId, authSchemaId, credentialVersion, state, secretBase64Url }

def grantFields : List String :=
  ["consumerFamily", "managerId", "packId", "operationId", "serviceId", "accountId",
    "authorityDigest"]

def readGrant (tree : Json) : Except ConfigErrorKind Grant := do
  let slots ← visitMap grantFields tree
  let consumerFamily ← required slots "consumerFamily" >>= consumerFamily
  let managerId ← required slots "managerId" >>= borrowedString
  let packId ← required slots "packId" >>= borrowedString
  let operationId ← required slots "operationId" >>= borrowedString
  let serviceId ← required slots "serviceId" >>= borrowedString
  let accountId ← required slots "accountId" >>= borrowedString
  let authorityDigest ← required slots "authorityDigest" >>= borrowedString
  pure { consumerFamily, managerId, packId, operationId, serviceId, accountId, authorityDigest }

def documentFields : List String := ["formatVersion", "kind", "revision", "credentials", "grants"]

def readDocument (tree : Json) : Except ConfigErrorKind VaultDocument := do
  let slots ← visitMap documentFields tree
  let formatVersion ← required slots "formatVersion" >>= u64Value
  reject (decide (2 ^ 32 ≤ formatVersion)) authorityError
  let kind ← required slots "kind" >>= borrowedString
  let revision ← required slots "revision" >>= u64Value
  let credentials ← required slots "credentials" >>= vaultArray (readCredential codecs)
  let grants ← required slots "grants" >>= vaultArray readGrant
  pure { formatVersion, kind, revision, credentials, grants }

def parseVault : FileBytes → Except ConfigErrorKind VaultDocument
  | .other _ => .error .NonUtf8
  | .utf8 text => do
      reject (text.toList.contains '\\') authorityError
      let document ← codecs.read text >>= readDocument codecs
      validateDocument document
      pure document

end MCode.Vault
