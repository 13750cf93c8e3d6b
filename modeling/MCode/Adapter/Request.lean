import MCode.Validation.WireJson
import MCode.Vault.Model

/-!
# Requests

The records of `provider.wit` that a completion request is made of, and the
checks of `scalar.rs` and `catalog.rs` on their parts.
-/

namespace MCode.Adapter

open MCode.Validation (ValidationResult WireJsonDocument utf8Len safe label modelId
  isAsciiAlphanumeric)
open MCode.Routes.Identity (IdKind)

inductive ModelSelection where
  | Exact (value : String)
  | Alias (value : String)
  deriving DecidableEq, Repr

inductive CapabilitySupport where
  | Unknown
  | Unsupported
  | Supported
  deriving DecidableEq, Repr

inductive InputModality where
  | Unknown
  | Text
  | Image
  deriving DecidableEq, Repr

structure ToolCapability where
  tools : CapabilitySupport
  autoChoice : CapabilitySupport
  noneChoice : CapabilitySupport
  specificChoice : CapabilitySupport
  deriving DecidableEq, Repr

structure ReasoningCapability where
  reasoning : CapabilitySupport
  effort : CapabilitySupport
  budget : CapabilitySupport
  proof : CapabilitySupport
  deriving DecidableEq, Repr

structure CatalogEntry where
  selection : ModelSelection
  currentModel : String
  displayName : Option String
  inputModalities : List InputModality
  toolCapability : ToolCapability
  reasoningCapability : ReasoningCapability
  contextTokens : Option Nat
  maxOutputTokens : Option Nat
  completionOperation : String
  deriving DecidableEq, Repr

/-! ## The blocks of a message -/

structure TextBlock where
  text : String

inductive ImageMediaType where
  | Png
  | Jpeg
  | Gif
  | Webp
  | Tiff
  deriving DecidableEq, Repr

structure ImageMetadata where
  width : Nat
  height : Nat
  frames : Nat

structure ImageView where
  stamp : String
  mediaType : ImageMediaType
  bytes : List UInt8
  metadata : ImageMetadata

inductive ReasoningKind where
  | Thinking
  | Summary
  deriving DecidableEq, Repr

structure ReasoningProofView where
  stamp : String
  sourceRequestId : String
  sourceTurnId : String
  sourceContentIndex : Nat
  reasoningKind : ReasoningKind
  proof : List UInt8

structure ReasoningBlock where
  kind : ReasoningKind
  text : String
  proof : Option ReasoningProofView

structure ToolCallBlock where
  callId : String
  name : String
  arguments : WireJsonDocument

inductive UserBlock where
  | Text (block : TextBlock)
  | Image (image : ImageView)

inductive AssistantBlock where
  | Text (block : TextBlock)
  | Reasoning (block : ReasoningBlock)
  | ToolCall (call : ToolCallBlock)

inductive ToolResultBlock where
  | Text (block : TextBlock)
  | Image (image : ImageView)

structure UserMessage where
  blocks : List UserBlock

structure AssistantMessage where
  blocks : List AssistantBlock

structure ToolResultMessage where
  callId : String
  blocks : List ToolResultBlock
  isError : Bool

inductive Message where
  | User (message : UserMessage)
  | Assistant (message : AssistantMessage)
  | ToolResult (message : ToolResultMessage)

structure ToolDefinition where
  name : String
  description : String
  inputSchema : WireJsonDocument

structure SpecificToolChoice where
  name : String

inductive ToolChoice where
  | Unset
  | Auto
  | None
  | Specific (choice : SpecificToolChoice)

inductive ReasoningEffort where
  | Minimal
  | Low
  | Medium
  | High
  deriving DecidableEq, Repr

structure EnabledReasoning where
  effort : Option ReasoningEffort
  budgetTokens : Option Nat

inductive Reasoning where
  | Unset
  | Disabled
  | Enabled (enabled : EnabledReasoning)

inductive CacheRetention where
  | Unset
  | None
  | Request
  | Session
  deriving DecidableEq, Repr

structure PrepareInput where
  providerId : String
  routeId : String
  catalogDigest : String
  selection : ModelSelection
  currentModel : String
  operationId : String
  requestId : String
  turnId : String
  system : List String
  messages : List Message
  tools : List ToolDefinition
  toolChoice : ToolChoice
  reasoning : Reasoning
  cacheRetention : CacheRetention
  maxOutputTokens : Option Nat

structure OrdinaryHeader where
  name : String
  value : String
  deriving DecidableEq, Repr

/-! ## `scalar.rs` -/

/-- `then_some(()).ok_or(ValidationError::InvalidArgument)`. -/
def valid (condition : Bool) : ValidationResult Unit :=
  if condition then .ok () else .error .InvalidArgument

/-- `ProviderId::parse`, of which only the verdict is used, as below. -/
def providerId (value : String) : ValidationResult Unit := valid (IdKind.provider.accepts value)

def routeId (value : String) : ValidationResult Unit := valid (IdKind.route.accepts value)

def modelAlias (value : String) : ValidationResult Unit := valid (IdKind.alias.accepts value)

def requestId (value : String) : ValidationResult Unit := valid (IdKind.request.accepts value)

def turnId (value : String) : ValidationResult Unit := valid (IdKind.turn.accepts value)

def digest (value : String) : ValidationResult Unit :=
  valid (MCode.Vault.isValidSha256Digest value)

def isAsciiLowercase (c : Char) : Bool := 'a' ≤ c && c ≤ 'z'

def isAsciiDigit (c : Char) : Bool := '0' ≤ c && c ≤ '9'

def isSeparator (c : Char) : Bool := c == '.' || c == '_' || c == '-'

/-- `windows(2).any` with two separators. -/
def hasDoubleSeparator : List Char → Bool
  | first :: second :: rest =>
      (isSeparator first && isSeparator second) || hasDoubleSeparator (second :: rest)
  | _ => false

def isValidOperationId (value : String) : Bool :=
  let text := value.toList
  (1 ≤ utf8Len text && utf8Len text ≤ 128)
    && text.head?.any isAsciiLowercase
    && text.all (fun c => isAsciiLowercase c || isAsciiDigit c || isSeparator c)
    && !text.getLast?.any isSeparator
    && !hasDoubleSeparator text

def operationId (value : String) : ValidationResult Unit := valid (isValidOperationId value)

def visibleAscii (value : String) (maximum : Nat) : ValidationResult Unit :=
  let text := value.toList
  if utf8Len text > maximum then .error .Limit
  else valid (!text.isEmpty && text.all (fun c => '!' ≤ c && c ≤ '~'))

def stamp (value front : String) : ValidationResult Unit :=
  if front.toList.isPrefixOf value.toList then
    let suffix := value.toList.drop front.toList.length
    valid (utf8Len suffix == 32 && suffix.all (fun c => isAsciiDigit c || ('a' ≤ c && c ≤ 'f')))
  else .error .InvalidArgument

/-! ## `catalog.rs` -/

def MAX_CATALOG_ENTRIES : Nat := 4096

def sameSelection (left right : ModelSelection) : Bool :=
  match left, right with
  | .Exact left, .Exact right => left == right
  | .Alias left, .Alias right => left == right
  | _, _ => false

def isSupported (value : CapabilitySupport) : Bool := value == .Supported

def modalityOrdinal : InputModality → Nat
  | .Unknown => 0
  | .Text => 1
  | .Image => 2

def validateSelection : ModelSelection → ValidationResult Unit
  | .Exact value => modelId value
  | .Alias value => modelAlias value

/-- `windows(2).any` with two modalities that are not in their order. -/
def hasUnorderedModalities : List InputModality → Bool
  | first :: second :: rest =>
      decide (modalityOrdinal first ≥ modalityOrdinal second)
        || hasUnorderedModalities (second :: rest)
  | _ => false

def validateModalities (modalities : List InputModality) : ValidationResult Unit :=
  if modalities.isEmpty || modalities.length > 3 then .error .Limit
  else if modalities.length > 1 && modalities.any (· == .Unknown) then .error .InvalidArgument
  else if hasUnorderedModalities modalities then .error .InvalidArgument
  else .ok ()

def validatePositive (value : Option Nat) : ValidationResult Unit :=
  if value == some 0 then .error .InvalidArgument else .ok ()

def validateDisplayName : Option String → ValidationResult Unit
  | some name => label name 256
  | none => .ok ()

def validateCatalogEntry (entry : CatalogEntry) : ValidationResult Unit := do
  validateSelection entry.selection
  modelId entry.currentModel
  validateDisplayName entry.displayName
  validateModalities entry.inputModalities
  validatePositive entry.contextTokens
  validatePositive entry.maxOutputTokens
  operationId entry.completionOperation
  match entry.selection with
  | .Exact model => valid (model == entry.currentModel)
  | .Alias _ => .ok ()

/-- `selection_key`. -/
def selectionKey : ModelSelection → Nat × String
  | .Exact value => (0, value)
  | .Alias value => (1, value)

/-- `compare_key(old, key) != Ordering::Less`. -/
def keyNotBelow (old key : Nat × String) : Bool :=
  !(decide (old.1 < key.1) || (old.1 == key.1 && decide (old.2.toList < key.2.toList)))

/-- The loop of `validate_catalog_entries`. -/
def validateEntries : List CatalogEntry → Option (Nat × String) → List String →
    ValidationResult Unit
  | [], _, _ => .ok ()
  | entry :: entries, previous, payloads => do
      validateCatalogEntry entry
      let key := selectionKey entry.selection
      if previous.any (keyNotBelow · key) then .error .InvalidArgument
      else if payloads.contains key.2 then .error .InvalidArgument
      else validateEntries entries (some key) (key.2 :: payloads)

def validateCatalogEntries (entries : List CatalogEntry) : ValidationResult Unit :=
  if entries.length > MAX_CATALOG_ENTRIES then .error .Limit
  else validateEntries entries none []

end MCode.Adapter
