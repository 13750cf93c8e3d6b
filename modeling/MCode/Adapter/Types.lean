import MCode.Validation.Scalar

/-!
# The vocabulary of adapter contracts

`provider_validation/adapter/types.rs`: a contract describes the body of a
provider request as a tree of nodes that refer to each other by index.  A
node is a JSON object, array or constant, or takes its value from a request:
from one of its scalars, from each element of a collection, or by the variant
of one of its values.
-/

namespace MCode.Adapter

inductive AdapterWireId where
  | AnthropicMessages
  | OpenAiCompletions
  | OpenAiResponses
  | OpenAiCodexResponses
  | AzureOpenAiResponses
  | GoogleGenerativeAi
  | GoogleVertex
  | MistralConversations
  | BedrockConverseStream
  | PiMessages
  deriving DecidableEq, Repr

inductive AdapterDecoderKind where
  | AnthropicMessages
  | OpenAiCompletions
  | OpenAiResponses
  | OpenAiCodexResponses
  | AzureOpenAiResponses
  | GoogleGenerativeAi
  | GoogleVertex
  | MistralConversations
  | BedrockConverseStream
  | PiMessages
  deriving DecidableEq, Repr

inductive AdapterModelSource where
  | RequestedSelection
  | CurrentModel
  deriving DecidableEq, Repr

inductive PathSegment where
  | Key (key : String)
  | ArrayItem
  deriving DecidableEq, Repr

inductive AdapterCollection where
  | System
  | Messages
  | SystemMessages
  | Blocks
  | Tools
  deriving DecidableEq, Repr

inductive AdapterVariantSource where
  | ModelSelection
  | SystemMessageEntry
  | Message
  | UserBlock
  | AssistantBlock
  | ToolResultBlock
  | ToolResultStatus
  | ToolChoice
  | Reasoning
  | CacheRetention
  deriving DecidableEq, Repr

inductive AdapterScalarSource where
  | SelectedModel
  | SelectionKind
  | SystemItem
  | SystemJoined
  | MessageRole
  | BlockKind
  | BlockText
  | ToolResultCallId
  | ToolResultIsError
  | ToolResultStatus
  | ToolResultName
  | MistralToolResultContent
  | ToolCallId
  | ToolCallName
  | ToolCallArguments
  | ToolName
  | ToolDescription
  | ToolSchema
  | ReasoningKind
  | Proof
  | ImageBytes
  | ImageMediaType
  | ImageWidth
  | ImageHeight
  | ImageFrames
  | ImageDataUri
  | ToolChoiceKind
  | ToolChoiceName
  | ReasoningMode
  | ReasoningEffort
  | ReasoningBudget
  | CacheRetention
  | MaxOutput
  deriving DecidableEq, Repr

inductive AdapterTransform where
  | Identity
  | CheckedU32
  | CheckedU64
  | JsonSubtree
  | CanonicalJsonString
  | MistralToolResultContent
  | JoinLf
  | Base64StandardPadded
  | Base64StandardUnpadded
  | DataUri
  | EnumToken (table : Nat)
  deriving DecidableEq, Repr

inductive AdapterPresence where
  | Required
  | OmitIfNone
  | OmitForUnset
  deriving DecidableEq, Repr

inductive AdapterPresenceSource where
  | ReasoningProof
  | ReasoningEffort
  | ReasoningBudget
  | MaxOutput
  | ToolChoice
  | Reasoning
  | CacheRetention
  deriving DecidableEq, Repr

inductive AdapterEnumSource where
  | SelectionKind
  | MessageKind
  | UserBlockKind
  | AssistantBlockKind
  | ToolResultBlockKind
  | ToolResultStatus
  | ReasoningKind
  | ImageMediaType
  | ToolChoice
  | ReasoningMode
  | ReasoningEffort
  | CacheRetention
  deriving DecidableEq, Repr

inductive TypedJsonConstant where
  | Null
  | Boolean (value : Bool)
  | Number (value : String)
  | String (value : String)
  deriving DecidableEq, Repr

structure EnumTokenEntry where
  variantOrdinal : Nat
  token : String
  deriving DecidableEq, Repr

structure EnumTokenTable where
  source : AdapterEnumSource
  entries : List EnumTokenEntry
  deriving DecidableEq, Repr

structure ContractObject where
  children : List Nat
  deriving DecidableEq, Repr

structure ContractArray where
  collection : AdapterCollection
  item : Nat
  min : Nat
  max : Nat
  deriving DecidableEq, Repr

structure ContractCase where
  variantOrdinal : Nat
  node : Nat
  deriving DecidableEq, Repr

structure ContractSwitch where
  source : AdapterVariantSource
  cases : List ContractCase
  deriving DecidableEq, Repr

structure ContractValue where
  source : AdapterScalarSource
  transform : AdapterTransform
  deriving DecidableEq, Repr

structure ContractConstant where
  value : TypedJsonConstant
  deriving DecidableEq, Repr

inductive ContractNodeBody where
  | Object (object : ContractObject)
  | Array (array : ContractArray)
  | Switch (switch : ContractSwitch)
  | Value (value : ContractValue)
  | Constant (constant : ContractConstant)
  deriving DecidableEq, Repr

structure ContractNode where
  parent : Option Nat
  segment : Option PathSegment
  presence : AdapterPresence
  presenceSource : Option AdapterPresenceSource
  body : ContractNodeBody
  deriving DecidableEq, Repr

structure ContractTree where
  root : Nat
  nodes : List ContractNode
  tables : List EnumTokenTable
  deriving DecidableEq, Repr

structure FixedHeaderRule where
  name : String
  value : String
  deriving DecidableEq, Repr

structure OneOfHeaderRule where
  name : String
  values : List String
  required : Bool
  deriving DecidableEq, Repr

inductive OrdinaryHeaderRule where
  | Fixed (rule : FixedHeaderRule)
  | OneOf (rule : OneOfHeaderRule)
  deriving DecidableEq, Repr

structure AdapterContractV1 where
  version : Nat
  wireId : AdapterWireId
  modelSource : AdapterModelSource
  tree : ContractTree
  ordinaryHeaderRules : List OrdinaryHeaderRule
  decoderKind : AdapterDecoderKind
  deriving DecidableEq, Repr

inductive AdapterValidationError where
  | InvalidContract
  | SourceMismatch
  | BodyMismatch
  | HeaderMismatch
  | CapabilityMismatch
  | Limit
  deriving DecidableEq, Repr

abbrev AdapterValidationResult (α : Type) := Except AdapterValidationError α

def AdapterWireId.ordinal : AdapterWireId → Nat
  | .AnthropicMessages => 0
  | .OpenAiCompletions => 1
  | .OpenAiResponses => 2
  | .OpenAiCodexResponses => 3
  | .AzureOpenAiResponses => 4
  | .GoogleGenerativeAi => 5
  | .GoogleVertex => 6
  | .MistralConversations => 7
  | .BedrockConverseStream => 8
  | .PiMessages => 9

def AdapterDecoderKind.ordinal : AdapterDecoderKind → Nat
  | .AnthropicMessages => 0
  | .OpenAiCompletions => 1
  | .OpenAiResponses => 2
  | .OpenAiCodexResponses => 3
  | .AzureOpenAiResponses => 4
  | .GoogleGenerativeAi => 5
  | .GoogleVertex => 6
  | .MistralConversations => 7
  | .BedrockConverseStream => 8
  | .PiMessages => 9

def AdapterVariantSource.variantCount : AdapterVariantSource → Nat
  | .ModelSelection | .SystemMessageEntry | .UserBlock | .ToolResultBlock
  | .ToolResultStatus => 2
  | .Message | .AssistantBlock | .Reasoning => 3
  | .ToolChoice | .CacheRetention => 4

def AdapterEnumSource.variantCount : AdapterEnumSource → Nat
  | .SelectionKind | .UserBlockKind | .ToolResultBlockKind | .ToolResultStatus
  | .ReasoningKind => 2
  | .MessageKind | .AssistantBlockKind => 3
  | .ToolChoice | .ReasoningEffort | .CacheRetention => 4
  | .ImageMediaType => 5
  | .ReasoningMode => 3

/-! ## Errors of the validators below -/

open MCode.Validation (ValidationError ValidationResult)

/-- What an adapter makes of a refusal of the shared validators: an invalid
argument is `invalid`, a limit stays one. -/
def mapError {α : Type} (invalid : AdapterValidationError) (result : ValidationResult α) :
    AdapterValidationResult α :=
  result.mapError fun
    | .InvalidArgument => invalid
    | .Limit => .Limit

/-- `map_source_error`. -/
def mapSourceError {α : Type} : ValidationResult α → AdapterValidationResult α :=
  mapError .SourceMismatch

/-- `map_body_error`. -/
def mapBodyError {α : Type} : ValidationResult α → AdapterValidationResult α :=
  mapError .BodyMismatch

/-- `map_contract_error`. -/
def mapContractError {α : Type} : ValidationResult α → AdapterValidationResult α :=
  mapError .InvalidContract

/-- `map_limit_error`. -/
def mapLimitError {α : Type} : ValidationResult α → AdapterValidationResult α :=
  mapError .Limit

/-- How a call can end without a value: it does not return (an index out of
bounds, fuel that runs out), a `get` finds nothing, a source is taken that is
taken already, or another error is returned.  What finds nothing and what is
taken twice is reported as an invalid contract. -/
inductive Fault where
  | Stuck
  | Missing
  | Consumed
  | Refused (error : AdapterValidationError)
  deriving DecidableEq, Repr

abbrev Run (α : Type) := Except Fault α

/-- The error that a call returns. -/
def Fault.error : Fault → Option AdapterValidationError
  | .Stuck => none
  | .Missing => some .InvalidContract
  | .Consumed => some .InvalidContract
  | .Refused error => some error

/-- `get(index).ok_or(AdapterValidationError::InvalidContract)`. -/
def lookup {α : Type} (items : List α) (index : Nat) : Run α :=
  match items[index]? with
  | none => .error .Missing
  | some item => .ok item

/-- A call that returns. -/
def returned {α : Type} (result : AdapterValidationResult α) : Run α :=
  result.mapError .Refused

/-- `then_some(()).ok_or(error)`. -/
def ensure (condition : Bool) (error : AdapterValidationError) : AdapterValidationResult Unit :=
  if condition then .ok () else .error error

end MCode.Adapter
