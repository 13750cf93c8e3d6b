import MCode.Adapter.Types
import MCode.Adapter.Request

/-!
# Validation of a request

`prepare.rs`: what a completion request has to be, with its charge, and which
tool call each tool result answers; and the request policy of
`adapter/policy.rs`.
-/

namespace MCode.Adapter

open MCode.Validation (ValidationResult LogicalCharge WireJsonStats MAX_LOGICAL_CHARGE
  MAX_SAFE_TEXT_BYTES U64_MAX checkedAdd checkedLen safe label trackingId modelId
  validateWireJson)

def MAX_SYSTEM_PARTS : Nat := 1024
def MAX_MESSAGES : Nat := 4096
def MAX_TOOLS : Nat := 1024
def MAX_BLOCKS : Nat := 4096
def MAX_IMAGE_BYTES : Nat := 8 * 1024 * 1024
def MAX_PROOF_BYTES : Nat := 64 * 1024
def MAX_PROOFS_BYTES : Nat := 256 * 1024
def MAX_IMAGE_DIMENSION : Nat := 16384
def MAX_IMAGE_FRAMES : Nat := 64

structure SelectedCatalogView where
  providerId : String
  routeId : String
  catalogDigest : String
  entry : CatalogEntry

inductive ToolResultStatus where
  | Success
  | Error
  deriving DecidableEq, Repr

structure MatchedToolResult where
  callId : String
  name : String
  status : ToolResultStatus
  deriving DecidableEq, Repr

/-- A map from call ids, in the order of insertion. -/
abbrev MatchedToolResults := List (String × MatchedToolResult)

structure ValidatedPrepare where
  logicalCharge : Nat
  matchedToolResults : MatchedToolResults

/-! ## Parts of a request -/

def validateListMax (length maximum : Nat) : ValidationResult Unit :=
  if length > maximum then .error .Limit else .ok ()

def validateNonemptyBlocks (length : Nat) : ValidationResult Unit :=
  if length == 0 then .error .InvalidArgument else validateListMax length MAX_BLOCKS

def validateSelectedBinding (input : PrepareInput) (selected : SelectedCatalogView) :
    ValidationResult Unit := do
  providerId selected.providerId
  routeId selected.routeId
  digest selected.catalogDigest
  if input.providerId != selected.providerId || input.routeId != selected.routeId
      || input.catalogDigest != selected.catalogDigest
      || !sameSelection input.selection selected.entry.selection
      || input.currentModel != selected.entry.currentModel
      || input.operationId != selected.entry.completionOperation then .error .InvalidArgument
  else .ok ()

def chargeSelection (selection : ModelSelection) (charge : LogicalCharge) :
    ValidationResult LogicalCharge := do
  let charge ← charge.add 4
  match selection with
  | .Exact value =>
      modelId value
      charge.string value
  | .Alias value =>
      modelAlias value
      charge.string value

def validateSystemPart (charge : LogicalCharge) (part : String) :
    ValidationResult LogicalCharge := do
  safe part MAX_SAFE_TEXT_BYTES false
  charge.string part

/-- The loop of `validate_tools`: the names defined so far, and the charge. -/
def validateTools : List ToolDefinition → List String → LogicalCharge →
    ValidationResult (List String × LogicalCharge)
  | [], definitions, charge => .ok (definitions, charge)
  | tool :: tools, definitions, charge => do
      label tool.name 128
      safe tool.description MAX_SAFE_TEXT_BYTES false
      let schema ← validateWireJson tool.inputSchema true
      if definitions.contains tool.name then .error .InvalidArgument
      else
        let charge ← charge.string tool.name
        let charge ← charge.string tool.description
        let charge ← charge.add schema.logicalCharge
        validateTools tools (tool.name :: definitions) charge

def validateText (text : String) (charge : LogicalCharge) : ValidationResult LogicalCharge := do
  safe text MAX_SAFE_TEXT_BYTES true
  charge.string text

def validateImage (image : ImageView) (selected : CatalogEntry) (charge : LogicalCharge) :
    ValidationResult LogicalCharge := do
  stamp image.stamp "img1-"
  if image.bytes.isEmpty then .error .InvalidArgument
  else if image.bytes.length > MAX_IMAGE_BYTES then .error .Limit
  else if !(1 ≤ image.metadata.width && image.metadata.width ≤ MAX_IMAGE_DIMENSION)
      || !(1 ≤ image.metadata.height && image.metadata.height ≤ MAX_IMAGE_DIMENSION)
      || !(1 ≤ image.metadata.frames && image.metadata.frames ≤ MAX_IMAGE_FRAMES)
      || !selected.inputModalities.any (· == .Image) then .error .InvalidArgument
  else
    let charge ← charge.string image.stamp
    let charge ← charge.add 4
    let charge ← charge.add 4
    let charge ← charge.add (← checkedLen image.bytes.length)
    charge.add 12

/-- The proof of a reasoning block: the bytes of all proofs so far, and the charge. -/
def validateProof (kind : ReasoningKind) (proof : ReasoningProofView) (selected : CatalogEntry)
    (proofBytes : Nat) (charge : LogicalCharge) : ValidationResult (Nat × LogicalCharge) := do
  if kind != proof.reasoningKind || !isSupported selected.reasoningCapability.proof then
    .error .InvalidArgument
  else
    stamp proof.stamp "prf1-"
    requestId proof.sourceRequestId
    turnId proof.sourceTurnId
    if proof.sourceContentIndex > 63 then .error .InvalidArgument
    else if proof.proof.isEmpty then .error .InvalidArgument
    else if proof.proof.length > MAX_PROOF_BYTES then .error .Limit
    else
      let proofBytes ← checkedAdd proofBytes (← checkedLen proof.proof.length)
      if proofBytes > MAX_PROOFS_BYTES then .error .Limit
      else
        let charge ← charge.string proof.stamp
        let charge ← charge.string proof.sourceRequestId
        let charge ← charge.string proof.sourceTurnId
        let charge ← charge.add 1
        let charge ← charge.add 4
        let charge ← charge.add 4
        let charge ← charge.add (← checkedLen proof.proof.length)
        return (proofBytes, charge)

def validateReasoningBlock (block : ReasoningBlock) (selected : CatalogEntry) (proofBytes : Nat)
    (charge : LogicalCharge) : ValidationResult (Nat × LogicalCharge) := do
  if !isSupported selected.reasoningCapability.reasoning then .error .InvalidArgument
  else
    let charge ← charge.add 4
    let charge ← validateText block.text charge
    let charge ← charge.add 4
    match block.proof with
    | none => .ok (proofBytes, charge)
    | some proof => validateProof block.kind proof selected proofBytes charge

/-! ## Messages -/

/-- The variables of the loop over the messages. -/
structure MessageState where
  /-- The calls that wait for a result, with their names. -/
  pending : List (String × String)
  callIds : List String
  proofBytes : Nat
  hasCalls : Bool
  matchedToolResults : MatchedToolResults
  charge : LogicalCharge

def validateUserBlock (selected : CatalogEntry) (charge : LogicalCharge) :
    UserBlock → ValidationResult LogicalCharge
  | .Text text => do validateText text.text (← charge.add 4)
  | .Image image => do validateImage image selected (← charge.add 4)

def validateToolResultBlock (selected : CatalogEntry) (charge : LogicalCharge) :
    ToolResultBlock → ValidationResult LogicalCharge
  | .Text text => do validateText text.text (← charge.add 4)
  | .Image image => do validateImage image selected (← charge.add 4)

def validateToolCall (definitions : List String) (state : MessageState) (call : ToolCallBlock) :
    ValidationResult MessageState := do
  trackingId call.callId
  label call.name 128
  if state.callIds.contains call.callId || !definitions.contains call.name then
    .error .InvalidArgument
  else
    let statistics ← validateWireJson call.arguments true
    let charge ← state.charge.string call.callId
    let charge ← charge.string call.name
    let charge ← charge.add statistics.logicalCharge
    return { state with
      callIds := call.callId :: state.callIds
      pending := state.pending ++ [(call.callId, call.name)]
      hasCalls := true
      charge := charge }

def validateAssistantBlock (definitions : List String) (selected : CatalogEntry)
    (state : MessageState) (block : AssistantBlock) : ValidationResult MessageState := do
  let charge ← state.charge.add 4
  match block with
  | .Text text =>
      let charge ← validateText text.text charge
      return { state with charge := charge }
  | .Reasoning reasoning =>
      let (proofBytes, charge) ←
        validateReasoningBlock reasoning selected state.proofBytes charge
      return { state with proofBytes := proofBytes, charge := charge }
  | .ToolCall call => validateToolCall definitions { state with charge := charge } call

def resultStatus (isError : Bool) : ToolResultStatus := if isError then .Error else .Success

/-- The result that answers the first call that waits. -/
def validateToolResult (selected : CatalogEntry) (state : MessageState)
    (result : ToolResultMessage) : ValidationResult MessageState :=
  match state.pending with
  | [] => .error .InvalidArgument
  | (callId, name) :: pending => do
      if result.callId != callId then .error .InvalidArgument
      else
        trackingId result.callId
        validateNonemptyBlocks result.blocks.length
        let charge ← state.charge.string result.callId
        let charge ← charge.add 4
        let charge ← result.blocks.foldlM (validateToolResultBlock selected) charge
        let charge ← charge.add 1
        if state.matchedToolResults.any (·.1 == callId) then .error .InvalidArgument
        else
          return { state with
            pending := pending
            matchedToolResults :=
              (callId, ⟨callId, name, resultStatus result.isError⟩) :: state.matchedToolResults
            charge := charge }

def validateMessage (definitions : List String) (selected : CatalogEntry) (state : MessageState)
    (message : Message) : ValidationResult MessageState := do
  let charge ← state.charge.add 4
  match message with
  | .User user =>
      if !state.pending.isEmpty then .error .InvalidArgument
      else
        validateNonemptyBlocks user.blocks.length
        let charge ← charge.add 4
        let charge ← user.blocks.foldlM (validateUserBlock selected) charge
        return { state with charge := charge }
  | .Assistant assistant =>
      if !state.pending.isEmpty then .error .InvalidArgument
      else
        validateNonemptyBlocks assistant.blocks.length
        let charge ← charge.add 4
        assistant.blocks.foldlM (validateAssistantBlock definitions selected)
          { state with charge := charge }
  | .ToolResult result => validateToolResult selected { state with charge := charge } result

/-- `validate_messages`; the facts are those of the final state. -/
def validateMessages (messages : List Message) (definitions : List String)
    (selected : CatalogEntry) (charge : LogicalCharge) : ValidationResult MessageState := do
  let state ← messages.foldlM (validateMessage definitions selected)
    ⟨[], [], 0, false, [], charge⟩
  if !state.pending.isEmpty then .error .InvalidArgument else .ok state

/-! ## Options -/

def validateToolChoice (input : PrepareInput) (selected : CatalogEntry) (charge : LogicalCharge) :
    ValidationResult LogicalCharge := do
  let charge ← charge.add 4
  match input.toolChoice with
  | .Unset => .ok charge
  | .Auto =>
      if input.tools.isEmpty || !isSupported selected.toolCapability.tools
          || !isSupported selected.toolCapability.autoChoice then .error .InvalidArgument
      else .ok charge
  | .None =>
      if !isSupported selected.toolCapability.noneChoice then .error .InvalidArgument
      else .ok charge
  | .Specific choice =>
      let charge ← charge.string choice.name
      label choice.name 128
      if input.tools.length != 1 || input.tools.head?.any (·.name != choice.name)
          || !isSupported selected.toolCapability.tools
          || !isSupported selected.toolCapability.specificChoice then .error .InvalidArgument
      else .ok charge

def validateEffort (effort : Option ReasoningEffort) (selected : CatalogEntry)
    (charge : LogicalCharge) : ValidationResult LogicalCharge :=
  match effort with
  | none => .ok charge
  | some _ => do
      let charge ← charge.add 4
      if !isSupported selected.reasoningCapability.effort then .error .InvalidArgument
      else .ok charge

def validateBudget (budget : Option Nat) (selected : CatalogEntry) (charge : LogicalCharge) :
    ValidationResult LogicalCharge :=
  match budget with
  | none => .ok charge
  | some budget => do
      let charge ← charge.add 8
      if budget == 0 || !isSupported selected.reasoningCapability.budget then
        .error .InvalidArgument
      else .ok charge

def validateReasoning (reasoning : Reasoning) (selected : CatalogEntry) (charge : LogicalCharge) :
    ValidationResult LogicalCharge := do
  let charge ← charge.add 4
  match reasoning with
  | .Unset => .ok charge
  | .Disabled =>
      if isSupported selected.reasoningCapability.reasoning then .ok charge
      else .error .InvalidArgument
  | .Enabled enabled =>
      if !isSupported selected.reasoningCapability.reasoning then .error .InvalidArgument
      else
        let charge ← charge.add 4
        let charge ← validateEffort enabled.effort selected charge
        let charge ← charge.add 4
        validateBudget enabled.budgetTokens selected charge

def validateMaxOutput (maximum : Option Nat) (selected : CatalogEntry) (charge : LogicalCharge) :
    ValidationResult LogicalCharge := do
  let charge ← charge.add 4
  match maximum with
  | none => .ok charge
  | some maximum =>
      let charge ← charge.add 8
      if maximum == 0 || selected.maxOutputTokens.all (maximum > ·) then .error .InvalidArgument
      else .ok charge

/-- `validate_prepare_input`. -/
def validatePrepareInput (input : PrepareInput) (selected : SelectedCatalogView) :
    ValidationResult ValidatedPrepare := do
  validateSelectedBinding input selected
  validateCatalogEntries [selected.entry]
  let charge ← (LogicalCharge.new MAX_LOGICAL_CHARGE).string input.providerId
  let charge ← charge.string input.routeId
  let charge ← charge.string input.catalogDigest
  let charge ← chargeSelection input.selection charge
  let charge ← charge.string input.currentModel
  let charge ← charge.string input.operationId
  let charge ← charge.string input.requestId
  let charge ← charge.string input.turnId
  providerId input.providerId
  routeId input.routeId
  digest input.catalogDigest
  modelId input.currentModel
  operationId input.operationId
  requestId input.requestId
  turnId input.turnId
  validateListMax input.system.length MAX_SYSTEM_PARTS
  let charge ← charge.add 4
  let charge ← input.system.foldlM validateSystemPart charge
  validateListMax input.tools.length MAX_TOOLS
  let charge ← charge.add 4
  let (definitions, charge) ← validateTools input.tools [] charge
  validateListMax input.messages.length MAX_MESSAGES
  let charge ← charge.add 4
  let facts ← validateMessages input.messages definitions selected.entry charge
  let charge ← validateToolChoice input selected.entry facts.charge
  let charge ← validateReasoning input.reasoning selected.entry charge
  let charge ← charge.add 4
  let charge ← validateMaxOutput input.maxOutputTokens selected.entry charge
  if (!input.tools.isEmpty || facts.hasCalls)
      && !isSupported selected.entry.toolCapability.tools then .error .InvalidArgument
  else return ⟨charge.value, facts.matchedToolResults⟩

/-! ## `adapter/policy.rs` -/

structure ValidatedCatalogEntryView where
  providerId : String
  routeId : String
  catalogDigest : String
  selection : ModelSelection
  currentModel : String
  inputModalities : List InputModality
  toolCapability : ToolCapability
  reasoningCapability : ReasoningCapability
  contextTokens : Option Nat
  maxOutputTokens : Option Nat
  completionOperation : String

def validateIdentity (selected : ValidatedCatalogEntryView) (original : PrepareInput) :
    AdapterValidationResult Unit :=
  if original.providerId != selected.providerId || original.routeId != selected.routeId
      || original.catalogDigest != selected.catalogDigest
      || !sameSelection original.selection selected.selection
      || original.currentModel != selected.currentModel
      || original.operationId != selected.completionOperation then .error .SourceMismatch
  else .ok ()

def UserBlock.isImage : UserBlock → Bool
  | .Image _ => true
  | .Text _ => false

def ToolResultBlock.isImage : ToolResultBlock → Bool
  | .Image _ => true
  | .Text _ => false

def AssistantBlock.isToolCall : AssistantBlock → Bool
  | .ToolCall _ => true
  | _ => false

def AssistantBlock.isReasoning : AssistantBlock → Bool
  | .Reasoning _ => true
  | _ => false

def AssistantBlock.hasProof : AssistantBlock → Bool
  | .Reasoning reasoning => reasoning.proof.isSome
  | _ => false

def Message.hasImage : Message → Bool
  | .User message => message.blocks.any (·.isImage)
  | .Assistant _ => false
  | .ToolResult message => message.blocks.any (·.isImage)

/-- Whether a message of the assistant has such a block. -/
def Message.hasAssistantBlock (holds : AssistantBlock → Bool) : Message → Bool
  | .Assistant message => message.blocks.any holds
  | _ => false

def Reasoning.isUnset : Reasoning → Bool
  | .Unset => true
  | _ => false

/-- Whether an option of enabled reasoning is used without support. -/
def reasoningUnsupported (capability : ReasoningCapability) : Reasoning → Bool
  | .Enabled enabled =>
      (enabled.effort.isSome && !isSupported capability.effort)
        || (enabled.budgetTokens.isSome && !isSupported capability.budget)
  | _ => false

def toolChoiceUnsupported (capability : ToolCapability) : ToolChoice → Bool
  | .Auto => !isSupported capability.autoChoice
  | .None => !isSupported capability.noneChoice
  | .Specific _ => !isSupported capability.specificChoice
  | .Unset => false

def validateCapabilities (selected : ValidatedCatalogEntryView) (original : PrepareInput) :
    AdapterValidationResult Unit :=
  let hasCalls := original.messages.any (·.hasAssistantBlock AssistantBlock.isToolCall)
  let hasImages := original.messages.any (·.hasImage)
  let hasReasoningBlocks := original.messages.any (·.hasAssistantBlock AssistantBlock.isReasoning)
  let hasProofs := original.messages.any (·.hasAssistantBlock AssistantBlock.hasProof)
  if (!original.tools.isEmpty || hasCalls) && !isSupported selected.toolCapability.tools then
    .error .CapabilityMismatch
  else if hasImages && !selected.inputModalities.any (· == .Image) then
    .error .CapabilityMismatch
  else if (hasReasoningBlocks || !original.reasoning.isUnset)
      && !isSupported selected.reasoningCapability.reasoning then .error .CapabilityMismatch
  else if hasProofs && !isSupported selected.reasoningCapability.proof then
    .error .CapabilityMismatch
  else if reasoningUnsupported selected.reasoningCapability original.reasoning then
    .error .CapabilityMismatch
  else if toolChoiceUnsupported selected.toolCapability original.toolChoice then
    .error .CapabilityMismatch
  else if original.maxOutputTokens.any fun value =>
      value == 0 || selected.maxOutputTokens.all (value > ·) then .error .CapabilityMismatch
  else .ok ()

def catalogEntry (selected : ValidatedCatalogEntryView) : CatalogEntry where
  selection := selected.selection
  currentModel := selected.currentModel
  displayName := none
  inputModalities := selected.inputModalities
  toolCapability := selected.toolCapability
  reasoningCapability := selected.reasoningCapability
  contextTokens := selected.contextTokens
  maxOutputTokens := selected.maxOutputTokens
  completionOperation := selected.completionOperation

inductive StatusProjection where
  | Boolean
  | None
  | Scalar
  | Switch
  | Composite
  deriving DecidableEq, Repr

def statusProjection : AdapterWireId → StatusProjection
  | .AnthropicMessages | .PiMessages => .Boolean
  | .BedrockConverseStream => .Scalar
  | .GoogleGenerativeAi | .GoogleVertex => .Switch
  | .MistralConversations => .Composite
  | .OpenAiCompletions | .OpenAiResponses | .OpenAiCodexResponses
  | .AzureOpenAiResponses => .None

def requiresResultName : AdapterWireId → Bool
  | .PiMessages | .GoogleGenerativeAi | .GoogleVertex | .MistralConversations => true
  | _ => false

end MCode.Adapter
