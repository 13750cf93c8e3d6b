import MCode.Adapter.Debts
import MCode.Adapter.Derived
import MCode.Adapter.Semantics

/-!
# Evaluation of a contract

`adapter/evaluate.rs` and the sources of `adapter/source.rs`: the value that a
contract makes of a request.  A node is evaluated in a scope, the part of the
request that the nodes above it stepped into; the ledger has the names of what
was taken so far.
-/

namespace MCode.Adapter

open MCode.Validation (Text)

/-! ## The ledger -/

structure Ledger where
  consumed : List String
  optionalConsumed : List String

/-- A computation that takes from the ledger. -/
abbrev Eval (α : Type) := StateT Ledger (Except Fault) α

def lift {α : Type} (run : Run α) : Eval α := StateT.lift run

def refuse {α : Type} (error : AdapterValidationError) : Eval α := lift (.error (.Refused error))

def consume (debt : Debt) : Eval Unit := fun ledger =>
  if ledger.consumed.contains debt.name then .error .Consumed
  else .ok ((), { ledger with consumed := debt.name :: ledger.consumed })

def consumeOptional (source : Debt) : Eval Unit := fun ledger =>
  if ledger.optionalConsumed.contains source.name then .error .Consumed
  else .ok ((), { ledger with optionalConsumed := source.name :: ledger.optionalConsumed })

/-! ## Scopes and variants -/

structure Evaluator where
  contract : AdapterContractV1
  original : PrepareInput
  matchedToolResults : MatchedToolResults

inductive Scope where
  | Root
  | System (index : Nat) (text : String)
  | SystemEntry (index : Nat) (text : String)
  | Message (index : Nat) (message : Message)
  | MessageEntry (index : Nat) (message : Message)
  | UserBlock (index position : Nat) (block : UserBlock)
  | AssistantBlock (index position : Nat) (block : AssistantBlock)
  | ToolResultBlock (index position : Nat) (block : ToolResultBlock)
  | Tool (index : Nat)

def selectionOrdinal : ModelSelection → Nat
  | .Exact _ => 0
  | .Alias _ => 1

def selectionPayload : ModelSelection → String
  | .Exact value => value
  | .Alias value => value

def messageOrdinal : Message → Nat
  | .User _ => 0
  | .Assistant _ => 1
  | .ToolResult _ => 2

def userBlockOrdinal : UserBlock → Nat
  | .Text _ => 0
  | .Image _ => 1

def assistantBlockOrdinal : AssistantBlock → Nat
  | .Text _ => 0
  | .Reasoning _ => 1
  | .ToolCall _ => 2

def toolResultBlockOrdinal : ToolResultBlock → Nat
  | .Text _ => 0
  | .Image _ => 1

def statusOrdinal (isError : Bool) : Nat := if isError then 1 else 0

def toolChoiceOrdinal : ToolChoice → Nat
  | .Unset => 0
  | .Auto => 1
  | .None => 2
  | .Specific _ => 3

def reasoningOrdinal : Reasoning → Nat
  | .Unset => 0
  | .Disabled => 1
  | .Enabled _ => 2

def cacheOrdinal : CacheRetention → Nat
  | .Unset => 0
  | .None => 1
  | .Request => 2
  | .Session => 3

def reasoningKindOrdinal : ReasoningKind → Nat
  | .Thinking => 0
  | .Summary => 1

/-! ## Presence -/

def optionPresence (original : PrepareInput) (source : AdapterPresenceSource) (scope : Scope) :
    AdapterValidationResult (Bool × Debt) :=
  match source with
  | .ReasoningProof =>
      match scope with
      | .AssistantBlock index position (.Reasoning reasoning) =>
          .ok (reasoning.proof.isNone, .block index position .proof)
      | _ => .error .InvalidContract
  | .ReasoningEffort =>
      match original.reasoning with
      | .Enabled enabled => .ok (enabled.effort.isNone, .request .reasoningEffort)
      | _ => .error .InvalidContract
  | .ReasoningBudget =>
      match original.reasoning with
      | .Enabled enabled => .ok (enabled.budgetTokens.isNone, .request .reasoningBudget)
      | _ => .error .InvalidContract
  | .MaxOutput => .ok (original.maxOutputTokens.isNone, .request .maxOutput)
  | _ => .error .InvalidContract

def requireRoot : Scope → AdapterValidationResult Unit
  | .Root => .ok ()
  | _ => .error .InvalidContract

def unsetPresence (original : PrepareInput) (source : AdapterPresenceSource) (scope : Scope) :
    AdapterValidationResult (Bool × Debt) := do
  requireRoot scope
  match source with
  | .ToolChoice =>
      .ok (toolChoiceOrdinal original.toolChoice == 0, .request .toolChoiceVariant)
  | .Reasoning => .ok (reasoningOrdinal original.reasoning == 0, .request .reasoningVariant)
  | .CacheRetention => .ok (cacheOrdinal original.cacheRetention == 0, .request .cacheVariant)
  | _ => .error .InvalidContract

/-- Whether a value is absent, and the debt that its absence settles. -/
def absence (original : PrepareInput) (presence : AdapterPresence)
    (source : Option AdapterPresenceSource) (scope : Scope) :
    AdapterValidationResult (Option (Bool × Debt)) :=
  match presence, source with
  | .Required, none => .ok none
  | .OmitIfNone, some source => (optionPresence original source scope).map some
  | .OmitForUnset, some source => (unsetPresence original source scope).map some
  | _, _ => .error .InvalidContract

/-- The absence of a value is taken from the ledger. -/
def settleAbsence : Option (Bool × Debt) → Eval Bool
  | some (true, debt) => do
      consume debt
      return true
  | some (false, _) => return false
  | none => return false

/-- `omit`. -/
def omitNode (original : PrepareInput) (node : ContractNode) (scope : Scope) : Eval Bool := do
  let absent ← lift (returned (absence original node.presence node.presenceSource scope))
  settleAbsence absent

/-! ## Collections -/

def blockScopes (index : Nat) : Message → List Scope
  | .User message =>
      message.blocks.zipIdx.map fun (block, position) => .UserBlock index position block
  | .Assistant message =>
      message.blocks.zipIdx.map fun (block, position) => .AssistantBlock index position block
  | .ToolResult message =>
      message.blocks.zipIdx.map fun (block, position) => .ToolResultBlock index position block

def MAX_SYSTEM_MESSAGES : Nat := 5120

/-- The system texts and the messages in one collection. -/
def systemMessageScopes (self : Evaluator) : Eval (List Scope) :=
  if self.contract.wireId == .OpenAiCompletions
      || self.contract.wireId == .MistralConversations then do
    consume (.request .systemCollection)
    consume (.request .messagesCollection)
    if self.original.system.length + self.original.messages.length > MAX_SYSTEM_MESSAGES then
      refuse .Limit
    else
      return (self.original.system.zipIdx.map fun (text, index) => Scope.SystemEntry index text)
        ++ self.original.messages.zipIdx.map fun (message, index) => .MessageEntry index message
  else refuse .InvalidContract

/-- `collection_scopes`. -/
def collectionScopes (self : Evaluator) (collection : AdapterCollection) (scope : Scope) :
    Eval (List Scope) :=
  match collection, scope with
  | .System, .Root => do
      consume (.request .systemCollection)
      return self.original.system.zipIdx.map fun (text, index) => .System index text
  | .Messages, .Root => do
      consume (.request .messagesCollection)
      return self.original.messages.zipIdx.map fun (message, index) => .Message index message
  | .Tools, .Root => do
      consume (.request .toolsCollection)
      return (List.range self.original.tools.length).map .Tool
  | .Blocks, .Message index message => do
      consume (.message index .blocks)
      return blockScopes index message
  | .Blocks, .MessageEntry index message => do
      consume (.message index .blocks)
      return blockScopes index message
  | .SystemMessages, .Root => systemMessageScopes self
  | _, _ => refuse .InvalidContract

/-- A status, where the wire switches on it. -/
def statusVariant (self : Evaluator) (index : Nat) (result : ToolResultMessage) : Eval Nat :=
  if statusProjection self.contract.wireId != .Switch then refuse .InvalidContract
  else do
    consume (.message index .status)
    return statusOrdinal result.isError

/-- `variant_ordinal`. -/
def variantOrdinal (self : Evaluator) (source : AdapterVariantSource) (scope : Scope) :
    Eval Nat :=
  match source, scope with
  | .ModelSelection, .Root => do
      consume (.request .selectionVariant)
      return selectionOrdinal self.original.selection
  | .SystemMessageEntry, .SystemEntry _ _ => return 0
  | .SystemMessageEntry, .MessageEntry _ _ => return 1
  | .Message, .Message index message => do
      consume (.message index .variant)
      return messageOrdinal message
  | .Message, .MessageEntry index message => do
      consume (.message index .variant)
      return messageOrdinal message
  | .UserBlock, .UserBlock index position block => do
      consume (.block index position .variant)
      return userBlockOrdinal block
  | .AssistantBlock, .AssistantBlock index position block => do
      consume (.block index position .variant)
      return assistantBlockOrdinal block
  | .ToolResultBlock, .ToolResultBlock index position block => do
      consume (.block index position .variant)
      return toolResultBlockOrdinal block
  | .ToolResultStatus, .Message index (.ToolResult result) => statusVariant self index result
  | .ToolResultStatus, .MessageEntry index (.ToolResult result) =>
      statusVariant self index result
  | .ToolChoice, .Root => do
      consume (.request .toolChoiceVariant)
      return toolChoiceOrdinal self.original.toolChoice
  | .Reasoning, .Root => do
      consume (.request .reasoningVariant)
      return reasoningOrdinal self.original.reasoning
  | .CacheRetention, .Root => do
      consume (.request .cacheVariant)
      return cacheOrdinal self.original.cacheRetention
  | _, _ => refuse .InvalidContract

/-! ## Scalars -/

def requireTransform (transform wanted : AdapterTransform) : AdapterValidationResult Unit :=
  ensure (transform == wanted) .InvalidContract

def identityString (transform : AdapterTransform) (value : String) :
    AdapterValidationResult AdapterJson := do
  requireTransform transform .Identity
  return ordinaryString value

def checkedU64 (transform : AdapterTransform) (value : Nat) :
    AdapterValidationResult AdapterJson := do
  requireTransform transform .CheckedU64
  return .Number (toString value)

def enumTable (contract : AdapterContractV1) : AdapterTransform → Run EnumTokenTable
  | .EnumToken index => lookup contract.tree.tables index
  | _ => .error (.Refused .InvalidContract)

def enumToken (contract : AdapterContractV1) (transform : AdapterTransform)
    (source : AdapterEnumSource) (ordinal : Nat) : Run AdapterJson := do
  let table ← enumTable contract transform
  if table.source != source then .error (.Refused .InvalidContract)
  else
    let entry ← lookup table.entries ordinal
    return ordinaryString entry.token

/-- A debt is settled by a value. -/
def settled (debt : Debt) (value : Run AdapterJson) : Eval AdapterJson := do
  consume debt
  lift value

def settledOptional (source : Debt) (value : Run AdapterJson) : Eval AdapterJson := do
  consumeOptional source
  lift value

def scopeMessage : Scope → AdapterValidationResult (Nat × Message)
  | .Message index message => .ok (index, message)
  | .MessageEntry index message => .ok (index, message)
  | _ => .error .InvalidContract

def toolResult : Scope → AdapterValidationResult (Nat × ToolResultMessage)
  | .Message index (.ToolResult result) => .ok (index, result)
  | .MessageEntry index (.ToolResult result) => .ok (index, result)
  | _ => .error .InvalidContract

def matchedResult (self : Evaluator) (callId : String) :
    AdapterValidationResult MatchedToolResult :=
  match self.matchedToolResults.find? (·.1 == callId) with
  | none => .error .SourceMismatch
  | some (_, matched) => .ok matched

/-- The model that the contract asks for. -/
def selectedModel (source : AdapterModelSource) (original : PrepareInput) : String :=
  match source with
  | .RequestedSelection => selectionPayload original.selection
  | .CurrentModel => original.currentModel

def systemItem (transform : AdapterTransform) : Scope → Eval AdapterJson
  | .System index text => settled (.system index) (returned (identityString transform text))
  | .SystemEntry index text => settled (.system index) (returned (identityString transform text))
  | _ => refuse .InvalidContract

/-- The system texts with a line feed between them. -/
def joinedSystem (system : List String) : AdapterValidationResult AdapterJson :=
  let joined := joinedTexts system
  if MCode.Validation.utf8Len joined > MCode.Validation.MAX_LOGICAL_CHARGE then .error .Limit
  else .ok (derivedString (String.ofList joined))

def systemJoined (self : Evaluator) (transform : AdapterTransform) (scope : Scope) :
    Eval AdapterJson := do
  lift (returned (requireRoot scope))
  lift (returned (requireTransform transform .JoinLf))
  consume (.request .systemCollection)
  (List.range self.original.system.length).forM fun index => consume (.system index)
  lift (returned (joinedSystem self.original.system))

/-- The block of a scope, with the table of its kind. -/
def blockKindOf : Scope → AdapterValidationResult (Nat × Nat × AdapterEnumSource × Nat)
  | .UserBlock index position block =>
      .ok (index, position, .UserBlockKind, userBlockOrdinal block)
  | .AssistantBlock index position block =>
      .ok (index, position, .AssistantBlockKind, assistantBlockOrdinal block)
  | .ToolResultBlock index position block =>
      .ok (index, position, .ToolResultBlockKind, toolResultBlockOrdinal block)
  | _ => .error .InvalidContract

def blockKind (self : Evaluator) (transform : AdapterTransform) (scope : Scope) :
    Eval AdapterJson := do
  let (index, position, source, ordinal) ← lift (returned (blockKindOf scope))
  settledOptional (.block index position .kind)
    (enumToken self.contract transform source ordinal)

def blockTextOf : Scope → AdapterValidationResult (Nat × Nat × String)
  | .UserBlock index position (.Text value) => .ok (index, position, value.text)
  | .AssistantBlock index position (.Text value) => .ok (index, position, value.text)
  | .AssistantBlock index position (.Reasoning value) => .ok (index, position, value.text)
  | .ToolResultBlock index position (.Text value) => .ok (index, position, value.text)
  | _ => .error .InvalidContract

def blockText (transform : AdapterTransform) (scope : Scope) : Eval AdapterJson := do
  let (index, position, text) ← lift (returned (blockTextOf scope))
  lift (returned (requireTransform transform .Identity))
  settled (.block index position .text) (.ok (ordinaryString text))

def toolResultCallId (transform : AdapterTransform) (scope : Scope) : Eval AdapterJson := do
  let (index, result) ← lift (returned (toolResult scope))
  settled (.message index .callId) (returned (identityString transform result.callId))

def toolResultIsError (self : Evaluator) (transform : AdapterTransform) (scope : Scope) :
    Eval AdapterJson := do
  let (index, result) ← lift (returned (toolResult scope))
  if statusProjection self.contract.wireId != .Boolean || transform != .Identity then
    refuse .InvalidContract
  else settled (.message index .status) (.ok (.Boolean result.isError))

/-- The tokens of a status are those of the wire.  Both entries are read by their position. -/
def requireStatusTokens (table : EnumTokenTable) : Run Unit :=
  match table.entries[0]? with
  | none => .error .Stuck
  | some success =>
      if success.token != "success" then .error (.Refused .InvalidContract)
      else
        match table.entries[1]? with
        | none => .error .Stuck
        | some error =>
            if error.token != "error" then .error (.Refused .InvalidContract) else .ok ()

def statusToken (contract : AdapterContractV1) (transform : AdapterTransform) (isError : Bool) :
    Run AdapterJson := do
  let value ← enumToken contract transform .ToolResultStatus (statusOrdinal isError)
  let table ← enumTable contract transform
  requireStatusTokens table
  return value

def toolResultStatus (self : Evaluator) (transform : AdapterTransform) (scope : Scope) :
    Eval AdapterJson := do
  let (index, result) ← lift (returned (toolResult scope))
  if statusProjection self.contract.wireId != .Scalar then refuse .InvalidContract
  else
    settled (.message index .status) (statusToken self.contract transform result.isError)

def matchedName (self : Evaluator) (transform : AdapterTransform) (callId : String) :
    AdapterValidationResult AdapterJson := do
  let matched ← matchedResult self callId
  identityString transform matched.name

def toolResultName (self : Evaluator) (transform : AdapterTransform) (scope : Scope) :
    Eval AdapterJson := do
  let (index, result) ← lift (returned (toolResult scope))
  if !requiresResultName self.contract.wireId then refuse .InvalidContract
  else
    settled (.message index .resultName) (returned (matchedName self transform result.callId))

/-- The debts of a block of a tool result, one after the other. -/
def consumeResultBlock (index : Nat) (block : ToolResultBlock × Nat) : Eval Unit := do
  consume (.block index block.2 .variant)
  match block.1 with
  | .Text _ => consume (.block index block.2 .text)
  | .Image _ => do
      consume (.block index block.2 .bytes)
      consume (.block index block.2 .media)

def ToolResultBlock.text? : ToolResultBlock → Option String
  | .Text block => some block.text
  | .Image _ => none

def ToolResultBlock.image? : ToolResultBlock → Option ImageView
  | .Text _ => none
  | .Image image => some image

/-- The call that a result answers failed as the result says. -/
def requireSameStatus (self : Evaluator) (result : ToolResultMessage) :
    AdapterValidationResult Unit := do
  let matched ← matchedResult self result.callId
  if (matched.status == .Error) != result.isError then .error .SourceMismatch else .ok ()

def mistralContent (self : Evaluator) (transform : AdapterTransform) (scope : Scope) :
    Eval AdapterJson := do
  lift (returned (requireTransform transform .MistralToolResultContent))
  let (index, result) ← lift (returned (toolResult scope))
  consume (.message index .blocks)
  consume (.message index .status)
  lift (returned (requireSameStatus self result))
  result.blocks.zipIdx.forM (consumeResultBlock index)
  lift (returned (mistralChunks (result.blocks.filterMap (·.text?))
    (result.blocks.filterMap (·.image?)) result.isError))

def toolCallOf : Scope → AdapterValidationResult (Nat × Nat × ToolCallBlock)
  | .AssistantBlock index position (.ToolCall call) => .ok (index, position, call)
  | _ => .error .InvalidContract

def toolCallText (transform : AdapterTransform) (scope : Scope) (part : BlockDebt)
    (text : ToolCallBlock → String) : Eval AdapterJson := do
  let (index, position, call) ← lift (returned (toolCallOf scope))
  lift (returned (requireTransform transform .Identity))
  settled (.block index position part) (.ok (ordinaryString (text call)))

def argumentsValue (transform : AdapterTransform)
    (document : MCode.Validation.WireJsonDocument) : Run AdapterJson :=
  match transform with
  | .JsonSubtree => fromWire document
  | .CanonicalJsonString => do
      let text ← canonicalWireText document
      return derivedString text
  | _ => .error (.Refused .InvalidContract)

def toolCallArguments (transform : AdapterTransform) (scope : Scope) : Eval AdapterJson := do
  let (index, position, call) ← lift (returned (toolCallOf scope))
  settled (.block index position .arguments) (argumentsValue transform call.arguments)

def toolOf (self : Evaluator) : Scope → AdapterValidationResult (Nat × ToolDefinition)
  | .Tool index =>
      match self.original.tools[index]? with
      | none => .error .SourceMismatch
      | some tool => .ok (index, tool)
  | _ => .error .InvalidContract

def toolText (self : Evaluator) (transform : AdapterTransform) (scope : Scope) (part : ToolDebt)
    (text : ToolDefinition → String) : Eval AdapterJson := do
  let (index, tool) ← lift (returned (toolOf self scope))
  lift (returned (requireTransform transform .Identity))
  settled (.tool index part) (.ok (ordinaryString (text tool)))

def toolSchema (self : Evaluator) (transform : AdapterTransform) (scope : Scope) :
    Eval AdapterJson := do
  let (index, tool) ← lift (returned (toolOf self scope))
  lift (returned (requireTransform transform .JsonSubtree))
  settled (.tool index .schema) (fromWire tool.inputSchema)

def reasoningOf : Scope → AdapterValidationResult (Nat × Nat × ReasoningBlock)
  | .AssistantBlock index position (.Reasoning reasoning) => .ok (index, position, reasoning)
  | _ => .error .InvalidContract

def reasoningKind (self : Evaluator) (transform : AdapterTransform) (scope : Scope) :
    Eval AdapterJson := do
  let (index, position, reasoning) ← lift (returned (reasoningOf scope))
  settled (.block index position .reasoningKind)
    (enumToken self.contract transform .ReasoningKind (reasoningKindOrdinal reasoning.kind))

/-- `ok_or(AdapterValidationError::InvalidContract)`. -/
def present {α : Type} (value : Option α) : AdapterValidationResult α :=
  match value with
  | none => .error .InvalidContract
  | some value => .ok value

def proofBytes (transform : AdapterTransform) (scope : Scope) : Eval AdapterJson := do
  let (index, position, reasoning) ← lift (returned (reasoningOf scope))
  let proof ← lift (returned (present reasoning.proof))
  settled (.block index position .proof) (returned (encodeBytes transform proof.proof))

def imageOf : Scope → AdapterValidationResult (Nat × Nat × ImageView)
  | .UserBlock index position (.Image image) => .ok (index, position, image)
  | .ToolResultBlock index position (.Image image) => .ok (index, position, image)
  | _ => .error .InvalidContract

def imageBytes (transform : AdapterTransform) (scope : Scope) : Eval AdapterJson := do
  let (index, position, image) ← lift (returned (imageOf scope))
  settled (.block index position .bytes) (returned (encodeBytes transform image.bytes))

def imageMediaType (self : Evaluator) (transform : AdapterTransform) (scope : Scope) :
    Eval AdapterJson := do
  let (index, position, image) ← lift (returned (imageOf scope))
  settled (.block index position .media)
    (enumToken self.contract transform .ImageMediaType (mediaOrdinal image.mediaType))

/-- A measure of an image. -/
def imageNumber (transform : AdapterTransform) (scope : Scope) (part : BlockDebt)
    (number : ImageMetadata → Nat) : Eval AdapterJson := do
  let (index, position, image) ← lift (returned (imageOf scope))
  lift (returned (requireTransform transform .CheckedU32))
  settledOptional (.block index position part) (.ok (.Number (toString (number image.metadata))))

def imageDataUri (transform : AdapterTransform) (scope : Scope) : Eval AdapterJson := do
  let (index, position, image) ← lift (returned (imageOf scope))
  lift (returned (requireTransform transform .DataUri))
  consume (.block index position .bytes)
  settled (.block index position .media) (returned ((dataUri image).map derivedString))

def toolChoiceNameOf : ToolChoice → AdapterValidationResult String
  | .Specific choice => .ok choice.name
  | _ => .error .InvalidContract

def toolChoiceName (self : Evaluator) (transform : AdapterTransform) (scope : Scope) :
    Eval AdapterJson := do
  lift (returned (requireRoot scope))
  lift (returned (requireTransform transform .Identity))
  let name ← lift (returned (toolChoiceNameOf self.original.toolChoice))
  settled (.request .toolChoiceName) (.ok (ordinaryString name))

def enabledOf : Reasoning → AdapterValidationResult EnabledReasoning
  | .Enabled enabled => .ok enabled
  | _ => .error .InvalidContract

def reasoningEffort (self : Evaluator) (transform : AdapterTransform) (scope : Scope) :
    Eval AdapterJson := do
  lift (returned (requireRoot scope))
  let enabled ← lift (returned (enabledOf self.original.reasoning))
  let effort ← lift (returned (present enabled.effort))
  settled (.request .reasoningEffort)
    (enumToken self.contract transform .ReasoningEffort (effortOrdinal effort))

def reasoningBudget (self : Evaluator) (transform : AdapterTransform) (scope : Scope) :
    Eval AdapterJson := do
  lift (returned (requireRoot scope))
  let enabled ← lift (returned (enabledOf self.original.reasoning))
  let budget ← lift (returned (present enabled.budgetTokens))
  lift (returned (requireTransform transform .CheckedU64))
  settled (.request .reasoningBudget) (.ok (.Number (toString budget)))

/-- The kind of one of the request's own variants. -/
def rootKind (self : Evaluator) (transform : AdapterTransform) (scope : Scope)
    (part : RequestDebt) (source : AdapterEnumSource) (ordinal : Nat) : Eval AdapterJson := do
  lift (returned (requireRoot scope))
  settledOptional (.request part) (enumToken self.contract transform source ordinal)

def messageRole (self : Evaluator) (transform : AdapterTransform) (scope : Scope) :
    Eval AdapterJson := do
  let (index, message) ← lift (returned (scopeMessage scope))
  settledOptional (.message index .role)
    (enumToken self.contract transform .MessageKind (messageOrdinal message))

def modelValue (self : Evaluator) (transform : AdapterTransform) (scope : Scope) :
    Eval AdapterJson := do
  lift (returned (requireRoot scope))
  settled (.request .selectionPayload)
    (returned (identityString transform (selectedModel self.contract.modelSource self.original)))

def maxOutput (self : Evaluator) (transform : AdapterTransform) (scope : Scope) :
    Eval AdapterJson := do
  lift (returned (requireRoot scope))
  let value ← lift (returned (present self.original.maxOutputTokens))
  settled (.request .maxOutput) (returned (checkedU64 transform value))

/-- `scalar`. -/
def scalar (self : Evaluator) (source : AdapterScalarSource) (transform : AdapterTransform)
    (scope : Scope) : Eval AdapterJson :=
  match source with
  | .SelectedModel => modelValue self transform scope
  | .SelectionKind =>
      rootKind self transform scope .selectionKind .SelectionKind
        (selectionOrdinal self.original.selection)
  | .SystemItem => systemItem transform scope
  | .SystemJoined => systemJoined self transform scope
  | .MessageRole => messageRole self transform scope
  | .BlockKind => blockKind self transform scope
  | .BlockText => blockText transform scope
  | .ToolResultCallId => toolResultCallId transform scope
  | .ToolResultIsError => toolResultIsError self transform scope
  | .ToolResultStatus => toolResultStatus self transform scope
  | .ToolResultName => toolResultName self transform scope
  | .MistralToolResultContent => mistralContent self transform scope
  | .ToolCallId => toolCallText transform scope .callId (·.callId)
  | .ToolCallName => toolCallText transform scope .callName (·.name)
  | .ToolCallArguments => toolCallArguments transform scope
  | .ToolName => toolText self transform scope .name (·.name)
  | .ToolDescription => toolText self transform scope .description (·.description)
  | .ToolSchema => toolSchema self transform scope
  | .ReasoningKind => reasoningKind self transform scope
  | .Proof => proofBytes transform scope
  | .ImageBytes => imageBytes transform scope
  | .ImageMediaType => imageMediaType self transform scope
  | .ImageWidth => imageNumber transform scope .width (·.width)
  | .ImageHeight => imageNumber transform scope .height (·.height)
  | .ImageFrames => imageNumber transform scope .frames (·.frames)
  | .ImageDataUri => imageDataUri transform scope
  | .ToolChoiceKind =>
      rootKind self transform scope .toolChoiceKind .ToolChoice
        (toolChoiceOrdinal self.original.toolChoice)
  | .ToolChoiceName => toolChoiceName self transform scope
  | .ReasoningMode =>
      rootKind self transform scope .reasoningKind .ReasoningMode
        (reasoningOrdinal self.original.reasoning)
  | .ReasoningEffort => reasoningEffort self transform scope
  | .ReasoningBudget => reasoningBudget self transform scope
  | .CacheRetention =>
      rootKind self transform scope .cacheKind .CacheRetention
        (cacheOrdinal self.original.cacheRetention)
  | .MaxOutput => maxOutput self transform scope

/-! ## Nodes -/

/-- The key of a child, where it has one. -/
def childKey (contract : AdapterContractV1) (index : Nat) : Run String :=
  match contract.tree.nodes[index]? with
  | none => .error .Stuck
  | some child =>
      match child.segment with
      | some (.Key key) => .ok key
      | _ => .error (.Refused .InvalidContract)

/-- The number of items is within the bounds of an array. -/
def checkLength (array : ContractArray) (length : Nat) : AdapterValidationResult Unit :=
  if length > 2 ^ 32 - 1 then .error .Limit
  else if !(array.min ≤ length && length ≤ array.max) then .error .SourceMismatch
  else .ok ()

/-- `eval_node`: the value of a node, unless it is omitted.  `fuel` bounds the recursion along
the indices. -/
def evalNode (self : Evaluator) : Nat → Nat → Scope → Eval (Option AdapterJson)
  | 0, _, _ => lift (.error .Stuck)
  | fuel + 1, index, scope =>
      match self.contract.tree.nodes[index]? with
      | none => lift (.error .Stuck)
      | some node => do
          let absent ← omitNode self.original node scope
          if absent then return none
          else
            match node.body with
            | .Object object => do
                let fields ← object.children.mapM fun child => do
                  let key ← lift (childKey self.contract child)
                  let value ← evalNode self fuel child scope
                  return value.map fun value => (key, value)
                return some (.Object (fields.filterMap id))
            | .Array array => do
                let scopes ← collectionScopes self array.collection scope
                lift (returned (checkLength array scopes.length))
                let items ← scopes.mapM fun item => do
                  let value ← evalNode self fuel array.item item
                  lift (returned (present value))
                return some (.Array items)
            | .Switch switch => do
                let ordinal ← variantOrdinal self switch.source scope
                let chosen ← lift (lookup switch.cases ordinal)
                let value ← evalNode self fuel chosen.node scope
                let value ← lift (returned (present value))
                return some value
            | .Value value => do
                let value ← scalar self value.source value.transform scope
                return some value
            | .Constant constant => return some (fromConstant constant.value)

/-- Two sets of names are the same. -/
def sameNames (names others : List String) : Bool :=
  names.all others.contains && others.all names.contains

/-- The end of `evaluate_contract`: a value, and nothing owed. -/
def settle (expected : List Debt) (value : Option AdapterJson) (ledger : Ledger) :
    AdapterValidationResult AdapterJson := do
  let value ← present value
  if sameNames ledger.consumed (expected.map (·.name)) then .ok value
  else .error .SourceMismatch

/-- `evaluate_contract`. -/
def evaluateContract (contract : AdapterContractV1) (selected : ValidatedCatalogEntryView)
    (original : PrepareInput) : Run AdapterJson := do
  returned (validateIdentity selected original)
  returned (validateCapabilities selected original)
  let prepared ← returned (mapSourceError (validatePrepareInput original
    ⟨selected.providerId, selected.routeId, selected.catalogDigest, catalogEntry selected⟩))
  let self : Evaluator := ⟨contract, original, prepared.matchedToolResults⟩
  let (value, ledger) ← evalNode self contract.tree.nodes.length contract.tree.root .Root ⟨[], []⟩
  returned (settle (expectedDebts contract.wireId original) value ledger)

/-! ## `adapter/mod.rs` -/

/-- The digests of `digest.rs`: of a contract, of a body and of headers. -/
structure Digests where
  contractDigest : AdapterContractV1 → AdapterValidationResult String
  bodyDigest : Text → AdapterValidationResult String
  ordinaryHeaderDigest : List OrdinaryHeader → AdapterValidationResult String

structure ValidatedAdapter where
  wireId : AdapterWireId
  decoderKind : AdapterDecoderKind
  contractDigest : String
  bodyDigest : String
  ordinaryHeaderDigest : String
  deriving DecidableEq, Repr

/-- `validate_adapter` behind the evaluation: the prepared body is the expected one, the headers
follow the rules, and all three are bound by their digests. -/
def validatePrepared (digests : Digests) (contract : AdapterContractV1) (expected : AdapterJson)
    (prepared : MCode.Validation.WireJsonDocument) (headers : List OrdinaryHeader) :
    AdapterValidationResult ValidatedAdapter := do
  let body ← compareAndSerialize expected prepared
  validateHeaders contract.ordinaryHeaderRules headers
  let contractDigest ← digests.contractDigest contract
  let bodyDigest ← digests.bodyDigest body
  let ordinaryHeaderDigest ← digests.ordinaryHeaderDigest headers
  return ⟨contract.wireId, contract.decoderKind, contractDigest, bodyDigest, ordinaryHeaderDigest⟩

/-- `validate_adapter`. -/
def validateAdapter (digests : Digests) (contract : AdapterContractV1)
    (selected : ValidatedCatalogEntryView) (original : PrepareInput)
    (prepared : MCode.Validation.WireJsonDocument) (headers : List OrdinaryHeader) :
    Run ValidatedAdapter := do
  validateContract contract
  let expected ← evaluateContract contract selected original
  returned (validatePrepared digests contract expected prepared headers)

end MCode.Adapter
