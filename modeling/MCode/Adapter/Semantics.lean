import MCode.Adapter.Prepare
import MCode.Adapter.Structure

/-!
# The lexical walk of a contract

`adapter/semantics.rs`: a walk from the root down, with the lexical scope, the
cases of the switches and the wrappers around a node; every source has to
stand where the request has it.  Scope, cases and wrappers are as they were
when the walk comes back from a node, so they are arguments; what is counted
over the whole walk is its state.
-/

namespace MCode.Adapter

inductive LexicalScope where
  | Root
  | System
  | SystemMessageEntry
  | Message
  | MessageEntry
  | UserBlock
  | AssistantBlock
  | ToolResultBlock
  | Tool
  deriving DecidableEq, Repr

structure ActiveCase where
  source : AdapterVariantSource
  ordinal : Nat
  deriving DecidableEq, Repr

/-- The scope, and the cases and wrappers around a node, the innermost first. -/
structure Context where
  scope : LexicalScope
  cases : List ActiveCase
  wrappers : List AdapterPresenceSource

structure RootCollectionAccounting where
  systemMessages : Bool
  system : Bool
  messages : Bool
  systemJoined : Bool

structure MistralAccounting where
  normalBlocks : Nat
  composites : Nat

/-- What is counted: the collections of the root, and the contents of the tool results around
the node, the innermost first. -/
structure Accounting where
  rootCollections : RootCollectionAccounting
  mistral : List MistralAccounting

/-! ## The context of a node -/

def activeOrdinal (context : Context) (source : AdapterVariantSource) : Option Nat :=
  (context.cases.find? (·.source == source)).map (·.ordinal)

def inSwitch (context : Context) (source : AdapterVariantSource) : Bool :=
  (activeOrdinal context source).isSome

def hasWrapper (context : Context) (source : AdapterPresenceSource) : Bool :=
  context.wrappers.contains source

def isMessageScope (scope : LexicalScope) : Bool := scope == .Message || scope == .MessageEntry

def isToolResultMessage (context : Context) : Bool :=
  isMessageScope context.scope && activeOrdinal context .Message == some 2

def isImageBlock (context : Context) : Bool :=
  (context.scope == .UserBlock || context.scope == .ToolResultBlock)
    && (activeOrdinal context .UserBlock == some 1
      || activeOrdinal context .ToolResultBlock == some 1)

def isTextBlock (context : Context) : Bool :=
  match context.scope with
  | .UserBlock => activeOrdinal context .UserBlock == some 0
  | .AssistantBlock =>
      activeOrdinal context .AssistantBlock == some 0
        || activeOrdinal context .AssistantBlock == some 1
  | .ToolResultBlock => activeOrdinal context .ToolResultBlock == some 0
  | _ => false

/-! ## Wrappers, switches and collections -/

def wrapperAllowed (presence : AdapterPresence) (source : Option AdapterPresenceSource)
    (context : Context) : Bool :=
  match presence, source with
  | .Required, none => true
  | .OmitIfNone, some .ReasoningProof =>
      context.scope == .AssistantBlock && activeOrdinal context .AssistantBlock == some 1
  | .OmitIfNone, some .ReasoningEffort =>
      context.scope == .Root && activeOrdinal context .Reasoning == some 2
  | .OmitIfNone, some .ReasoningBudget =>
      context.scope == .Root && activeOrdinal context .Reasoning == some 2
  | .OmitIfNone, some .MaxOutput => context.scope == .Root
  | .OmitForUnset, some .ToolChoice => context.scope == .Root
  | .OmitForUnset, some .Reasoning => context.scope == .Root
  | .OmitForUnset, some .CacheRetention => context.scope == .Root
  | _, _ => false

def validateWrapper (presence : AdapterPresence) (source : Option AdapterPresenceSource)
    (context : Context) : AdapterValidationResult Unit :=
  if source.any (hasWrapper context) then .error .InvalidContract
  else ensure (wrapperAllowed presence source context) .InvalidContract

def switchAllowed (wire : AdapterWireId) (source : AdapterVariantSource) (context : Context) :
    Bool :=
  match source with
  | .ModelSelection => context.scope == .Root
  | .SystemMessageEntry => context.scope == .SystemMessageEntry
  | .Message => isMessageScope context.scope
  | .UserBlock => context.scope == .UserBlock
  | .AssistantBlock => context.scope == .AssistantBlock
  | .ToolResultBlock => context.scope == .ToolResultBlock
  | .ToolResultStatus =>
      (wire == .GoogleGenerativeAi || wire == .GoogleVertex) && isToolResultMessage context
  | .ToolChoice => context.scope == .Root && hasWrapper context .ToolChoice
  | .Reasoning => context.scope == .Root && hasWrapper context .Reasoning
  | .CacheRetention => context.scope == .Root && hasWrapper context .CacheRetention

def validateSwitch (wire : AdapterWireId) (source : AdapterVariantSource) (context : Context) :
    AdapterValidationResult Unit :=
  ensure (switchAllowed wire source context) .InvalidContract

/-- `validate_root_collection`. -/
def validateRootCollection (collection : AdapterCollection) (context : Context)
    (accounting : Accounting) : AdapterValidationResult Accounting :=
  let root := accounting.rootCollections
  if context.scope != .Root then .ok accounting
  else
    match collection with
    | .SystemMessages =>
        if !root.systemMessages && !root.system && !root.messages && !root.systemJoined then
          .ok { accounting with rootCollections := { root with systemMessages := true } }
        else .error .InvalidContract
    | .System =>
        if !root.systemMessages then
          .ok { accounting with rootCollections := { root with system := true } }
        else .error .InvalidContract
    | .Messages =>
        if !root.systemMessages then
          .ok { accounting with rootCollections := { root with messages := true } }
        else .error .InvalidContract
    | .Blocks => .ok accounting
    | .Tools => .ok accounting

/-- `validate_system_joined`, for the one source that it is about. -/
def validateSystemJoined (source : AdapterScalarSource) (context : Context)
    (accounting : Accounting) : AdapterValidationResult Accounting :=
  if source != .SystemJoined then .ok accounting
  else if context.scope != .Root || accounting.rootCollections.systemMessages then
    .error .InvalidContract
  else
    .ok { accounting with
      rootCollections := { accounting.rootCollections with systemJoined := true } }

/-- `collection_item_scope`. -/
def collectionItemScope (collection : AdapterCollection) (context : Context) :
    AdapterValidationResult LexicalScope :=
  match collection with
  | .System => if context.scope == .Root then .ok .System else .error .InvalidContract
  | .Messages => if context.scope == .Root then .ok .Message else .error .InvalidContract
  | .SystemMessages =>
      if context.scope == .Root then .ok .SystemMessageEntry else .error .InvalidContract
  | .Tools => if context.scope == .Root then .ok .Tool else .error .InvalidContract
  | .Blocks =>
      if !isMessageScope context.scope then .error .InvalidContract
      else
        match activeOrdinal context .Message with
        | some 0 => .ok .UserBlock
        | some 1 => .ok .AssistantBlock
        | some 2 => .ok .ToolResultBlock
        | _ => .error .InvalidContract

/-! ## Scalars -/

def isExactBedrockStatusTable (contract : AdapterContractV1) : AdapterTransform → Bool
  | .EnumToken index =>
      match contract.tree.tables[index]? with
      | some ⟨.ToolResultStatus, [success, error]⟩ =>
          success.variantOrdinal == 0 && success.token == "success"
            && error.variantOrdinal == 1 && error.token == "error"
      | _ => false
  | _ => false

/-- The variant and the table of a block's kind, by the scope of the block. -/
def blockKindSources : LexicalScope → Option (AdapterVariantSource × AdapterEnumSource)
  | .UserBlock => some (.UserBlock, .UserBlockKind)
  | .AssistantBlock => some (.AssistantBlock, .AssistantBlockKind)
  | .ToolResultBlock => some (.ToolResultBlock, .ToolResultBlockKind)
  | _ => none

/-- `validate_block_kind`. -/
def blockKindAllowed (contract : AdapterContractV1) (transform : AdapterTransform)
    (context : Context) : Bool :=
  match blockKindSources context.scope, transform with
  | some (variant, source), .EnumToken index =>
      inSwitch context variant && contract.tree.tables[index]?.any (·.source == source)
  | _, _ => false

def scalarAllowed (contract : AdapterContractV1) (source : AdapterScalarSource)
    (transform : AdapterTransform) (context : Context) : Bool :=
  let wire := contract.wireId
  match source with
  | .SelectedModel | .SystemJoined => context.scope == .Root
  | .SelectionKind => inSwitch context .ModelSelection
  | .SystemItem => context.scope == .System
  | .MessageRole => isMessageScope context.scope && inSwitch context .Message
  | .BlockKind => blockKindAllowed contract transform context
  | .BlockText => isTextBlock context
  | .ToolResultCallId => isToolResultMessage context
  | .ToolResultIsError =>
      (wire == .AnthropicMessages || wire == .PiMessages) && isToolResultMessage context
  | .ToolResultStatus =>
      wire == .BedrockConverseStream && isToolResultMessage context
        && isExactBedrockStatusTable contract transform
  | .ToolResultName =>
      (wire == .PiMessages || wire == .GoogleGenerativeAi || wire == .GoogleVertex
        || wire == .MistralConversations) && isToolResultMessage context
  | .MistralToolResultContent =>
      wire == .MistralConversations && isToolResultMessage context
  | .ToolCallId | .ToolCallName | .ToolCallArguments =>
      context.scope == .AssistantBlock && activeOrdinal context .AssistantBlock == some 2
  | .ToolName | .ToolDescription | .ToolSchema => context.scope == .Tool
  | .ReasoningKind =>
      context.scope == .AssistantBlock && activeOrdinal context .AssistantBlock == some 1
  | .Proof =>
      context.scope == .AssistantBlock && activeOrdinal context .AssistantBlock == some 1
        && hasWrapper context .ReasoningProof
  | .ImageBytes | .ImageMediaType | .ImageWidth | .ImageHeight | .ImageFrames
  | .ImageDataUri => isImageBlock context
  | .ToolChoiceKind => inSwitch context .ToolChoice && hasWrapper context .ToolChoice
  | .ToolChoiceName =>
      activeOrdinal context .ToolChoice == some 3 && hasWrapper context .ToolChoice
  | .ReasoningMode => inSwitch context .Reasoning && hasWrapper context .Reasoning
  | .ReasoningEffort =>
      context.scope == .Root && activeOrdinal context .Reasoning == some 2
        && hasWrapper context .ReasoningEffort
  | .ReasoningBudget =>
      context.scope == .Root && activeOrdinal context .Reasoning == some 2
        && hasWrapper context .ReasoningBudget
  | .CacheRetention => inSwitch context .CacheRetention && hasWrapper context .CacheRetention
  | .MaxOutput => context.scope == .Root && hasWrapper context .MaxOutput

def validateScalar (contract : AdapterContractV1) (source : AdapterScalarSource)
    (transform : AdapterTransform) (context : Context) : AdapterValidationResult Unit :=
  ensure (scalarAllowed contract source transform context) .InvalidContract

/-! ## Tool results of one wire -/

/-- One more array of blocks in the innermost tool result. -/
def countBlocks (contract : AdapterContractV1) (collection : AdapterCollection)
    (context : Context) (accounting : Accounting) : AdapterValidationResult Accounting :=
  if collection == .Blocks && contract.wireId == .MistralConversations
      && isToolResultMessage context then
    match accounting.mistral with
    | [] => .error .InvalidContract
    | innermost :: outer =>
        if innermost.normalBlocks + 1 > 255 then .error .InvalidContract
        else
          .ok { accounting with
            mistral := { innermost with normalBlocks := innermost.normalBlocks + 1 } :: outer }
  else .ok accounting

/-- One more composite in the innermost tool result. -/
def countComposite (source : AdapterScalarSource) (accounting : Accounting) :
    AdapterValidationResult Accounting :=
  if source == .MistralToolResultContent then
    match accounting.mistral with
    | [] => .error .InvalidContract
    | innermost :: outer =>
        if innermost.composites + 1 > 255 then .error .InvalidContract
        else
          .ok { accounting with
            mistral := { innermost with composites := innermost.composites + 1 } :: outer }
  else .ok accounting

def tracksMistral (contract : AdapterContractV1) (source : AdapterVariantSource)
    (ordinal : Nat) : Bool :=
  contract.wireId == .MistralConversations && source == .Message && ordinal == 2

/-- In front of the case of a tool result. -/
def openCase (contract : AdapterContractV1) (source : AdapterVariantSource) (ordinal : Nat)
    (accounting : Accounting) : Accounting :=
  if tracksMistral contract source ordinal then
    { accounting with mistral := ⟨0, 0⟩ :: accounting.mistral }
  else accounting

/-- Behind it: a tool result has one composite and no array of blocks. -/
def closeCase (contract : AdapterContractV1) (source : AdapterVariantSource) (ordinal : Nat)
    (accounting : Accounting) : AdapterValidationResult Accounting :=
  if tracksMistral contract source ordinal then
    match accounting.mistral with
    | [] => .error .InvalidContract
    | innermost :: outer =>
        if innermost.normalBlocks != 0 || innermost.composites != 1 then .error .InvalidContract
        else .ok { accounting with mistral := outer }
  else .ok accounting

/-! ## The walk -/

/-- The scope of a case. -/
def caseScope (source : AdapterVariantSource) (ordinal : Nat) (scope : LexicalScope) :
    LexicalScope :=
  if source == .SystemMessageEntry then if ordinal == 0 then .System else .MessageEntry
  else scope

def caseContext (source : AdapterVariantSource) (ordinal : Nat) (context : Context) : Context where
  scope := caseScope source ordinal context.scope
  cases := ⟨source, ordinal⟩ :: context.cases
  wrappers := context.wrappers

/-- The context below a wrapper. -/
def wrappedContext (presence : AdapterPresence) (source : Option AdapterPresenceSource)
    (context : Context) : AdapterValidationResult Context :=
  if presence == .Required then .ok context
  else
    match source with
    | none => .error .InvalidContract
    | some source => .ok { context with wrappers := source :: context.wrappers }

/-- The checks of an array, and the context of its items. -/
def validateArray (contract : AdapterContractV1) (collection : AdapterCollection)
    (context : Context) (accounting : Accounting) :
    AdapterValidationResult (Context × Accounting) := do
  let accounting ← validateRootCollection collection context accounting
  if collection == .SystemMessages && contract.wireId != .OpenAiCompletions
      && contract.wireId != .MistralConversations then .error .InvalidContract
  else
    let accounting ← countBlocks contract collection context accounting
    let scope ← collectionItemScope collection context
    return ({ context with scope := scope }, accounting)

/-- The checks of a scalar. -/
def validateValue (contract : AdapterContractV1) (value : ContractValue) (context : Context)
    (accounting : Accounting) : AdapterValidationResult Accounting := do
  let accounting ← validateSystemJoined value.source context accounting
  validateScalar contract value.source value.transform context
  countComposite value.source accounting

/-- `walk_node`.  `fuel` bounds the recursion along the indices. -/
def walkNode (contract : AdapterContractV1) : Nat → Nat → Context → Accounting → Run Accounting
  | 0, _, _, _ => .error .Stuck
  | fuel + 1, index, context, accounting =>
      match contract.tree.nodes[index]? with
      | none => .error .Stuck
      | some node => do
          returned (validateWrapper node.presence node.presenceSource context)
          let context ← returned (wrappedContext node.presence node.presenceSource context)
          match node.body with
          | .Object object =>
              object.children.foldlM
                (fun accounting child => walkNode contract fuel child context accounting)
                accounting
          | .Array array => do
              let (inner, accounting) ←
                returned (validateArray contract array.collection context accounting)
              walkNode contract fuel array.item inner accounting
          | .Switch switch => do
              returned (validateSwitch contract.wireId switch.source context)
              switch.cases.foldlM (fun accounting case => do
                let accounting ← walkNode contract fuel case.node
                  (caseContext switch.source case.variantOrdinal context)
                  (openCase contract switch.source case.variantOrdinal accounting)
                returned (closeCase contract switch.source case.variantOrdinal accounting))
                accounting
          | .Value value => returned (validateValue contract value context accounting)
          | .Constant _ => .ok accounting

/-- `validate_semantics`. -/
def validateSemantics (contract : AdapterContractV1) : Run Unit := do
  let _ ← walkNode contract contract.tree.nodes.length contract.tree.root ⟨.Root, [], []⟩
    ⟨⟨false, false, false, false⟩, []⟩
  return ()

/-- `validate_contract`. -/
def validateContract (contract : AdapterContractV1) : Run Unit := do
  if contract.version != 1 || contract.wireId.ordinal != contract.decoderKind.ordinal then
    .error (.Refused .InvalidContract)
  else
    returned (validateTreeShape contract)
    validateSemantics contract
    returned (validateHeaderRules contract.ordinaryHeaderRules)

end MCode.Adapter
