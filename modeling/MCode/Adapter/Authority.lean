import MCode.Adapter.Bounded

/-!
# Authority fields

The provider, route, digest, operation, request and turn of a request, the
stamps of its images, and the stamps and sources of its proofs say where it
comes from.  A contract does not see them: the evaluation reads the content of
a request only.
-/

namespace MCode.Adapter

open MCode.Lib.Results
open MCode.Validation (ValidationResult)

/-! ## The content of a request -/

def ImageView.content (image : ImageView) : ImageView := { image with stamp := "" }

def ReasoningProofView.content (proof : ReasoningProofView) : ReasoningProofView :=
  { proof with stamp := "", sourceRequestId := "", sourceTurnId := "", sourceContentIndex := 0 }

def ReasoningBlock.content (block : ReasoningBlock) : ReasoningBlock :=
  { block with proof := block.proof.map (·.content) }

def UserBlock.content : UserBlock → UserBlock
  | .Text block => .Text block
  | .Image image => .Image image.content

def AssistantBlock.content : AssistantBlock → AssistantBlock
  | .Text block => .Text block
  | .Reasoning block => .Reasoning block.content
  | .ToolCall call => .ToolCall call

def ToolResultBlock.content : ToolResultBlock → ToolResultBlock
  | .Text block => .Text block
  | .Image image => .Image image.content

def Message.content : Message → Message
  | .User message => .User ⟨message.blocks.map (·.content)⟩
  | .Assistant message => .Assistant ⟨message.blocks.map (·.content)⟩
  | .ToolResult message => .ToolResult { message with blocks := message.blocks.map (·.content) }

/-- A request without its authority fields. -/
def PrepareInput.content (input : PrepareInput) : PrepareInput :=
  { input with
    providerId := ""
    routeId := ""
    catalogDigest := ""
    operationId := ""
    requestId := ""
    turnId := ""
    messages := input.messages.map (·.content) }

def Scope.content : Scope → Scope
  | .Root => .Root
  | .System index text => .System index text
  | .SystemEntry index text => .SystemEntry index text
  | .Message index message => .Message index message.content
  | .MessageEntry index message => .MessageEntry index message.content
  | .UserBlock index position block => .UserBlock index position block.content
  | .AssistantBlock index position block => .AssistantBlock index position block.content
  | .ToolResultBlock index position block => .ToolResultBlock index position block.content
  | .Tool index => .Tool index

def Evaluator.content (self : Evaluator) : Evaluator := { self with original := self.original.content }

/-! ## Absence, collections and variants -/

theorem absence_content (original : PrepareInput) (presence : AdapterPresence)
    (source : Option AdapterPresenceSource) (scope : Scope) :
    absence original.content presence source scope.content =
      absence original presence source scope := by
  cases presence with
  | Required => cases source <;> rfl
  | OmitForUnset =>
      cases source with
      | none => rfl
      | some source => cases scope <;> rfl
  | OmitIfNone =>
      cases source with
      | none => rfl
      | some source =>
          cases source <;> try rfl
          cases scope <;> try rfl
          rename_i index position block
          cases block <;> try rfl
          rename_i block
          obtain ⟨kind, text, proof⟩ := block
          cases proof <;> rfl

theorem omitNode_content (original : PrepareInput) (node : ContractNode) (scope : Scope) :
    omitNode original.content node scope.content = omitNode original node scope := by
  unfold omitNode
  rw [absence_content]

theorem blockScopes_content (index : Nat) (message : Message) :
    blockScopes index message.content = (blockScopes index message).map (·.content) := by
  cases message with
  | User message => simp [blockScopes, Message.content, Scope.content, List.zipIdx_map]
  | Assistant message => simp [blockScopes, Message.content, Scope.content, List.zipIdx_map]
  | ToolResult message => simp [blockScopes, Message.content, Scope.content, List.zipIdx_map]

theorem map_taken {α β : Type} (f : α → β) (debt : Debt) (value : α) :
    f <$> (do consume debt; return value : Eval α) = (do consume debt; return f value) := by
  rw [map_bind]
  simp only [map_pure]

theorem messageScopes_content (self : Evaluator) {wrap : Nat → Message → Scope}
    (h : ∀ index message, wrap index message.content = (wrap index message).content) :
    (self.content.original.messages.zipIdx.map fun (message, index) => wrap index message) =
      (self.original.messages.zipIdx.map fun (message, index) => wrap index message).map
        (·.content) := by
  change ((self.original.messages.map (·.content)).zipIdx.map _) = _
  rw [List.zipIdx_map, List.map_map, List.map_map]
  exact List.map_congr_left fun entry _ => h entry.2 entry.1

theorem systemMessageScopes_content (self : Evaluator) :
    systemMessageScopes self.content =
      (fun scopes => scopes.map (·.content)) <$> systemMessageScopes self := by
  have hlength : self.content.original.messages.length = self.original.messages.length :=
    List.length_map ..
  unfold systemMessageScopes
  rw [hlength]
  change (if self.contract.wireId == _ || self.contract.wireId == _ then _ else _) = _
  split
  · rw [messageScopes_content self fun _ _ => rfl]
    simp only [map_bind]
    refine bind_congr fun _ => bind_congr fun _ => ?_
    change (if self.original.system.length + _ > _ then _ else _) = _
    split
    · rfl
    · rw [map_pure, List.map_append, List.map_map, List.map_map]
      rfl
  · rfl

/-- The scopes of a collection, each without its authority fields. -/
theorem collectionScopes_content (self : Evaluator) (collection : AdapterCollection)
    (scope : Scope) :
    collectionScopes self.content collection scope.content =
      (fun scopes => scopes.map (·.content)) <$> collectionScopes self collection scope := by
  cases collection with
  | System =>
      cases scope <;> try rfl
      rw [collectionScopes, map_taken, List.map_map]
      rfl
  | Messages =>
      cases scope <;> try rfl
      rw [collectionScopes, map_taken, ← messageScopes_content self fun _ _ => rfl]
      rfl
  | SystemMessages =>
      cases scope <;> try rfl
      exact systemMessageScopes_content self
  | Blocks =>
      cases scope <;> try rfl
      all_goals
        rw [collectionScopes, map_taken, ← blockScopes_content]
        rfl
  | Tools =>
      cases scope <;> try rfl
      rw [collectionScopes, map_taken, List.map_map]
      rfl

theorem variantOrdinal_content (self : Evaluator) (source : AdapterVariantSource)
    (scope : Scope) :
    variantOrdinal self.content source scope.content = variantOrdinal self source scope := by
  cases scope with
  | Root => cases source <;> rfl
  | System index text => cases source <;> rfl
  | SystemEntry index text => cases source <;> rfl
  | Message index message => cases source <;> cases message <;> rfl
  | MessageEntry index message => cases source <;> cases message <;> rfl
  | UserBlock index position block => cases source <;> cases block <;> rfl
  | AssistantBlock index position block => cases source <;> cases block <;> rfl
  | ToolResultBlock index position block => cases source <;> cases block <;> rfl
  | Tool index => cases source <;> rfl

/-! ## Scalars -/

section

variable (transform : AdapterTransform) (scope : Scope)

theorem scopeMessage_content :
    scopeMessage scope.content =
      (scopeMessage scope).map fun (index, message) => (index, message.content) := by
  cases scope <;> rfl

theorem toolResult_content :
    toolResult scope.content = (toolResult scope).map fun (index, result) =>
      (index, { result with blocks := result.blocks.map (·.content) }) := by
  cases scope with
  | Message index message => cases message <;> rfl
  | MessageEntry index message => cases message <;> rfl
  | _ => rfl

theorem blockKindOf_content : blockKindOf scope.content = blockKindOf scope := by
  cases scope with
  | UserBlock index position block => cases block <;> rfl
  | AssistantBlock index position block => cases block <;> rfl
  | ToolResultBlock index position block => cases block <;> rfl
  | _ => rfl

theorem blockTextOf_content : blockTextOf scope.content = blockTextOf scope := by
  cases scope with
  | UserBlock index position block => cases block <;> rfl
  | AssistantBlock index position block => cases block <;> rfl
  | ToolResultBlock index position block => cases block <;> rfl
  | _ => rfl

theorem toolCallOf_content : toolCallOf scope.content = toolCallOf scope := by
  cases scope with
  | AssistantBlock index position block => cases block <;> rfl
  | _ => rfl

theorem reasoningOf_content :
    reasoningOf scope.content = (reasoningOf scope).map fun (index, position, block) =>
      (index, position, block.content) := by
  cases scope with
  | AssistantBlock index position block => cases block <;> rfl
  | _ => rfl

theorem imageOf_content :
    imageOf scope.content = (imageOf scope).map fun (index, position, image) =>
      (index, position, image.content) := by
  cases scope with
  | UserBlock index position block => cases block <;> rfl
  | ToolResultBlock index position block => cases block <;> rfl
  | _ => rfl

theorem toolOf_content (self : Evaluator) :
    toolOf self.content scope.content = toolOf self scope := by
  cases scope <;> rfl

theorem requireRoot_content : requireRoot scope.content = requireRoot scope := by
  cases scope <;> rfl

end

/-- What is made of a part of the content is made of the part that it comes from. -/
theorem lift_map {α β γ : Type} (result : AdapterValidationResult α) (f : α → β)
    (next : β → Eval γ) :
    (lift (returned (result.map f)) >>= next) = lift (returned result) >>= fun a => next (f a) := by
  cases result <;> rfl

section

variable (self : Evaluator) (transform : AdapterTransform) (scope : Scope)

theorem rootKind_content (part : RequestDebt) (source : AdapterEnumSource) (ordinal : Nat) :
    rootKind self.content transform scope.content part source ordinal =
      rootKind self transform scope part source ordinal := by
  unfold rootKind
  rw [requireRoot_content]
  rfl

theorem systemItem_content : systemItem transform scope.content = systemItem transform scope := by
  cases scope <;> rfl

theorem systemJoined_content :
    systemJoined self.content transform scope.content = systemJoined self transform scope := by
  unfold systemJoined
  rw [requireRoot_content]
  rfl

theorem messageRole_content :
    messageRole self.content transform scope.content = messageRole self transform scope := by
  have hordinal (message : Message) : messageOrdinal message.content = messageOrdinal message := by
    cases message <;> rfl
  unfold messageRole
  rw [scopeMessage_content, lift_map]
  simp only [hordinal]
  rfl

theorem toolCallText_content (part : BlockDebt) (text : ToolCallBlock → String) :
    toolCallText transform scope.content part text = toolCallText transform scope part text := by
  unfold toolCallText
  rw [toolCallOf_content]

theorem toolText_content (part : ToolDebt) (text : ToolDefinition → String) :
    toolText self.content transform scope.content part text =
      toolText self transform scope part text := by
  unfold toolText
  rw [toolOf_content]

theorem proofBytes_content : proofBytes transform scope.content = proofBytes transform scope := by
  unfold proofBytes
  rw [reasoningOf_content, lift_map]
  refine bind_congr fun part => ?_
  obtain ⟨index, position, ⟨kind, text, proof⟩⟩ := part
  cases proof <;> rfl

theorem imageNumber_content (part : BlockDebt) (number : ImageMetadata → Nat) :
    imageNumber transform scope.content part number = imageNumber transform scope part number := by
  unfold imageNumber
  rw [imageOf_content, lift_map]
  rfl

/-- The texts of a result, and its images without their stamps. -/
theorem resultBlocks_content (blocks : List ToolResultBlock) :
    (blocks.map (·.content)).filterMap (·.text?) = blocks.filterMap (·.text?) ∧
      (blocks.map (·.content)).filterMap (·.image?) =
        (blocks.filterMap (·.image?)).map (·.content) := by
  rw [List.filterMap_map, List.filterMap_map, List.map_filterMap]
  constructor
  · exact List.filterMap_congr fun block _ => by cases block <;> rfl
  · exact List.filterMap_congr fun block _ => by cases block <;> rfl

theorem mistralChunks_content (texts : List String) (images : List ImageView) (isError : Bool) :
    mistralChunks texts (images.map (·.content)) isError = mistralChunks texts images isError := by
  unfold mistralChunks
  rw [List.mapM_map, List.mapM_map, List.isEmpty_map]
  rfl

theorem consumeResultBlocks_content (index : Nat) (blocks : List ToolResultBlock) :
    (blocks.map (·.content)).zipIdx.forM (consumeResultBlock index) =
      blocks.zipIdx.forM (consumeResultBlock index) := by
  rw [List.zipIdx_map]
  refine List.forM_map.trans ?_
  refine congrArg (List.forM blocks.zipIdx) (funext fun entry => ?_)
  obtain ⟨block, position⟩ := entry
  cases block <;> rfl

theorem mistralContent_content :
    mistralContent self.content transform scope.content = mistralContent self transform scope := by
  unfold mistralContent
  rw [toolResult_content]
  refine bind_congr fun _ => ?_
  rw [lift_map]
  refine bind_congr fun part => ?_
  obtain ⟨index, result⟩ := part
  dsimp only
  rw [consumeResultBlocks_content, (resultBlocks_content result.blocks).1,
    (resultBlocks_content result.blocks).2, mistralChunks_content]
  rfl

theorem scalar_content (source : AdapterScalarSource) :
    scalar self.content source transform scope.content = scalar self source transform scope := by
  cases source with
  | SelectedModel =>
      simp only [scalar, modelValue, requireRoot_content]
      rfl
  | SelectionKind => exact rootKind_content self transform scope _ _ _
  | SystemItem => exact systemItem_content transform scope
  | SystemJoined => exact systemJoined_content self transform scope
  | MessageRole => exact messageRole_content self transform scope
  | BlockKind =>
      simp only [scalar, blockKind, blockKindOf_content]
      rfl
  | BlockText => simp only [scalar, blockText, blockTextOf_content]
  | ToolResultCallId =>
      simp only [scalar, toolResultCallId, toolResult_content, lift_map]
  | ToolResultIsError =>
      simp only [scalar, toolResultIsError, toolResult_content, lift_map]
      rfl
  | ToolResultStatus =>
      simp only [scalar, toolResultStatus, toolResult_content, lift_map]
      rfl
  | ToolResultName =>
      simp only [scalar, toolResultName, toolResult_content, lift_map]
      rfl
  | MistralToolResultContent => exact mistralContent_content self transform scope
  | ToolCallId => exact toolCallText_content transform scope _ _
  | ToolCallName => exact toolCallText_content transform scope _ _
  | ToolCallArguments => simp only [scalar, toolCallArguments, toolCallOf_content]
  | ToolName => exact toolText_content self transform scope _ _
  | ToolDescription => exact toolText_content self transform scope _ _
  | ToolSchema => simp only [scalar, toolSchema, toolOf_content]
  | ReasoningKind =>
      simp only [scalar, reasoningKind, reasoningOf_content, lift_map]
      rfl
  | Proof => exact proofBytes_content transform scope
  | ImageBytes =>
      simp only [scalar, imageBytes, imageOf_content, lift_map]
      rfl
  | ImageMediaType =>
      simp only [scalar, imageMediaType, imageOf_content, lift_map]
      rfl
  | ImageWidth => exact imageNumber_content transform scope _ _
  | ImageHeight => exact imageNumber_content transform scope _ _
  | ImageFrames => exact imageNumber_content transform scope _ _
  | ImageDataUri =>
      simp only [scalar, imageDataUri, imageOf_content, lift_map]
      rfl
  | ToolChoiceKind => exact rootKind_content self transform scope _ _ _
  | ToolChoiceName =>
      simp only [scalar, toolChoiceName, requireRoot_content]
      rfl
  | ReasoningMode => exact rootKind_content self transform scope _ _ _
  | ReasoningEffort =>
      simp only [scalar, reasoningEffort, requireRoot_content]
      rfl
  | ReasoningBudget =>
      simp only [scalar, reasoningBudget, requireRoot_content]
      rfl
  | CacheRetention => exact rootKind_content self transform scope _ _ _
  | MaxOutput =>
      simp only [scalar, maxOutput, requireRoot_content]
      rfl

end

/-! ## Nodes -/

/-- The value of a node is that of the content. -/
theorem evalNode_content (self : Evaluator) (fuel index : Nat) (scope : Scope) :
    evalNode self.content fuel index scope.content = evalNode self fuel index scope := by
  induction fuel generalizing index scope with
  | zero => rfl
  | succ fuel ih =>
      rw [evalNode, evalNode]
      have hcontract : self.content.contract = self.contract := rfl
      rw [hcontract]
      cases self.contract.tree.nodes[index]? with
      | none => rfl
      | some node =>
          change (omitNode self.original.content node scope.content >>= _) =
            (omitNode self.original node scope >>= _)
          rw [omitNode_content]
          refine bind_congr fun absent => ?_
          by_cases habsent : absent = true
          · rw [if_pos habsent, if_pos habsent]
          · rw [if_neg habsent, if_neg habsent]
            cases node.body with
            | Object object => simp only [ih]
            | Array array =>
                simp only [collectionScopes_content, bind_map_left, List.length_map,
                  List.mapM_map, Function.comp_def, ih]
            | Switch switch => simp only [variantOrdinal_content, ih]
            | Value value => simp only [scalar_content]
            | Constant constant => rfl

/-! ## Matched tool results -/

/-- The calls of a block. -/
def AssistantBlock.calls : AssistantBlock → List (String × String)
  | .ToolCall call => [(call.callId, call.name)]
  | _ => []

/-- The calls that wait after a message, and the results that were matched. -/
def matchMessage (state : List (String × String) × MatchedToolResults) (message : Message) :
    List (String × String) × MatchedToolResults :=
  match message, state with
  | .User _, state => state
  | .Assistant message, (pending, results) =>
      (pending ++ message.blocks.flatMap (·.calls), results)
  | .ToolResult _, ([], results) => ([], results)
  | .ToolResult message, ((callId, name) :: pending, results) =>
      (pending, (callId, ⟨callId, name, resultStatus message.isError⟩) :: results)

def matchMessages (messages : List Message) : MatchedToolResults :=
  (messages.foldl matchMessage ([], [])).2

theorem matchMessage_content (state : List (String × String) × MatchedToolResults)
    (message : Message) : matchMessage state message.content = matchMessage state message := by
  obtain ⟨pending, results⟩ := state
  cases message with
  | User message => rfl
  | ToolResult message => cases pending <;> rfl
  | Assistant message =>
      have hcalls (block : AssistantBlock) : block.content.calls = block.calls := by
        cases block <;> rfl
      simp only [Message.content, matchMessage, List.flatMap_map, hcalls]

theorem matchMessages_content (messages : List Message) :
    matchMessages (messages.map (·.content)) = matchMessages messages := by
  unfold matchMessages
  rw [List.foldl_map]
  simp only [matchMessage_content]

/-- The part of a state that the matched results are made of. -/
def MessageState.results (state : MessageState) :
    List (String × String) × MatchedToolResults :=
  (state.pending, state.matchedToolResults)

theorem validateAssistantBlock_results {definitions : List String} {selected : CatalogEntry}
    {state after : MessageState} {block : AssistantBlock}
    (h : validateAssistantBlock definitions selected state block = .ok after) :
    after.results = (state.pending ++ block.calls, state.matchedToolResults) := by
  obtain ⟨charge, -, h⟩ := bind_ok.1 h
  cases block with
  | Text text =>
      obtain ⟨charge, -, h⟩ := bind_ok.1 h
      cases h
      simp [MessageState.results, AssistantBlock.calls]
  | Reasoning reasoning =>
      obtain ⟨⟨proofBytes, charge⟩, -, h⟩ := bind_ok.1 h
      cases h
      simp [MessageState.results, AssistantBlock.calls]
  | ToolCall call =>
      obtain ⟨-, h⟩ := bind_unit_ok.1 h
      obtain ⟨-, h⟩ := bind_unit_ok.1 h
      split at h
      · cases h
      · obtain ⟨statistics, -, h⟩ := bind_ok.1 h
        obtain ⟨charge, -, h⟩ := bind_ok.1 h
        obtain ⟨charge, -, h⟩ := bind_ok.1 h
        obtain ⟨charge, -, h⟩ := bind_ok.1 h
        cases h
        rfl

theorem validateAssistantBlocks_results {definitions : List String} {selected : CatalogEntry}
    {blocks : List AssistantBlock} {state after : MessageState}
    (h : blocks.foldlM (validateAssistantBlock definitions selected) state = .ok after) :
    after.results = (state.pending ++ blocks.flatMap (·.calls), state.matchedToolResults) := by
  induction blocks generalizing state with
  | nil =>
      cases h
      simp [MessageState.results]
  | cons block blocks ih =>
      rw [List.foldlM_cons] at h
      obtain ⟨middle, hmiddle, h⟩ := bind_ok.1 h
      have hblock := validateAssistantBlock_results hmiddle
      simp only [MessageState.results, Prod.mk.injEq] at hblock
      rw [ih h, hblock.1, hblock.2, List.flatMap_cons, List.append_assoc]

theorem validateToolResult_results {selected : CatalogEntry} {state after : MessageState}
    {result : ToolResultMessage} (h : validateToolResult selected state result = .ok after) :
    after.results = matchMessage state.results (.ToolResult result) := by
  obtain ⟨pending, callIds, proofBytes, hasCalls, results, charge⟩ := state
  unfold validateToolResult at h
  cases pending with
  | nil => cases h
  | cons first pending =>
      obtain ⟨callId, name⟩ := first
      dsimp only at h
      split at h
      · cases h
      · obtain ⟨-, h⟩ := bind_unit_ok.1 h
        obtain ⟨-, h⟩ := bind_unit_ok.1 h
        obtain ⟨charge, -, h⟩ := bind_ok.1 h
        obtain ⟨charge, -, h⟩ := bind_ok.1 h
        obtain ⟨charge, -, h⟩ := bind_ok.1 h
        obtain ⟨charge, -, h⟩ := bind_ok.1 h
        split at h
        · cases h
        · cases h
          rfl

/-- A message that is accepted is matched. -/
theorem validateMessage_results {definitions : List String} {selected : CatalogEntry}
    {state after : MessageState} {message : Message}
    (h : validateMessage definitions selected state message = .ok after) :
    after.results = matchMessage state.results message := by
  obtain ⟨charge, -, h⟩ := bind_ok.1 h
  cases message with
  | User user =>
      dsimp only at h
      split at h
      · cases h
      · obtain ⟨-, h⟩ := bind_unit_ok.1 h
        obtain ⟨charge, -, h⟩ := bind_ok.1 h
        obtain ⟨charge, -, h⟩ := bind_ok.1 h
        cases h
        rfl
  | Assistant assistant =>
      dsimp only at h
      split at h
      · cases h
      · obtain ⟨-, h⟩ := bind_unit_ok.1 h
        obtain ⟨charge, -, h⟩ := bind_ok.1 h
        have hblocks := validateAssistantBlocks_results h
        exact hblocks
  | ToolResult result =>
      have hresult := validateToolResult_results h
      exact hresult

theorem validateMessages_results {messages : List Message} {definitions : List String}
    {selected : CatalogEntry} {charge : MCode.Validation.LogicalCharge} {state : MessageState}
    (h : validateMessages messages definitions selected charge = .ok state) :
    state.matchedToolResults = matchMessages messages := by
  obtain ⟨last, hlast, h⟩ := bind_ok.1 h
  split at h
  · cases h
  · rw [← Except.ok.inj h]
    have hrun {messages : List Message} {before : MessageState}
        (h : messages.foldlM (validateMessage definitions selected) before = .ok last) :
        last.results = messages.foldl matchMessage before.results := by
      induction messages generalizing before with
      | nil =>
          cases h
          rfl
      | cons message messages ih =>
          rw [List.foldlM_cons] at h
          obtain ⟨middle, hmiddle, h⟩ := bind_ok.1 h
          rw [ih h, validateMessage_results hmiddle, List.foldl_cons]
    exact congrArg Prod.snd (hrun hlast)

/-- The results that were matched are those of the messages. -/
theorem validatePrepareInput_results {input : PrepareInput} {selected : SelectedCatalogView}
    {prepared : ValidatedPrepare} (h : validatePrepareInput input selected = .ok prepared) :
    prepared.matchedToolResults = matchMessages input.messages := by
  unfold validatePrepareInput at h
  -- the identities and the system texts
  iterate 22 obtain ⟨_, -, h⟩ := bind_ok.1 h
  obtain ⟨⟨definitions, charge⟩, -, h⟩ := bind_ok.1 h
  iterate 2 obtain ⟨_, -, h⟩ := bind_ok.1 h
  obtain ⟨facts, hfacts, h⟩ := bind_ok.1 h
  iterate 4 obtain ⟨_, -, h⟩ := bind_ok.1 h
  split at h
  · cases h
  · cases h
    exact validateMessages_results hfacts

/-! ## Two requests -/

/-- What an evaluation that succeeds has evaluated. -/
theorem evaluateContract_ok {contract : AdapterContractV1} {selected : ValidatedCatalogEntryView}
    {original : PrepareInput} {body : AdapterJson}
    (h : evaluateContract contract selected original = .ok body) :
    ∃ ledger, evalNode ⟨contract, original, matchMessages original.messages⟩
        contract.tree.nodes.length contract.tree.root .Root ⟨[], []⟩ = .ok (some body, ledger) ∧
      sameNames ledger.consumed ((expectedDebts contract.wireId original).map (·.name)) =
        true := by
  obtain ⟨-, h⟩ := bind_unit_ok.1 h
  obtain ⟨-, h⟩ := bind_unit_ok.1 h
  obtain ⟨prepared, hprepared, h⟩ := bind_ok.1 h
  obtain ⟨⟨value, ledger⟩, hvalue, h⟩ := bind_ok.1 h
  rw [validatePrepareInput_results (mapError_ok.1 (mapError_ok.1 hprepared))] at hvalue
  have hsettle : settle (expectedDebts contract.wireId original) value ledger = .ok body :=
    mapError_ok.1 h
  obtain ⟨found, hfound, hend⟩ := bind_ok.1 hsettle
  cases value with
  | none => cases hfound
  | some value =>
      cases hfound
      split at hend
      · rename_i hnames
        cases hend
        exact ⟨ledger, hvalue, hnames⟩
      · cases hend

/-- Requests with one content, whatever their authority fields, have one body, and the same
prepared bodies and headers pass for them. -/
theorem evaluation_ignores_authority (digests : Digests) (contract : AdapterContractV1)
    (selected otherSelected : ValidatedCatalogEntryView) (original other : PrepareInput)
    (hcontent : original.content = other.content) (body otherBody : AdapterJson)
    (hbody : evaluateContract contract selected original = .ok body)
    (hother : evaluateContract contract otherSelected other = .ok otherBody) :
    body = otherBody ∧ ∀ prepared headers,
      validateAdapter digests contract selected original prepared headers =
        validateAdapter digests contract otherSelected other prepared headers := by
  have hmatched : matchMessages original.messages = matchMessages other.messages := by
    have hmessages : original.messages.map (·.content) = other.messages.map (·.content) :=
      congrArg PrepareInput.messages hcontent
    rw [← matchMessages_content, hmessages, matchMessages_content]
  obtain ⟨ledger, hvalue, -⟩ := evaluateContract_ok hbody
  obtain ⟨otherLedger, hotherValue, -⟩ := evaluateContract_ok hother
  rw [← evalNode_content] at hvalue hotherValue
  unfold Evaluator.content at hvalue hotherValue
  rw [hcontent, hmatched] at hvalue
  have hsame : body = otherBody := by
    rw [hvalue] at hotherValue
    cases hotherValue
    rfl
  refine ⟨hsame, fun prepared headers => ?_⟩
  unfold validateAdapter
  rw [hbody, hother, hsame]

def plainEntry (provider : String) : ValidatedCatalogEntryView where
  providerId := provider
  routeId := "route"
  catalogDigest := "sha256:0000000000000000000000000000000000000000000000000000000000000000"
  selection := .Exact "model"
  currentModel := "model"
  inputModalities := [.Text]
  toolCapability := ⟨.Supported, .Supported, .Supported, .Supported⟩
  reasoningCapability := ⟨.Unsupported, .Unsupported, .Unsupported, .Unsupported⟩
  contextTokens := none
  maxOutputTokens := none
  completionOperation := "complete"

/-- A request with a system text, a message and a tool. -/
def plainRequest (provider request turn system text : String) : PrepareInput where
  providerId := provider
  routeId := "route"
  catalogDigest := "sha256:0000000000000000000000000000000000000000000000000000000000000000"
  selection := .Exact "model"
  currentModel := "model"
  operationId := "complete"
  requestId := request
  turnId := turn
  system := [system]
  messages := [.User ⟨[.Text ⟨text⟩]⟩]
  tools := [⟨"tool", "a tool", ⟨0, [.ObjectValue []]⟩⟩]
  toolChoice := .Auto
  reasoning := .Unset
  cacheRetention := .None
  maxOutputTokens := none

/-- Two providers are asked the same in two turns. -/
theorem evaluation_ignores_authority_turns :
    ∃ body, evaluateContract plainContract (plainEntry "first")
        (plainRequest "first" "r1" "t1" "system" "text") = .ok body ∧
      evaluateContract plainContract (plainEntry "second")
        (plainRequest "second" "r2" "t2" "system" "text") = .ok body := by
  obtain ⟨body, hbody⟩ : ∃ body, evaluateContract plainContract (plainEntry "first")
      (plainRequest "first" "r1" "t1" "system" "text") = .ok body :=
    isOk_true.1 (by decide +kernel)
  obtain ⟨otherBody, hother⟩ : ∃ body, evaluateContract plainContract (plainEntry "second")
      (plainRequest "second" "r2" "t2" "system" "text") = .ok body :=
    isOk_true.1 (by decide +kernel)
  have hsame := (evaluation_ignores_authority ⟨fun _ => .ok "", fun _ => .ok "", fun _ => .ok ""⟩
    plainContract _ _ (plainRequest "first" "r1" "t1" "system" "text")
    (plainRequest "second" "r2" "t2" "system" "text") rfl body otherBody hbody hother).1
  exact ⟨body, hbody, hsame ▸ hother⟩

end MCode.Adapter
