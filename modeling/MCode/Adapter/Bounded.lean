import MCode.Adapter.Evaluate
import MCode.Adapter.Shape
import MCode.Adapter.Subtree

/-!
# Evaluation stays within a contract

The evaluation of an accepted contract returns for every request: it follows
the references of one tree down, and every case, table and entry that it looks
up is there.
-/

namespace MCode.Adapter

open MCode.Lib
open MCode.Lib.Results

/-- The call returns, and it has found what it looked for by an index. -/
def Fault.InBounds : Fault → Prop
  | .Stuck => False
  | .Missing => False
  | .Consumed => True
  | .Refused _ => True

theorem Fault.OfRequest.inBounds {fault : Fault} (h : fault.OfRequest) : fault.InBounds := by
  obtain ⟨error, rfl, -⟩ := h
  trivial

theorem returned_inBounds {α : Type} (result : AdapterValidationResult α) :
    Ends Fault.InBounds (fun value => result = .ok value) (returned result) :=
  (ends_returned result).mono (fun _ ⟨_, _, h⟩ => h ▸ trivial) fun _ h => h

theorem lookup_ends {α : Type} {items : List α} {index : Nat} (h : index < items.length) :
    Ends Fault.InBounds (fun item => items[index]? = some item) (lookup items index) := by
  unfold lookup
  rw [List.getElem?_eq_getElem h]
  rfl

/-! ## Steps of the evaluation -/

section

variable {α : Type} {fails : Fault → Prop} {returns : α → Prop}

theorem consume_outcome (h : fails .Consumed) (debt : Debt) :
    Outcome fails (fun _ => True) (consume debt) := by
  intro ledger
  unfold consume
  split
  · exact h
  · trivial

theorem consumeOptional_outcome (h : fails .Consumed) (source : Debt) :
    Outcome fails (fun _ => True) (consumeOptional source) := by
  intro ledger
  unfold consumeOptional
  split
  · exact h
  · trivial

theorem settled_outcome (h : fails .Consumed) {debt : Debt} {value : Run AdapterJson}
    {returns : AdapterJson → Prop} (hvalue : Ends fails returns value) :
    Outcome fails returns (settled debt value) :=
  (consume_outcome h debt).bind fun _ _ => Outcome.lift hvalue

theorem settledOptional_outcome (h : fails .Consumed) {source : Debt} {value : Run AdapterJson}
    {returns : AdapterJson → Prop} (hvalue : Ends fails returns value) :
    Outcome fails returns (settledOptional source value) :=
  (consumeOptional_outcome h source).bind fun _ _ => Outcome.lift hvalue

end

/-- The step keeps within the contract. -/
abbrev Bounded {α : Type} (x : Eval α) : Prop := Outcome Fault.InBounds (fun _ => True) x

theorem bounded_returned {α : Type} (result : AdapterValidationResult α) :
    Outcome Fault.InBounds (fun value => result = .ok value) (lift (returned result)) :=
  Outcome.lift (returned_inBounds result)

theorem bounded_refuse {α : Type} {returns : α → Prop} (error : AdapterValidationError) :
    Outcome Fault.InBounds returns (refuse error : Eval α) :=
  fun _ => trivial

theorem bounded_settled {debt : Debt} {value : Run AdapterJson}
    (h : Ends Fault.InBounds (fun _ => True) value) : Bounded (settled debt value) :=
  settled_outcome trivial h

theorem bounded_settledOptional {source : Debt} {value : Run AdapterJson}
    (h : Ends Fault.InBounds (fun _ => True) value) : Bounded (settledOptional source value) :=
  settledOptional_outcome trivial h

theorem ends_refusal {α : Type} (result : AdapterValidationResult α) :
    Ends Fault.InBounds (fun _ => True) (returned result) :=
  (returned_inBounds result).mono (fun _ h => h) fun _ _ => trivial

/-- A part of the scope that is looked at, and what follows. -/
theorem bounded_scoped {α β : Type} {result : AdapterValidationResult α} {next : α → Eval β}
    (h : ∀ value, result = .ok value → Bounded (next value)) :
    Bounded (lift (returned result) >>= next) :=
  (bounded_returned result).bind h

/-! ## Absence, collections and variants -/

theorem bounded_omitNode (original : PrepareInput) (node : ContractNode) (scope : Scope) :
    Bounded (omitNode original node scope) := by
  refine bounded_scoped fun absent _ => ?_
  cases absent with
  | none => exact Outcome.pure trivial
  | some absence =>
      obtain ⟨isAbsent, debt⟩ := absence
      cases isAbsent with
      | false => exact Outcome.pure trivial
      | true => exact (consume_outcome trivial debt).bind fun _ _ => Outcome.pure trivial

theorem bounded_taken {α : Type} (debt : Debt) (value : α) :
    Bounded (do consume debt; return value) :=
  (consume_outcome trivial debt).bind fun _ _ => Outcome.pure trivial

theorem bounded_systemMessageScopes (self : Evaluator) : Bounded (systemMessageScopes self) := by
  unfold systemMessageScopes
  split
  · refine (consume_outcome trivial _).bind fun _ _ => ?_
    refine (consume_outcome trivial _).bind fun _ _ => ?_
    split
    · exact bounded_refuse _
    · exact Outcome.pure trivial
  · exact bounded_refuse _

theorem bounded_collectionScopes (self : Evaluator) (collection : AdapterCollection)
    (scope : Scope) : Bounded (collectionScopes self collection scope) := by
  unfold collectionScopes
  split
  · exact bounded_taken _ _
  · exact bounded_taken _ _
  · exact bounded_taken _ _
  · exact bounded_taken _ _
  · exact bounded_taken _ _
  · exact bounded_systemMessageScopes self
  · exact bounded_refuse _

theorem selectionOrdinal_lt (selection : ModelSelection) : selectionOrdinal selection < 2 := by
  cases selection <;> simp [selectionOrdinal]

theorem messageOrdinal_lt (message : Message) : messageOrdinal message < 3 := by
  cases message <;> simp [messageOrdinal]

theorem userBlockOrdinal_lt (block : UserBlock) : userBlockOrdinal block < 2 := by
  cases block <;> simp [userBlockOrdinal]

theorem assistantBlockOrdinal_lt (block : AssistantBlock) : assistantBlockOrdinal block < 3 := by
  cases block <;> simp [assistantBlockOrdinal]

theorem toolResultBlockOrdinal_lt (block : ToolResultBlock) :
    toolResultBlockOrdinal block < 2 := by
  cases block <;> simp [toolResultBlockOrdinal]

theorem statusOrdinal_lt (isError : Bool) : statusOrdinal isError < 2 := by
  cases isError <;> decide

theorem toolChoiceOrdinal_lt (choice : ToolChoice) : toolChoiceOrdinal choice < 4 := by
  cases choice <;> simp [toolChoiceOrdinal]

theorem reasoningOrdinal_lt (reasoning : Reasoning) : reasoningOrdinal reasoning < 3 := by
  cases reasoning <;> simp [reasoningOrdinal]

theorem cacheOrdinal_lt (retention : CacheRetention) : cacheOrdinal retention < 4 := by
  cases retention <;> decide

theorem reasoningKindOrdinal_lt (kind : ReasoningKind) : reasoningKindOrdinal kind < 2 := by
  cases kind <;> decide

theorem mediaOrdinal_lt (media : ImageMediaType) : mediaOrdinal media < 5 := by
  cases media <;> decide

theorem effortOrdinal_lt (effort : ReasoningEffort) : effortOrdinal effort < 4 := by
  cases effort <;> decide

theorem taken_outcome {α : Type} {returns : α → Prop} (debt : Debt) {value : α}
    (h : returns value) : Outcome Fault.InBounds returns (do consume debt; return value) :=
  (consume_outcome trivial debt).bind fun _ _ => Outcome.pure h

theorem statusVariant_outcome (self : Evaluator) (index : Nat) (result : ToolResultMessage) :
    Outcome Fault.InBounds (· < 2) (statusVariant self index result) := by
  unfold statusVariant
  split
  · exact bounded_refuse _
  · exact taken_outcome _ (statusOrdinal_lt _)

/-- The variant of a source is one of those that the source has. -/
theorem variantOrdinal_outcome (self : Evaluator) (source : AdapterVariantSource)
    (scope : Scope) :
    Outcome Fault.InBounds (· < source.variantCount) (variantOrdinal self source scope) := by
  unfold variantOrdinal
  split
  · exact taken_outcome _ (selectionOrdinal_lt _)
  · exact Outcome.pure (by decide)
  · exact Outcome.pure (by decide)
  · exact taken_outcome _ (messageOrdinal_lt _)
  · exact taken_outcome _ (messageOrdinal_lt _)
  · exact taken_outcome _ (userBlockOrdinal_lt _)
  · exact taken_outcome _ (assistantBlockOrdinal_lt _)
  · exact taken_outcome _ (toolResultBlockOrdinal_lt _)
  · exact statusVariant_outcome self _ _
  · exact statusVariant_outcome self _ _
  · exact taken_outcome _ (toolChoiceOrdinal_lt _)
  · exact taken_outcome _ (reasoningOrdinal_lt _)
  · exact taken_outcome _ (cacheOrdinal_lt _)
  · exact bounded_refuse _

/-! ## Tables -/

section

variable {contract : AdapterContractV1} {source : AdapterScalarSource}
  {transform : AdapterTransform}

theorem enumTable_ends (hlegal : enumTransformMatches contract source transform = true) :
    Ends Fault.InBounds (· ∈ contract.tree.tables) (enumTable contract transform) := by
  unfold enumTransformMatches at hlegal
  unfold enumTable
  split at hlegal
  · rename_i index
    change Ends Fault.InBounds _ (lookup contract.tree.tables index)
    unfold lookup
    cases htable : contract.tree.tables[index]? with
    | none =>
        rw [htable] at hlegal
        cases hlegal
    | some table => exact List.mem_of_getElem? htable
  · cases hlegal

/-- A token is found for each variant of the source that a table is for. -/
theorem enumToken_ends (hstructured : Structured contract)
    (hlegal : enumTransformMatches contract source transform = true)
    {tableSource : AdapterEnumSource} {ordinal : Nat}
    (hordinal : ordinal < tableSource.variantCount) :
    Ends Fault.InBounds
      (fun _ => ∃ table ∈ contract.tree.tables, enumTable contract transform = .ok table ∧
        table.source = tableSource)
      (enumToken contract transform tableSource ordinal) := by
  refine (enumTable_ends hlegal).of_result.bind fun table ⟨hmem, htable⟩ => ?_
  split
  · trivial
  · rename_i hsource
    simp only [bne_iff_ne, ne_eq, not_not] at hsource
    have hcount := (hstructured.tables table hmem).count
    rw [hsource] at hcount
    exact (lookup_ends (by omega)).bind fun _ _ => ⟨table, hmem, htable, hsource⟩

theorem requireStatusTokens_ends {table : EnumTokenTable} (hcount : table.entries.length = 2) :
    Ends Fault.InBounds (fun _ => True) (requireStatusTokens table) := by
  unfold requireStatusTokens
  rw [List.getElem?_eq_getElem (by omega), List.getElem?_eq_getElem (by omega)]
  dsimp only
  split
  · trivial
  · split <;> trivial

/-- Both entries of a status table are there. -/
theorem statusToken_ends (hstructured : Structured contract)
    (hlegal : enumTransformMatches contract source transform = true) (isError : Bool) :
    Ends Fault.InBounds (fun _ => True) (statusToken contract transform isError) := by
  refine (enumToken_ends hstructured hlegal (statusOrdinal_lt isError)).bind
    fun value ⟨table, hmem, htable, hsource⟩ => ?_
  rw [htable]
  have hcount := (hstructured.tables table hmem).count
  rw [hsource] at hcount
  exact (requireStatusTokens_ends hcount).bind fun _ _ => trivial

end

/-! ## Scalars -/

section

variable {self : Evaluator} (hstructured : Structured self.contract)
include hstructured

theorem bounded_settledToken {source : AdapterScalarSource} {transform : AdapterTransform}
    (hlegal : enumTransformMatches self.contract source transform = true) (debt : Debt)
    {table : AdapterEnumSource} {ordinal : Nat} (hordinal : ordinal < table.variantCount) :
    Bounded (settled debt (enumToken self.contract transform table ordinal)) :=
  bounded_settled ((enumToken_ends hstructured hlegal hordinal).mono (fun _ h => h)
    fun _ _ => trivial)

theorem bounded_settledKind {source : AdapterScalarSource} {transform : AdapterTransform}
    (hlegal : enumTransformMatches self.contract source transform = true) (debt : Debt)
    {table : AdapterEnumSource} {ordinal : Nat} (hordinal : ordinal < table.variantCount) :
    Bounded (settledOptional debt (enumToken self.contract transform table ordinal)) :=
  bounded_settledOptional ((enumToken_ends hstructured hlegal hordinal).mono (fun _ h => h)
    fun _ _ => trivial)

theorem bounded_rootKind {source : AdapterScalarSource} {transform : AdapterTransform}
    (hlegal : enumTransformMatches self.contract source transform = true) (scope : Scope)
    (part : RequestDebt) {table : AdapterEnumSource} {ordinal : Nat}
    (hordinal : ordinal < table.variantCount) :
    Bounded (rootKind self transform scope part table ordinal) :=
  bounded_scoped fun _ _ => bounded_settledKind hstructured hlegal _ hordinal

theorem bounded_blockKind {source : AdapterScalarSource} {transform : AdapterTransform}
    (hlegal : enumTransformMatches self.contract source transform = true) (scope : Scope) :
    Bounded (blockKind self transform scope) := by
  refine bounded_scoped fun ⟨index, position, table, ordinal⟩ hblock => ?_
  refine bounded_settledKind hstructured hlegal _ ?_
  unfold blockKindOf at hblock
  split at hblock
  · cases hblock
    exact userBlockOrdinal_lt _
  · cases hblock
    exact assistantBlockOrdinal_lt _
  · cases hblock
    exact toolResultBlockOrdinal_lt _
  · cases hblock

theorem bounded_toolResultStatus {source : AdapterScalarSource} {transform : AdapterTransform}
    (hlegal : enumTransformMatches self.contract source transform = true) (scope : Scope) :
    Bounded (toolResultStatus self transform scope) := by
  refine bounded_scoped fun _ _ => ?_
  dsimp only
  split
  · exact bounded_refuse _
  · exact bounded_settled (statusToken_ends hstructured hlegal _)

end

section

variable (self : Evaluator) (transform : AdapterTransform) (scope : Scope)

theorem bounded_systemItem : Bounded (systemItem transform scope) := by
  unfold systemItem
  split
  · exact bounded_settled (ends_refusal _)
  · exact bounded_settled (ends_refusal _)
  · exact bounded_refuse _

theorem bounded_systemJoined : Bounded (systemJoined self transform scope) := by
  refine bounded_scoped fun _ _ => bounded_scoped fun _ _ => ?_
  refine (consume_outcome trivial _).bind fun _ _ => ?_
  refine (Outcome.forM fun index _ => consume_outcome trivial _).bind fun _ _ => ?_
  exact Outcome.lift (ends_refusal _)

theorem bounded_toolResultIsError : Bounded (toolResultIsError self transform scope) := by
  refine bounded_scoped fun _ _ => ?_
  dsimp only
  split
  · exact bounded_refuse _
  · exact bounded_settled trivial

theorem bounded_toolResultName : Bounded (toolResultName self transform scope) := by
  refine bounded_scoped fun _ _ => ?_
  dsimp only
  split
  · exact bounded_refuse _
  · exact bounded_settled (ends_refusal _)

theorem bounded_consumeResultBlock (index : Nat) (block : ToolResultBlock × Nat) :
    Bounded (consumeResultBlock index block) := by
  refine (consume_outcome trivial _).bind fun _ _ => ?_
  cases block.1 with
  | Text text => exact consume_outcome trivial _
  | Image image =>
      exact (consume_outcome trivial _).bind fun _ _ => consume_outcome trivial _

theorem bounded_mistralContent : Bounded (mistralContent self transform scope) := by
  refine bounded_scoped fun _ _ => bounded_scoped fun ⟨index, result⟩ _ => ?_
  refine (consume_outcome trivial _).bind fun _ _ => ?_
  refine (consume_outcome trivial _).bind fun _ _ => ?_
  refine bounded_scoped fun _ _ => ?_
  refine (Outcome.forM fun block _ => bounded_consumeResultBlock index block).bind fun _ _ => ?_
  exact Outcome.lift (ends_refusal _)

theorem bounded_toolCallText (part : BlockDebt) (text : ToolCallBlock → String) :
    Bounded (toolCallText transform scope part text) :=
  bounded_scoped fun _ _ => bounded_scoped fun _ _ => bounded_settled trivial

theorem argumentsValue_ends (document : MCode.Validation.WireJsonDocument) :
    Ends Fault.InBounds (fun _ => True) (argumentsValue transform document) := by
  unfold argumentsValue
  split
  · exact (fromWire_ends document).mono (fun _ h => h.inBounds) fun _ _ => trivial
  · exact ((canonicalWireText_ends document).mono (fun _ h => h.inBounds) fun _ h => h).bind
      fun _ _ => trivial
  · trivial

theorem bounded_toolText (part : ToolDebt) (text : ToolDefinition → String) :
    Bounded (toolText self transform scope part text) :=
  bounded_scoped fun _ _ => bounded_scoped fun _ _ => bounded_settled trivial

theorem bounded_toolSchema : Bounded (toolSchema self transform scope) :=
  bounded_scoped fun _ _ => bounded_scoped fun _ _ =>
    bounded_settled ((fromWire_ends _).mono (fun _ h => h.inBounds) fun _ _ => trivial)

theorem bounded_imageNumber (part : BlockDebt) (number : ImageMetadata → Nat) :
    Bounded (imageNumber transform scope part number) :=
  bounded_scoped fun _ _ => bounded_scoped fun _ _ => bounded_settledOptional trivial

theorem bounded_imageDataUri : Bounded (imageDataUri transform scope) :=
  bounded_scoped fun _ _ => bounded_scoped fun _ _ =>
    (consume_outcome trivial _).bind fun _ _ => bounded_settled (ends_refusal _)

end

theorem bounded_scalar {self : Evaluator} (hstructured : Structured self.contract)
    {source : AdapterScalarSource} {transform : AdapterTransform}
    (hlegal : legalTransform self.contract source transform = true) (scope : Scope) :
    Bounded (scalar self source transform scope) := by
  cases source with
  | SelectedModel => exact bounded_scoped fun _ _ => bounded_settled (ends_refusal _)
  | SelectionKind =>
      exact bounded_rootKind hstructured hlegal scope _ (selectionOrdinal_lt _)
  | SystemItem => exact bounded_systemItem transform scope
  | SystemJoined => exact bounded_systemJoined self transform scope
  | MessageRole =>
      exact bounded_scoped fun _ _ => bounded_settledKind hstructured hlegal _ (messageOrdinal_lt _)
  | BlockKind => exact bounded_blockKind hstructured hlegal scope
  | BlockText =>
      exact bounded_scoped fun _ _ => bounded_scoped fun _ _ => bounded_settled trivial
  | ToolResultCallId => exact bounded_scoped fun _ _ => bounded_settled (ends_refusal _)
  | ToolResultIsError => exact bounded_toolResultIsError self transform scope
  | ToolResultStatus => exact bounded_toolResultStatus hstructured hlegal scope
  | ToolResultName => exact bounded_toolResultName self transform scope
  | MistralToolResultContent => exact bounded_mistralContent self transform scope
  | ToolCallId => exact bounded_toolCallText transform scope _ _
  | ToolCallName => exact bounded_toolCallText transform scope _ _
  | ToolCallArguments =>
      exact bounded_scoped fun _ _ => bounded_settled (argumentsValue_ends transform _)
  | ToolName => exact bounded_toolText self transform scope _ _
  | ToolDescription => exact bounded_toolText self transform scope _ _
  | ToolSchema => exact bounded_toolSchema self transform scope
  | ReasoningKind =>
      exact bounded_scoped fun _ _ =>
        bounded_settledToken hstructured hlegal _ (reasoningKindOrdinal_lt _)
  | Proof =>
      exact bounded_scoped fun _ _ => bounded_scoped fun _ _ => bounded_settled (ends_refusal _)
  | ImageBytes => exact bounded_scoped fun _ _ => bounded_settled (ends_refusal _)
  | ImageMediaType =>
      exact bounded_scoped fun _ _ => bounded_settledToken hstructured hlegal _ (mediaOrdinal_lt _)
  | ImageWidth => exact bounded_imageNumber transform scope _ _
  | ImageHeight => exact bounded_imageNumber transform scope _ _
  | ImageFrames => exact bounded_imageNumber transform scope _ _
  | ImageDataUri => exact bounded_imageDataUri transform scope
  | ToolChoiceKind =>
      exact bounded_rootKind hstructured hlegal scope _ (toolChoiceOrdinal_lt _)
  | ToolChoiceName =>
      exact bounded_scoped fun _ _ => bounded_scoped fun _ _ => bounded_scoped fun _ _ =>
        bounded_settled trivial
  | ReasoningMode => exact bounded_rootKind hstructured hlegal scope _ (reasoningOrdinal_lt _)
  | ReasoningEffort =>
      exact bounded_scoped fun _ _ => bounded_scoped fun _ _ => bounded_scoped fun _ _ =>
        bounded_settledToken hstructured hlegal _ (effortOrdinal_lt _)
  | ReasoningBudget =>
      exact bounded_scoped fun _ _ => bounded_scoped fun _ _ => bounded_scoped fun _ _ =>
        bounded_scoped fun _ _ => bounded_settled trivial
  | CacheRetention => exact bounded_rootKind hstructured hlegal scope _ (cacheOrdinal_lt _)
  | MaxOutput =>
      exact bounded_scoped fun _ _ => bounded_scoped fun _ _ => bounded_settled (ends_refusal _)

/-! ## Nodes -/

theorem childKey_ends {contract : AdapterContractV1} {child : Nat}
    (h : child < contract.tree.nodes.length) :
    Ends Fault.InBounds (fun _ => True) (childKey contract child) := by
  unfold childKey
  rw [List.getElem?_eq_getElem h]
  dsimp only
  split <;> trivial

/-- The nodes that a node refers to come before it. -/
theorem Structured.reference_lt {contract : AdapterContractV1} (h : Structured contract)
    {index child : Nat} {node : ContractNode} (hnode : contract.tree.nodes[index]? = some node)
    (hchild : child ∈ node.body.references) : child < index := by
  refine h.treed.oneTree.below.children_lt ?_
  unfold contractArena
  rw [nodesArena_children hnode]
  exact hchild

/-- Below an index the evaluation follows the references down. -/
theorem bounded_evalNode {self : Evaluator} (hstructured : Structured self.contract)
    {fuel index : Nat} (hfuel : index < fuel) (hindex : index < self.contract.tree.nodes.length)
    (scope : Scope) : Bounded (evalNode self fuel index scope) := by
  induction fuel generalizing index scope with
  | zero => omega
  | succ fuel ih =>
      obtain ⟨node, hnode⟩ : ∃ node, self.contract.tree.nodes[index]? = some node :=
        ⟨_, List.getElem?_eq_getElem hindex⟩
      have hchild (child : Nat) (hmem : child ∈ node.body.references) (scope : Scope) :
          child < self.contract.tree.nodes.length ∧ Bounded (evalNode self fuel child scope) := by
        have hlt := hstructured.reference_lt hnode hmem
        exact ⟨by omega, ih (by omega) (by omega) scope⟩
      have hbody := hstructured.body node (List.mem_of_getElem? hnode)
      rw [evalNode, hnode]
      refine (bounded_omitNode self.original node scope).bind fun absent _ => ?_
      cases absent with
      | true => exact Outcome.pure trivial
      | false =>
          rw [if_neg nofun]
          cases hcase : node.body with
          | Object object =>
              rw [hcase] at hchild
              refine (Outcome.mapM (R := fun _ _ => True) fun child hmem => ?_).bind
                fun _ _ => Outcome.pure trivial
              refine (Outcome.lift (childKey_ends (hchild child hmem scope).1)).bind fun _ _ => ?_
              exact (hchild child hmem scope).2.bind fun _ _ => Outcome.pure trivial
          | Array array =>
              rw [hcase] at hchild
              refine (bounded_collectionScopes self _ scope).bind fun scopes _ => ?_
              refine bounded_scoped fun _ _ => ?_
              refine (Outcome.mapM (R := fun _ _ => True) fun item _ => ?_).bind
                fun _ _ => Outcome.pure trivial
              exact (hchild array.item List.mem_cons_self item).2.bind fun _ _ =>
                Outcome.lift (ends_refusal _)
          | Switch switch =>
              rw [hcase] at hchild hbody
              refine (variantOrdinal_outcome self switch.source scope).bind fun ordinal hordinal => ?_
              rw [← hbody.1] at hordinal
              refine (Outcome.lift (lookup_ends hordinal)).bind fun chosen hchosen => ?_
              have hnext : chosen.node ∈ switch.cases.map (·.node) :=
                List.mem_map_of_mem (List.mem_of_getElem? hchosen)
              refine (hchild _ hnext scope).2.bind fun _ _ => ?_
              exact bounded_scoped fun _ _ => Outcome.pure trivial
          | Value value =>
              rw [hcase] at hbody
              exact (bounded_scalar hstructured hbody scope).bind fun _ _ => Outcome.pure trivial
          | Constant constant => exact Outcome.pure trivial

/-- The evaluation of an accepted contract returns, and finds all that it looks up. -/
theorem evaluateContract_ends {contract : AdapterContractV1} (hstructured : Structured contract)
    (selected : ValidatedCatalogEntryView) (original : PrepareInput) :
    Ends Fault.InBounds (fun _ => True) (evaluateContract contract selected original) := by
  refine (ends_refusal _).bind fun _ _ => ?_
  refine (ends_refusal _).bind fun _ _ => ?_
  refine (ends_refusal _).bind fun prepared _ => ?_
  have hroot := hstructured.treed.root
  have hlt : contract.tree.root < contract.tree.nodes.length := by omega
  have hvalue := @bounded_evalNode ⟨contract, original, prepared.matchedToolResults⟩ hstructured
    contract.tree.nodes.length contract.tree.root hlt hlt .Root ⟨[], []⟩
  exact hvalue.bind fun _ _ => ends_refusal _

/-- The nodes of an accepted contract are one tree, within its depths; the evaluation of any
request by it returns, and looks up no node, table, case or entry that is not there. -/
theorem accepted_contract_is_tree (contract : AdapterContractV1)
    (h : validateContract contract = .ok ()) :
    WellTreed contract ∧
      ((contractArena contract).visit contract.tree.nodes.length contract.tree.root).Perm
        (List.range contract.tree.nodes.length) ∧
      ∀ selected original, evaluateContract contract selected original ≠ .error .Stuck ∧
        evaluateContract contract selected original ≠ .error .Missing := by
  obtain ⟨hstructured, -⟩ := validateContract_ok h
  have htreed := hstructured.treed
  refine ⟨htreed, ?_, fun selected original => ⟨fun hstuck => ?_, fun hmissing => ?_⟩⟩
  · have hperm := htreed.oneTree.visit_perm
    rw [contractArena_length, ← htreed.root, Nat.add_sub_cancel] at hperm
    rw [← htreed.root]
    exact hperm
  · exact (evaluateContract_ends hstructured selected original).error hstuck
  · exact (evaluateContract_ends hstructured selected original).error hmissing

/-! ## A contract -/

def keyedNode (parent : Nat) (key : String) (body : ContractNodeBody) : ContractNode :=
  ⟨some parent, some (.Key key), .Required, none, body⟩

def itemNode (parent : Nat) (body : ContractNodeBody) : ContractNode :=
  ⟨some parent, some .ArrayItem, .Required, none, body⟩

def caseNode (parent : Nat) (body : ContractNodeBody) : ContractNode :=
  ⟨some parent, none, .Required, none, body⟩

def casesOf (nodes : List Nat) : List ContractCase :=
  nodes.zipIdx.map fun (node, ordinal) => ⟨ordinal, node⟩

def nullBody : ContractNodeBody := .Constant ⟨.Null⟩

/-- A contract that takes the model, system texts, texts of user messages, tools, the choice of
a tool and the output limit. -/
def plainContract : AdapterContractV1 where
  version := 1
  wireId := .OpenAiCompletions
  modelSource := .RequestedSelection
  ordinaryHeaderRules := []
  decoderKind := .OpenAiCompletions
  tree :=
    { root := 33
      tables := []
      nodes :=
        [ caseNode 2 (.Value ⟨.SelectedModel, .Identity⟩),
          caseNode 2 (.Value ⟨.SelectedModel, .Identity⟩),
          keyedNode 33 "model" (.Switch ⟨.ModelSelection, casesOf [0, 1]⟩),
          itemNode 4 (.Value ⟨.SystemItem, .Identity⟩),
          keyedNode 33 "system" (.Array ⟨.System, 3, 0, 1024⟩),
          caseNode 7 (.Value ⟨.BlockText, .Identity⟩),
          caseNode 7 nullBody,
          itemNode 8 (.Switch ⟨.UserBlock, casesOf [5, 6]⟩),
          caseNode 11 (.Array ⟨.Blocks, 7, 1, 4096⟩),
          caseNode 11 nullBody,
          caseNode 11 nullBody,
          itemNode 12 (.Switch ⟨.Message, casesOf [8, 9, 10]⟩),
          keyedNode 33 "messages" (.Array ⟨.Messages, 11, 0, 4096⟩),
          keyedNode 16 "description" (.Value ⟨.ToolDescription, .Identity⟩),
          keyedNode 16 "name" (.Value ⟨.ToolName, .Identity⟩),
          keyedNode 16 "schema" (.Value ⟨.ToolSchema, .JsonSubtree⟩),
          itemNode 17 (.Object ⟨[13, 14, 15]⟩),
          keyedNode 33 "tools" (.Array ⟨.Tools, 16, 0, 1024⟩),
          caseNode 22 nullBody,
          caseNode 22 nullBody,
          caseNode 22 nullBody,
          caseNode 22 (.Value ⟨.ToolChoiceName, .Identity⟩),
          ⟨some 33, some (.Key "tool_choice"), .OmitForUnset, some .ToolChoice,
            .Switch ⟨.ToolChoice, casesOf [18, 19, 20, 21]⟩⟩,
          caseNode 26 nullBody,
          caseNode 26 nullBody,
          caseNode 26 nullBody,
          ⟨some 33, some (.Key "reasoning"), .OmitForUnset, some .Reasoning,
            .Switch ⟨.Reasoning, casesOf [23, 24, 25]⟩⟩,
          caseNode 31 nullBody,
          caseNode 31 nullBody,
          caseNode 31 nullBody,
          caseNode 31 nullBody,
          ⟨some 33, some (.Key "cache"), .OmitForUnset, some .CacheRetention,
            .Switch ⟨.CacheRetention, casesOf [27, 28, 29, 30]⟩⟩,
          ⟨some 33, some (.Key "max_tokens"), .OmitIfNone, some .MaxOutput,
            .Value ⟨.MaxOutput, .CheckedU64⟩⟩,
          ⟨none, none, .Required, none, .Object ⟨[31, 32, 12, 2, 26, 4, 22, 17]⟩⟩ ] }

theorem plainContract_accepted : validateContract plainContract = .ok () := by
  decide +kernel

theorem accepted_contract_is_tree_plain :
    ((contractArena plainContract).visit 34 33).Perm (List.range 34) ∧
      ∀ selected original, evaluateContract plainContract selected original ≠ .error .Stuck := by
  have h := accepted_contract_is_tree plainContract plainContract_accepted
  exact ⟨h.2.1, fun selected original => (h.2.2 selected original).1⟩

end MCode.Adapter
