import MCode.Adapter.Headers

/-!
# The structure of a contract

`adapter/structure.rs`, without its last step, the lexical walk: the nodes are
one tree under the last of them, with their parents recorded, within depths
and charges; transforms, tables and constants fit the sources they are for.
-/

namespace MCode.Adapter

open MCode.Validation (ValidationResult LogicalCharge MIB checkedLen safe notAfter
  isCanonicalNumber)

def MAX_CONTRACT_NODES : Nat := 4096
def MAX_CONTRACT_DEPTH : Nat := 32
def MAX_PATH_DEPTH : Nat := 16
def MAX_TABLES : Nat := 64

/-! ## Sources, transforms and tables -/

def enumSource : AdapterScalarSource → Option AdapterEnumSource
  | .SelectionKind => some .SelectionKind
  | .MessageRole => some .MessageKind
  | .BlockKind => none
  | .ToolResultStatus => some .ToolResultStatus
  | .ReasoningKind => some .ReasoningKind
  | .ImageMediaType => some .ImageMediaType
  | .ToolChoiceKind => some .ToolChoice
  | .ReasoningMode => some .ReasoningMode
  | .ReasoningEffort => some .ReasoningEffort
  | .CacheRetention => some .CacheRetention
  | _ => none

def isBlockKindSource : AdapterEnumSource → Bool
  | .UserBlockKind | .AssistantBlockKind | .ToolResultBlockKind => true
  | _ => false

/-- A table is one for the source. -/
def sourceMatches (source : AdapterScalarSource) (table : AdapterEnumSource) : Bool :=
  if source == .BlockKind then isBlockKindSource table else enumSource source == some table

/-- The first loop of `validate_tables`: which tables are used. -/
def markTables (tables : List EnumTokenTable) : List ContractNode → List Bool →
    AdapterValidationResult (List Bool)
  | [], used => .ok used
  | node :: nodes, used =>
      match node.body with
      | .Value ⟨source, .EnumToken index⟩ =>
          if index ≥ MAX_TABLES then .error .InvalidContract
          else
            match tables[index]? with
            | none => .error .InvalidContract
            | some table =>
                if !sourceMatches source table.source then .error .InvalidContract
                else markTables tables nodes (used.set index true)
      | _ => markTables tables nodes used

/-- The loop over the entries of a table; `tokens` are those before. -/
def validateEntryTokens : List EnumTokenEntry → Nat → List String →
    AdapterValidationResult Unit
  | [], _, _ => .ok ()
  | entry :: entries, ordinal, tokens => do
      if entry.variantOrdinal != ordinal then .error .InvalidContract
      else
        mapContractError (visibleAscii entry.token 128)
        if tokens.contains entry.token then .error .InvalidContract
        else validateEntryTokens entries (ordinal + 1) (entry.token :: tokens)

def validateTable (table : EnumTokenTable) : AdapterValidationResult Unit :=
  if table.entries.length != table.source.variantCount || table.entries.length > 16 then
    .error .InvalidContract
  else validateEntryTokens table.entries 0 []

def validateTables (contract : AdapterContractV1) : AdapterValidationResult Unit := do
  let used ← markTables contract.tree.tables contract.tree.nodes
    (List.replicate contract.tree.tables.length false)
  if used.any (!·) then .error .InvalidContract
  else contract.tree.tables.forM validateTable

def supportsCanonicalArguments : AdapterWireId → Bool
  | .OpenAiCompletions | .OpenAiResponses | .OpenAiCodexResponses | .AzureOpenAiResponses
  | .MistralConversations => true
  | _ => false

def enumTransformMatches (contract : AdapterContractV1) (source : AdapterScalarSource) :
    AdapterTransform → Bool
  | .EnumToken index =>
      contract.tree.tables[index]?.any fun table => sourceMatches source table.source
  | _ => false

def legalTransform (contract : AdapterContractV1) (source : AdapterScalarSource)
    (transform : AdapterTransform) : Bool :=
  match source with
  | .SelectedModel | .SystemItem | .BlockText | .ToolResultCallId | .ToolResultName
  | .ToolCallId | .ToolCallName | .ToolName | .ToolDescription | .ToolChoiceName =>
      transform == .Identity
  | .ToolResultIsError => transform == .Identity
  | .SelectionKind | .MessageRole | .BlockKind | .ToolResultStatus | .ReasoningKind
  | .ImageMediaType | .ToolChoiceKind | .ReasoningMode | .ReasoningEffort | .CacheRetention =>
      enumTransformMatches contract source transform
  | .ImageWidth | .ImageHeight | .ImageFrames => transform == .CheckedU32
  | .ReasoningBudget | .MaxOutput => transform == .CheckedU64
  | .ToolCallArguments =>
      transform == .JsonSubtree
        || (transform == .CanonicalJsonString && supportsCanonicalArguments contract.wireId)
  | .ToolSchema => transform == .JsonSubtree
  | .Proof | .ImageBytes =>
      transform == .Base64StandardPadded || transform == .Base64StandardUnpadded
  | .SystemJoined => transform == .JoinLf
  | .ImageDataUri => transform == .DataUri
  | .MistralToolResultContent =>
      transform == .MistralToolResultContent && contract.wireId == .MistralConversations

def validateTransform (contract : AdapterContractV1) (source : AdapterScalarSource)
    (transform : AdapterTransform) : AdapterValidationResult Unit :=
  ensure (legalTransform contract source transform) .InvalidContract

def validateConstant : TypedJsonConstant → AdapterValidationResult Unit
  | .Null => .ok ()
  | .Boolean _ => .ok ()
  | .Number value => ensure (isCanonicalNumber value) .InvalidContract
  | .String value => mapContractError (safe value (64 * 1024) false)

/-! ## Nodes -/

def validatePresence (presence : AdapterPresence) (source : Option AdapterPresenceSource) :
    AdapterValidationResult Unit :=
  match presence, source with
  | .Required, none => .ok ()
  | .OmitIfNone, some .ReasoningProof => .ok ()
  | .OmitIfNone, some .ReasoningEffort => .ok ()
  | .OmitIfNone, some .ReasoningBudget => .ok ()
  | .OmitIfNone, some .MaxOutput => .ok ()
  | .OmitForUnset, some .ToolChoice => .ok ()
  | .OmitForUnset, some .Reasoning => .ok ()
  | .OmitForUnset, some .CacheRetention => .ok ()
  | _, _ => .error .InvalidContract

/-- The references counted so far, and the parent that each node was referred from. -/
structure References where
  counts : List Nat
  expectedParent : List (Option Nat)

/-- `add_reference`. -/
def addReference (parent child : Nat) (references : References) :
    AdapterValidationResult References :=
  if child ≥ parent || child ≥ references.counts.length then .error .InvalidContract
  else
    let count := references.counts.getD child 0 + 1
    if count > 255 then .error .Limit
    else if count != 1 then .error .InvalidContract
    else .ok ⟨references.counts.set child count, references.expectedParent.set child (some parent)⟩

def segmentOf (contract : AdapterContractV1) (index : Nat) : Option PathSegment :=
  contract.tree.nodes[index]?.bind (·.segment)

/-- The loop over the children of an object, with the key before. -/
def validateChildren (contract : AdapterContractV1) (index : Nat) :
    List Nat → Option String → References → AdapterValidationResult References
  | [], _, references => .ok references
  | child :: children, previous, references => do
      let references ← addReference index child references
      match segmentOf contract child with
      | some (.Key key) =>
          mapContractError (safe key 128 true)
          if notAfter previous key then .error .InvalidContract
          else validateChildren contract index children (some key) references
      | _ => .error .InvalidContract

/-- The loop over the cases of a switch, with their position. -/
def validateCases (contract : AdapterContractV1) (index : Nat) :
    List ContractCase → Nat → References → AdapterValidationResult References
  | [], _, references => .ok references
  | case :: cases, ordinal, references =>
      if case.variantOrdinal != ordinal then .error .InvalidContract
      else do
        let references ← addReference index case.node references
        if (segmentOf contract case.node).isSome then .error .InvalidContract
        else validateCases contract index cases (ordinal + 1) references

def collectionBound : AdapterCollection → Nat
  | .System | .Tools => 1024
  | .Messages | .Blocks => 4096
  | .SystemMessages => 5120

def bodyOf (contract : AdapterContractV1) (index : Nat) : Option ContractNodeBody :=
  contract.tree.nodes[index]?.map (·.body)

/-- `count_scalar_source`.  The nodes below were checked before, so `fuel` does not run out. -/
def countScalarSource (contract : AdapterContractV1) (source : AdapterScalarSource) :
    Nat → Nat → Nat
  | 0, _ => 0
  | fuel + 1, node =>
      match bodyOf contract node with
      | some (.Object object) => (object.children.map (countScalarSource contract source fuel)).sum
      | some (.Array array) => countScalarSource contract source fuel array.item
      | some (.Switch switch) =>
          (switch.cases.map fun case => countScalarSource contract source fuel case.node).sum
      | some (.Value value) => if value.source == source then 1 else 0
      | some (.Constant _) => 0
      | none => 0

def switchSource (contract : AdapterContractV1) (index : Nat) : Option AdapterVariantSource :=
  match bodyOf contract index with
  | some (.Switch switch) => some switch.source
  | _ => none

def validArrayItemShape (contract : AdapterContractV1) (collection : AdapterCollection)
    (item : Nat) : Bool :=
  let count (source : AdapterScalarSource) :=
    countScalarSource contract source contract.tree.nodes.length item
  match collection with
  | .System => count .SystemItem == 1
  | .Messages => switchSource contract item == some .Message
  | .SystemMessages => switchSource contract item == some .SystemMessageEntry
  | .Blocks =>
      switchSource contract item == some .UserBlock
        || switchSource contract item == some .AssistantBlock
        || switchSource contract item == some .ToolResultBlock
  | .Tools => count .ToolName == 1 && count .ToolDescription == 1 && count .ToolSchema == 1

/-- `validate_array_item_shape`. -/
def validateArrayItemShape (contract : AdapterContractV1) (collection : AdapterCollection)
    (item : Nat) : AdapterValidationResult Unit :=
  ensure (validArrayItemShape contract collection item) .InvalidContract

def validateBody (contract : AdapterContractV1) (index : Nat) (body : ContractNodeBody)
    (references : References) : AdapterValidationResult References :=
  match body with
  | .Object object => validateChildren contract index object.children none references
  | .Array array =>
      if array.min > array.max || array.max > 262144
          || array.max > collectionBound array.collection
          || (array.collection == .Blocks && array.min == 0) then .error .InvalidContract
      else do
        let references ← addReference index array.item references
        if segmentOf contract array.item != some .ArrayItem then .error .InvalidContract
        else
          validateArrayItemShape contract array.collection array.item
          return references
  | .Switch switch =>
      if switch.cases.length != switch.source.variantCount then .error .InvalidContract
      else validateCases contract index switch.cases 0 references
  | .Value value => do
      validateTransform contract value.source value.transform
      return references
  | .Constant constant => do
      validateConstant constant.value
      return references

/-- The nodes that a node refers to. -/
def ContractNodeBody.references : ContractNodeBody → List Nat
  | .Object object => object.children
  | .Array array => [array.item]
  | .Switch switch => switch.cases.map (·.node)
  | .Value _ => []
  | .Constant _ => []

/-- `node_depth`: one more than the deepest of the nodes that it refers to. -/
def nodeDepth (body : ContractNodeBody) (depths : List Nat) : AdapterValidationResult Nat :=
  let childDepth := (body.references.map (depths.getD · 0)).foldl max 0
  if childDepth + 1 ≤ 255 then .ok (childDepth + 1) else .error .Limit

/-- The loop over the nodes; `depths` holds one depth for each node before. -/
def validateNodes (contract : AdapterContractV1) : List ContractNode → References → List Nat →
    AdapterValidationResult (References × List Nat)
  | [], references, depths => .ok (references, depths)
  | node :: nodes, references, depths => do
      validatePresence node.presence node.presenceSource
      let references ← validateBody contract depths.length node.body references
      let depth ← nodeDepth node.body depths
      validateNodes contract nodes references (depths ++ [depth])

/-- The path depth of one node, whose parent comes later and is the expected one. -/
def pathStep (contract : AdapterContractV1) (expectedParent : List (Option Nat))
    (pathDepths : List Nat) (index : Nat) : AdapterValidationResult (List Nat) :=
  match contract.tree.nodes[index]?.bind (·.parent) with
  | none => .error .InvalidContract
  | some parent =>
      if parent ≤ index || parent ≥ contract.tree.nodes.length
          || expectedParent.getD index none != some parent then .error .InvalidContract
      else
        let depth := pathDepths.getD parent 0 + if (segmentOf contract index).isSome then 1 else 0
        if depth > 255 then .error .Limit else .ok (pathDepths.set index depth)

/-! ## Charges -/

def chargeOptionRef (value : Option Nat) (charge : LogicalCharge) :
    ValidationResult LogicalCharge := do
  let charge ← charge.add 4
  if value.isSome then charge.add 4 else .ok charge

def chargeSegment (segment : Option PathSegment) (charge : LogicalCharge) :
    ValidationResult LogicalCharge :=
  match segment with
  | none => .ok charge
  | some .ArrayItem => charge.add 4
  | some (.Key key) => do (← charge.add 4).string key

def chargeConstant (value : TypedJsonConstant) (charge : LogicalCharge) :
    ValidationResult LogicalCharge :=
  match value with
  | .Null => .ok charge
  | .Boolean _ => charge.add 1
  | .Number value => charge.string value
  | .String value => charge.string value

def isEnumToken : AdapterTransform → Bool
  | .EnumToken _ => true
  | _ => false

def chargeBody (body : ContractNodeBody) (charge : LogicalCharge) :
    ValidationResult LogicalCharge :=
  match body with
  | .Object object => do
      let charge ← charge.add 4
      charge.add ((← checkedLen object.children.length) * 4)
  | .Array _ => charge.add 16
  | .Switch switch => do
      let charge ← charge.add 4
      let charge ← charge.add 4
      switch.cases.foldlM (fun charge _ => charge.add 5) charge
  | .Value value => do
      let charge ← charge.add 4
      let charge ← charge.add 4
      if isEnumToken value.transform then charge.add 2 else .ok charge
  | .Constant constant => do
      let charge ← charge.add 4
      chargeConstant constant.value charge

def chargeNode (charge : LogicalCharge) (node : ContractNode) :
    ValidationResult LogicalCharge := do
  let charge ← chargeOptionRef node.parent charge
  let charge ← charge.add 4
  let charge ← chargeSegment node.segment charge
  let charge ← charge.add 4
  let charge ← charge.add 4
  let charge ← if node.presenceSource.isSome then charge.add 4 else .ok charge
  let charge ← charge.add 4
  chargeBody node.body charge

def chargeTable (charge : LogicalCharge) (table : EnumTokenTable) :
    ValidationResult LogicalCharge := do
  let charge ← charge.add 4
  let charge ← charge.add 4
  table.entries.foldlM
    (fun charge entry => do (← charge.add 1).string entry.token) charge

/-- `charge_tree`. -/
def chargeTree (contract : AdapterContractV1) : AdapterValidationResult Unit :=
  mapContractError do
    let charge ← (LogicalCharge.new MIB).add 4
    let charge ← charge.add 4
    let charge ← contract.tree.nodes.foldlM chargeNode charge
    let charge ← charge.add 4
    let _ ← contract.tree.tables.foldlM chargeTable charge
    return ()

/-! ## The tree -/

def isObjectBody : ContractNodeBody → Bool
  | .Object _ => true
  | _ => false

/-- What the last node has to be. -/
def rootAllowed (node : ContractNode) : Bool :=
  node.parent.isNone && node.segment.isNone && node.presence == .Required
    && node.presenceSource.isNone && isObjectBody node.body

/-- The counts, depths and path depths of all nodes. -/
structure TreeMeasures where
  references : References
  depths : List Nat
  pathDepths : List Nat

/-- The two loops over the nodes. -/
def measureTree (contract : AdapterContractV1) : AdapterValidationResult TreeMeasures := do
  let total := contract.tree.nodes.length
  let (references, depths) ← validateNodes contract contract.tree.nodes
    ⟨List.replicate total 0, List.replicate total none⟩ []
  let pathDepths ← (List.range contract.tree.root).reverse.foldlM
    (pathStep contract references.expectedParent) (List.replicate total 0)
  return ⟨references, depths, pathDepths⟩

/-- The bounds on what was measured. -/
def measuresAllowed (root : Nat) (measures : TreeMeasures) : Bool :=
  measures.references.counts.getD root 0 == 0
    && (measures.references.counts.take root).all (· == 1)
    && measures.depths.all (· ≤ MAX_CONTRACT_DEPTH)
    && (measures.pathDepths.take root).all fun depth => 1 ≤ depth && depth ≤ MAX_PATH_DEPTH

/-- `validate_tree` up to its last step. -/
def validateTreeShape (contract : AdapterContractV1) : AdapterValidationResult Unit :=
  let tree := contract.tree
  if tree.nodes.isEmpty || tree.nodes.length > MAX_CONTRACT_NODES then .error .Limit
  else if tree.root != tree.nodes.length - 1 then .error .InvalidContract
  else if !tree.nodes.getLast?.all rootAllowed then .error .InvalidContract
  else if tree.tables.length > MAX_TABLES then .error .Limit
  else do
    validateTables contract
    let measures ← measureTree contract
    if !measuresAllowed tree.root measures then .error .InvalidContract
    else chargeTree contract

end MCode.Adapter
