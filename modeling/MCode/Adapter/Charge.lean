import MCode.Validation.WireText
import MCode.Adapter.Prepare

/-!
# The charge of a prepare input

The design documents give a semantic charge to every value of the interface
types: the width of a number, `4` and the bytes of a string, `4` and the sum of
a list, the sum of a record, `4` and the payload of a variant, an enumeration
or an option.  `PrepareInput.value` writes an input as such a value, field by
field as `provider.wit` declares it.

`validate_prepare_input` adds its charge by hand, beside the checks.  `Paid`
says what one of its parts adds, and the parts follow the value.
-/

namespace MCode.Adapter

open MCode.Lib
open MCode.Validation (ValidationResult LogicalCharge MAX_LOGICAL_CHARGE U64_MAX checkedAdd
  checkedLen bind_eq_ok utf8Len safe label trackingId modelId validateWireJson
  WireJsonDocument WireJsonNode WireJsonField stringCharge labelCharge documentCharge
  validateWireJson_ok)

/-! ## Values of the interface types -/

namespace Wit

inductive Label where
  | Bool (value : Bool)
  | U8 (value : Nat)
  | U32 (value : Nat)
  | U64 (value : Nat)
  | Text (value : String)
  | List
  | Record
  /-- A case of a variant, an enumeration or an option. -/
  | Variant (ordinal : Nat)

abbrev Value := Rose Label

/-- What a value adds to the charge of its parts. -/
def Label.charge : Label → Nat
  | .Bool _ => 1
  | .U8 _ => 1
  | .U32 _ => 4
  | .U64 _ => 8
  | .Text value => 4 + utf8Len value.toList
  | .List => 4
  | .Record => 0
  | .Variant _ => 4

def charge : Value → Nat := Rose.sum fun label _ => label.charge

def bool (value : Bool) : Value := .node (.Bool value) []
def u8 (value : Nat) : Value := .node (.U8 value) []
def u32 (value : Nat) : Value := .node (.U32 value) []
def u64 (value : Nat) : Value := .node (.U64 value) []
def ofText (value : String) : Value := .node (.Text value) []
def list (items : List Value) : Value := .node .List items
def record (fields : List Value) : Value := .node .Record fields
def variant (ordinal : Nat) (payload : List Value) : Value := .node (.Variant ordinal) payload
def ofBytes (value : List UInt8) : Value := list (value.map fun byte => u8 byte.toNat)

def option {α : Type} (lower : α → Value) : Option α → Value
  | none => variant 0 []
  | some value => variant 1 [lower value]

theorem charge_node (label : Label) (parts : List Value) :
    charge (.node label parts) = label.charge + (parts.map charge).sum := Rose.sum_node _ label parts

@[simp] theorem charge_bool (value : Bool) : charge (bool value) = 1 := charge_node _ _
@[simp] theorem charge_u8 (value : Nat) : charge (u8 value) = 1 := charge_node _ _
@[simp] theorem charge_u32 (value : Nat) : charge (u32 value) = 4 := charge_node _ _
@[simp] theorem charge_u64 (value : Nat) : charge (u64 value) = 8 := charge_node _ _

@[simp] theorem charge_text (value : String) : charge (ofText value) = stringCharge value :=
  charge_node _ _

@[simp] theorem charge_list (items : List Value) :
    charge (list items) = 4 + (items.map charge).sum := charge_node _ _

@[simp] theorem charge_record (fields : List Value) :
    charge (record fields) = (fields.map charge).sum := by
  rw [record, charge_node]
  exact Nat.zero_add _

@[simp] theorem charge_variant (ordinal : Nat) (payload : List Value) :
    charge (variant ordinal payload) = 4 + (payload.map charge).sum := charge_node _ _

@[simp] theorem charge_bytes (value : List UInt8) : charge (ofBytes value) = 4 + value.length := by
  rw [ofBytes, charge_list, List.map_map]
  congr 1
  induction value with
  | nil => rfl
  | cons byte value ih =>
      rw [List.map_cons, List.sum_cons, ih, List.length_cons]
      exact Nat.add_comm _ _

@[simp] theorem charge_none {α : Type} (lower : α → Value) : charge (option lower none) = 4 :=
  charge_node _ _

@[simp] theorem charge_some {α : Type} (lower : α → Value) (value : α) :
    charge (option lower (some value)) = 4 + charge (lower value) := by
  rw [option, charge_variant]
  rfl

end Wit

/-! ## Prepare inputs as values -/

open Wit (record list variant ofText u8 u32 u64 ofBytes option)

def wireField (field : WireJsonField) : Wit.Value := record [ofText field.key, u32 field.value]

def wireNode : WireJsonNode → Wit.Value
  | .NullValue => variant 0 []
  | .BooleanValue value => variant 1 [Wit.bool value]
  | .NumberValue value => variant 2 [ofText value]
  | .StringValue value => variant 3 [ofText value]
  | .ArrayValue items => variant 4 [record [list (items.map u32)]]
  | .ObjectValue fields => variant 5 [record [list (fields.map wireField)]]

def wireDocument (document : WireJsonDocument) : Wit.Value :=
  record [u32 document.root, list (document.nodes.map wireNode)]

def ModelSelection.value : ModelSelection → Wit.Value
  | .Exact value => variant 0 [ofText value]
  | .Alias value => variant 1 [ofText value]

def TextBlock.value (block : TextBlock) : Wit.Value := record [ofText block.text]

def ImageMediaType.value : ImageMediaType → Wit.Value
  | .Png => variant 0 []
  | .Jpeg => variant 1 []
  | .Gif => variant 2 []
  | .Webp => variant 3 []
  | .Tiff => variant 4 []

def ImageMetadata.value (metadata : ImageMetadata) : Wit.Value :=
  record [u32 metadata.width, u32 metadata.height, u32 metadata.frames]

def ImageView.value (image : ImageView) : Wit.Value :=
  record [ofText image.stamp, image.mediaType.value, ofBytes image.bytes, image.metadata.value]

def ReasoningKind.value : ReasoningKind → Wit.Value
  | .Thinking => variant 0 []
  | .Summary => variant 1 []

def ReasoningProofView.value (proof : ReasoningProofView) : Wit.Value :=
  record [ofText proof.stamp, ofText proof.sourceRequestId, ofText proof.sourceTurnId,
    u8 proof.sourceContentIndex, proof.reasoningKind.value, ofBytes proof.proof]

def ReasoningBlock.value (block : ReasoningBlock) : Wit.Value :=
  record [block.kind.value, ofText block.text, option ReasoningProofView.value block.proof]

def ToolCallBlock.value (call : ToolCallBlock) : Wit.Value :=
  record [ofText call.callId, ofText call.name, wireDocument call.arguments]

def UserBlock.value : UserBlock → Wit.Value
  | .Text block => variant 0 [block.value]
  | .Image image => variant 1 [image.value]

def AssistantBlock.value : AssistantBlock → Wit.Value
  | .Text block => variant 0 [block.value]
  | .Reasoning block => variant 1 [block.value]
  | .ToolCall call => variant 2 [call.value]

def ToolResultBlock.value : ToolResultBlock → Wit.Value
  | .Text block => variant 0 [block.value]
  | .Image image => variant 1 [image.value]

def ToolResultMessage.value (message : ToolResultMessage) : Wit.Value :=
  record [ofText message.callId, list (message.blocks.map ToolResultBlock.value),
    Wit.bool message.isError]

def Message.value : Message → Wit.Value
  | .User message => variant 0 [record [list (message.blocks.map UserBlock.value)]]
  | .Assistant message => variant 1 [record [list (message.blocks.map AssistantBlock.value)]]
  | .ToolResult message => variant 2 [message.value]

def ToolDefinition.value (tool : ToolDefinition) : Wit.Value :=
  record [ofText tool.name, ofText tool.description, wireDocument tool.inputSchema]

def ToolChoice.value : ToolChoice → Wit.Value
  | .Unset => variant 0 []
  | .Auto => variant 1 []
  | .None => variant 2 []
  | .Specific choice => variant 3 [record [ofText choice.name]]

def ReasoningEffort.value : ReasoningEffort → Wit.Value
  | .Minimal => variant 0 []
  | .Low => variant 1 []
  | .Medium => variant 2 []
  | .High => variant 3 []

def EnabledReasoning.value (enabled : EnabledReasoning) : Wit.Value :=
  record [option ReasoningEffort.value enabled.effort, option u64 enabled.budgetTokens]

def Reasoning.value : Reasoning → Wit.Value
  | .Unset => variant 0 []
  | .Disabled => variant 1 []
  | .Enabled enabled => variant 2 [enabled.value]

def CacheRetention.value : CacheRetention → Wit.Value
  | .Unset => variant 0 []
  | .None => variant 1 []
  | .Request => variant 2 []
  | .Session => variant 3 []

def PrepareInput.value (input : PrepareInput) : Wit.Value :=
  record [ofText input.providerId, ofText input.routeId, ofText input.catalogDigest,
    input.selection.value, ofText input.currentModel, ofText input.operationId,
    ofText input.requestId, ofText input.turnId, list (input.system.map ofText),
    list (input.messages.map Message.value), list (input.tools.map ToolDefinition.value),
    input.toolChoice.value, input.reasoning.value, input.cacheRetention.value,
    option u64 input.maxOutputTokens]

/-! ## What a part adds -/

/-- From one charge to another, so much was added, and the limit was kept. -/
structure Paid (before after : LogicalCharge) (cost : Nat) : Prop where
  value : after.value = before.value + cost
  limit : after.limit = before.limit
  within : before.value ≤ before.limit → after.value ≤ after.limit

namespace Paid

variable {before middle after : LogicalCharge} {cost more total : Nat}

theorem refl (charge : LogicalCharge) : Paid charge charge 0 := ⟨rfl, rfl, id⟩

theorem trans (first : Paid before middle cost) (second : Paid middle after more) :
    Paid before after (cost + more) where
  value := by rw [second.value, first.value, Nat.add_assoc]
  limit := second.limit.trans first.limit
  within := fun h => second.within (first.within h)

theorem congr (h : Paid before after cost) (heq : cost = total) : Paid before after total :=
  heq ▸ h

end Paid

theorem add_paid {charge result : LogicalCharge} {value : Nat}
    (h : charge.add value = .ok result) : Paid charge result value := by
  unfold LogicalCharge.add at h
  split at h
  next => cases h
  next sum hsum =>
    split at h
    next => cases h
    next hlimit =>
      cases h
      exact ⟨MCode.Validation.checkedAdd_ok hsum, rfl, fun _ => Nat.not_lt.1 hlimit⟩

theorem checkedLen_ok {value result : Nat} (h : checkedLen value = .ok result) :
    result = value := by
  unfold checkedLen at h
  split at h <;> cases h
  rfl

theorem string_paid {charge result : LogicalCharge} {value : String}
    (h : charge.string value = .ok result) : Paid charge result (stringCharge value) := by
  obtain ⟨middle, hfirst, h⟩ := bind_eq_ok.1 h
  obtain ⟨length, hlength, h⟩ := bind_eq_ok.1 h
  cases checkedLen_ok hlength
  exact (add_paid hfirst).trans (add_paid h)

/-- Adding up over a list, where each element adds the charge of its value. -/
theorem foldlM_paid {α β : Type} {f : β → α → ValidationResult β} (charge : β → LogicalCharge)
    (value : α → Wit.Value)
    (hf : ∀ state a after, f state a = .ok after →
      Paid (charge state) (charge after) (Wit.charge (value a)))
    {items : List α} {state after : β} (h : items.foldlM f state = .ok after) :
    Paid (charge state) (charge after) ((items.map value).map Wit.charge).sum := by
  induction items generalizing state with
  | nil =>
      cases h
      exact Paid.refl _
  | cons a items ih =>
      rw [List.foldlM_cons] at h
      obtain ⟨middle, hfirst, hrest⟩ := bind_eq_ok.1 h
      exact (hf state a middle hfirst).trans (ih hrest)

/-! ## Documents -/

theorem charge_wireNode (node : WireJsonNode) :
    Wit.charge (wireNode node) = labelCharge node.label node.references.length := by
  cases node with
  | NullValue | BooleanValue | NumberValue | StringValue =>
      simp [wireNode, labelCharge, WireJsonNode.label]
  | ArrayValue items =>
      have hitems : ((items.map u32).map Wit.charge).sum = 4 * items.length := by
        induction items with
        | nil => rfl
        | cons item items ih =>
            rw [List.map_cons, List.map_cons, List.sum_cons, ih, Wit.charge_u32,
              List.length_cons]
            omega
      simp only [wireNode, Wit.charge_variant, Wit.charge_record, Wit.charge_list, List.map_cons,
        List.map_nil, List.sum_cons, List.sum_nil, hitems]
      rfl
  | ObjectValue fields =>
      have hfields : (fields.map wireField).map Wit.charge =
          (fields.map (·.key)).map fun key => stringCharge key + 4 := by
        rw [List.map_map, List.map_map]
        apply List.map_congr_left
        intro field _
        simp [wireField]
      simp only [wireNode, Wit.charge_variant, Wit.charge_record, Wit.charge_list, List.map_cons,
        List.map_nil, List.sum_cons, List.sum_nil, hfields]
      rfl

/-- What the validation of a document reports is its charge. -/
theorem charge_wireDocument {document : WireJsonDocument} {objectRoot : Bool}
    {stats : MCode.Validation.WireJsonStats}
    (h : validateWireJson document objectRoot = .ok stats) :
    stats.logicalCharge = Wit.charge (wireDocument document) := by
  obtain ⟨-, hcharge, -⟩ := validateWireJson_ok.1 h
  have hnodes : (document.nodes.map wireNode).map Wit.charge =
      document.nodes.map fun node => labelCharge node.label node.references.length := by
    rw [List.map_map]
    apply List.map_congr_left
    intro node _
    exact charge_wireNode node
  rw [hcharge, documentCharge, wireDocument, Wit.charge_record]
  simp only [List.map_cons, List.map_nil, List.sum_cons, List.sum_nil, Wit.charge_u32,
    Wit.charge_list, hnodes]
  rfl

/-! ## Parts of an input -/

theorem chargeSelection_paid {selection : ModelSelection} {charge result : LogicalCharge}
    (h : chargeSelection selection charge = .ok result) :
    Paid charge result (Wit.charge selection.value) := by
  obtain ⟨middle, htag, h⟩ := bind_eq_ok.1 h
  cases selection with
  | Exact value =>
      obtain ⟨-, -, h⟩ := bind_eq_ok.1 h
      exact ((add_paid htag).trans (string_paid h)).congr (by simp [ModelSelection.value])
  | Alias value =>
      obtain ⟨-, -, h⟩ := bind_eq_ok.1 h
      exact ((add_paid htag).trans (string_paid h)).congr (by simp [ModelSelection.value])

theorem validateSystemPart_paid {part : String} {charge result : LogicalCharge}
    (h : validateSystemPart charge part = .ok result) :
    Paid charge result (Wit.charge (ofText part)) := by
  obtain ⟨-, -, h⟩ := bind_eq_ok.1 h
  exact (string_paid h).congr (by simp)

theorem validateTools_paid {tools : List ToolDefinition} {definitions names : List String}
    {charge result : LogicalCharge}
    (h : validateTools tools definitions charge = .ok (names, result)) :
    Paid charge result ((tools.map ToolDefinition.value).map Wit.charge).sum := by
  induction tools generalizing definitions charge with
  | nil =>
      cases h
      exact Paid.refl _
  | cons tool tools ih =>
      rw [validateTools] at h
      obtain ⟨-, -, h⟩ := bind_eq_ok.1 h
      obtain ⟨-, -, h⟩ := bind_eq_ok.1 h
      obtain ⟨schema, hschema, h⟩ := bind_eq_ok.1 h
      split at h
      next => cases h
      next =>
        obtain ⟨named, hname, h⟩ := bind_eq_ok.1 h
        obtain ⟨described, hdescription, h⟩ := bind_eq_ok.1 h
        obtain ⟨added, hadded, h⟩ := bind_eq_ok.1 h
        have hown := ((string_paid hname).trans (string_paid hdescription)).trans
          (add_paid hadded)
        rw [charge_wireDocument hschema] at hown
        refine (hown.trans (ih h)).congr ?_
        simp only [List.map_cons, List.sum_cons, ToolDefinition.value, Wit.charge_record,
          Wit.charge_text, List.map_nil, List.sum_nil]
        omega

theorem validateText_paid {value : String} {charge result : LogicalCharge}
    (h : validateText value charge = .ok result) : Paid charge result (stringCharge value) := by
  obtain ⟨-, -, h⟩ := bind_eq_ok.1 h
  exact string_paid h

theorem charge_mediaType (mediaType : ImageMediaType) : Wit.charge mediaType.value = 4 := by
  cases mediaType <;> rfl

theorem charge_reasoningKind (kind : ReasoningKind) : Wit.charge kind.value = 4 := by
  cases kind <;> rfl

theorem charge_effort (effort : ReasoningEffort) : Wit.charge effort.value = 4 := by
  cases effort <;> rfl

theorem charge_cacheRetention (retention : CacheRetention) : Wit.charge retention.value = 4 := by
  cases retention <;> rfl

theorem validateImage_paid {image : ImageView} {selected : CatalogEntry}
    {charge result : LogicalCharge} (h : validateImage image selected charge = .ok result) :
    Paid charge result (Wit.charge image.value) := by
  obtain ⟨-, -, h⟩ := bind_eq_ok.1 h
  split at h
  · cases h
  split at h
  · cases h
  split at h
  · cases h
  obtain ⟨stamped, hstamp, h⟩ := bind_eq_ok.1 h
  obtain ⟨typed, htype, h⟩ := bind_eq_ok.1 h
  obtain ⟨counted, hcount, h⟩ := bind_eq_ok.1 h
  obtain ⟨length, hlength, h⟩ := bind_eq_ok.1 h
  obtain ⟨filled, hbytes, h⟩ := bind_eq_ok.1 h
  rw [checkedLen_ok hlength] at hbytes
  refine (((((string_paid hstamp).trans (add_paid htype)).trans (add_paid hcount)).trans
    (add_paid hbytes)).trans (add_paid h)).congr ?_
  simp only [ImageView.value, ImageMetadata.value, Wit.charge_record, List.map_cons,
    List.map_nil, List.sum_cons, List.sum_nil, Wit.charge_text, Wit.charge_bytes,
    Wit.charge_u32, charge_mediaType]
  omega

theorem validateProof_paid {kind : ReasoningKind} {proof : ReasoningProofView}
    {selected : CatalogEntry} {proofBytes total : Nat} {charge result : LogicalCharge}
    (h : validateProof kind proof selected proofBytes charge = .ok (total, result)) :
    Paid charge result (Wit.charge proof.value) := by
  rw [validateProof] at h
  split at h
  · cases h
  obtain ⟨-, -, h⟩ := bind_eq_ok.1 h
  obtain ⟨-, -, h⟩ := bind_eq_ok.1 h
  obtain ⟨-, -, h⟩ := bind_eq_ok.1 h
  split at h
  · cases h
  split at h
  · cases h
  split at h
  · cases h
  obtain ⟨added, -, h⟩ := bind_eq_ok.1 h
  obtain ⟨all, -, h⟩ := bind_eq_ok.1 h
  split at h
  · cases h
  obtain ⟨stamped, hstamp, h⟩ := bind_eq_ok.1 h
  obtain ⟨requested, hrequest, h⟩ := bind_eq_ok.1 h
  obtain ⟨turned, hturn, h⟩ := bind_eq_ok.1 h
  obtain ⟨indexed, hindex, h⟩ := bind_eq_ok.1 h
  obtain ⟨kinded, hkind, h⟩ := bind_eq_ok.1 h
  obtain ⟨counted, hcount, h⟩ := bind_eq_ok.1 h
  obtain ⟨length, hlength, h⟩ := bind_eq_ok.1 h
  obtain ⟨filled, hbytes, h⟩ := bind_eq_ok.1 h
  rw [checkedLen_ok hlength] at hbytes
  cases h
  refine (((((((string_paid hstamp).trans (string_paid hrequest)).trans
    (string_paid hturn)).trans (add_paid hindex)).trans (add_paid hkind)).trans
    (add_paid hcount)).trans (add_paid hbytes)).congr ?_
  simp only [ReasoningProofView.value, Wit.charge_record, List.map_cons, List.map_nil,
    List.sum_cons, List.sum_nil, Wit.charge_text, Wit.charge_bytes, Wit.charge_u8,
    charge_reasoningKind]
  omega

theorem validateReasoningBlock_paid {block : ReasoningBlock} {selected : CatalogEntry}
    {proofBytes total : Nat} {charge result : LogicalCharge}
    (h : validateReasoningBlock block selected proofBytes charge = .ok (total, result)) :
    Paid charge result (Wit.charge block.value) := by
  obtain ⟨kind, value, proof⟩ := block
  rw [validateReasoningBlock] at h
  split at h
  · cases h
  obtain ⟨kinded, hkind, h⟩ := bind_eq_ok.1 h
  obtain ⟨texted, htext, h⟩ := bind_eq_ok.1 h
  obtain ⟨tagged, htag, h⟩ := bind_eq_ok.1 h
  have hown := ((add_paid hkind).trans (validateText_paid htext)).trans (add_paid htag)
  cases proof with
  | none =>
      cases h
      refine hown.congr ?_
      simp only [ReasoningBlock.value, Wit.charge_record, List.map_cons, List.map_nil,
        List.sum_cons, List.sum_nil, Wit.charge_text, Wit.charge_none, charge_reasoningKind]
      omega
  | some proof =>
      refine (hown.trans (validateProof_paid h)).congr ?_
      simp only [ReasoningBlock.value, Wit.charge_record, List.map_cons, List.map_nil,
        List.sum_cons, List.sum_nil, Wit.charge_text, Wit.charge_some, charge_reasoningKind]
      omega

/-! ## Messages -/

theorem validateUserBlock_paid {selected : CatalogEntry} {block : UserBlock}
    {charge result : LogicalCharge}
    (h : validateUserBlock selected charge block = .ok result) :
    Paid charge result (Wit.charge block.value) := by
  cases block with
  | Text block =>
      obtain ⟨tagged, htag, h⟩ := bind_eq_ok.1 h
      exact ((add_paid htag).trans (validateText_paid h)).congr
        (by simp [UserBlock.value, TextBlock.value])
  | Image image =>
      obtain ⟨tagged, htag, h⟩ := bind_eq_ok.1 h
      exact ((add_paid htag).trans (validateImage_paid h)).congr (by simp [UserBlock.value])

theorem validateToolResultBlock_paid {selected : CatalogEntry} {block : ToolResultBlock}
    {charge result : LogicalCharge}
    (h : validateToolResultBlock selected charge block = .ok result) :
    Paid charge result (Wit.charge block.value) := by
  cases block with
  | Text block =>
      obtain ⟨tagged, htag, h⟩ := bind_eq_ok.1 h
      exact ((add_paid htag).trans (validateText_paid h)).congr
        (by simp [ToolResultBlock.value, TextBlock.value])
  | Image image =>
      obtain ⟨tagged, htag, h⟩ := bind_eq_ok.1 h
      exact ((add_paid htag).trans (validateImage_paid h)).congr
        (by simp [ToolResultBlock.value])

theorem validateToolCall_paid {definitions : List String} {state after : MessageState}
    {call : ToolCallBlock} (h : validateToolCall definitions state call = .ok after) :
    Paid state.charge after.charge (Wit.charge call.value) := by
  obtain ⟨-, -, h⟩ := bind_eq_ok.1 h
  obtain ⟨-, -, h⟩ := bind_eq_ok.1 h
  split at h
  · cases h
  obtain ⟨statistics, harguments, h⟩ := bind_eq_ok.1 h
  obtain ⟨identified, hid, h⟩ := bind_eq_ok.1 h
  obtain ⟨named, hname, h⟩ := bind_eq_ok.1 h
  obtain ⟨added, hadded, h⟩ := bind_eq_ok.1 h
  cases h
  have hown := ((string_paid hid).trans (string_paid hname)).trans (add_paid hadded)
  rw [charge_wireDocument harguments] at hown
  refine hown.congr ?_
  simp only [ToolCallBlock.value, Wit.charge_record, List.map_cons, List.map_nil, List.sum_cons,
    List.sum_nil, Wit.charge_text]
  omega

theorem validateAssistantBlock_paid {definitions : List String} {selected : CatalogEntry}
    {state after : MessageState} {block : AssistantBlock}
    (h : validateAssistantBlock definitions selected state block = .ok after) :
    Paid state.charge after.charge (Wit.charge block.value) := by
  obtain ⟨tagged, htag, h⟩ := bind_eq_ok.1 h
  cases block with
  | Text block =>
      obtain ⟨texted, htext, h⟩ := bind_eq_ok.1 h
      cases h
      exact ((add_paid htag).trans (validateText_paid htext)).congr
        (by simp [AssistantBlock.value, TextBlock.value])
  | Reasoning block =>
      obtain ⟨⟨proofBytes, reasoned⟩, hreasoning, h⟩ := bind_eq_ok.1 h
      cases h
      exact ((add_paid htag).trans (validateReasoningBlock_paid hreasoning)).congr
        (by simp [AssistantBlock.value])
  | ToolCall call =>
      exact ((add_paid htag).trans (validateToolCall_paid h)).congr
        (by simp [AssistantBlock.value])

theorem validateToolResult_paid {selected : CatalogEntry} {state after : MessageState}
    {result : ToolResultMessage} (h : validateToolResult selected state result = .ok after) :
    Paid state.charge after.charge (Wit.charge result.value) := by
  unfold validateToolResult at h
  split at h
  · cases h
  split at h
  · cases h
  obtain ⟨-, -, h⟩ := bind_eq_ok.1 h
  obtain ⟨-, -, h⟩ := bind_eq_ok.1 h
  obtain ⟨identified, hid, h⟩ := bind_eq_ok.1 h
  obtain ⟨counted, hcount, h⟩ := bind_eq_ok.1 h
  obtain ⟨filled, hblocks, h⟩ := bind_eq_ok.1 h
  obtain ⟨flagged, hflag, h⟩ := bind_eq_ok.1 h
  split at h
  · cases h
  cases h
  have hall := foldlM_paid id ToolResultBlock.value
    (fun _ _ _ => validateToolResultBlock_paid) hblocks
  refine ((((string_paid hid).trans (add_paid hcount)).trans hall).trans
    (add_paid hflag)).congr ?_
  simp only [ToolResultMessage.value, Wit.charge_record, List.map_cons, List.map_nil,
    List.sum_cons, List.sum_nil, Wit.charge_text, Wit.charge_list, Wit.charge_bool]
  omega

theorem validateMessage_paid {definitions : List String} {selected : CatalogEntry}
    {state after : MessageState} {message : Message}
    (h : validateMessage definitions selected state message = .ok after) :
    Paid state.charge after.charge (Wit.charge message.value) := by
  obtain ⟨tagged, htag, h⟩ := bind_eq_ok.1 h
  cases message with
  | User user =>
      dsimp only at h
      split at h
      · cases h
      obtain ⟨-, -, h⟩ := bind_eq_ok.1 h
      obtain ⟨counted, hcount, h⟩ := bind_eq_ok.1 h
      obtain ⟨filled, hblocks, h⟩ := bind_eq_ok.1 h
      cases h
      have hall := foldlM_paid id UserBlock.value
        (fun _ _ _ => validateUserBlock_paid) hblocks
      refine (((add_paid htag).trans (add_paid hcount)).trans hall).congr ?_
      simp only [Message.value, Wit.charge_variant, Wit.charge_record, List.map_cons,
        List.map_nil, List.sum_cons, List.sum_nil, Wit.charge_list]
      omega
  | Assistant assistant =>
      dsimp only at h
      split at h
      · cases h
      obtain ⟨-, -, h⟩ := bind_eq_ok.1 h
      obtain ⟨counted, hcount, h⟩ := bind_eq_ok.1 h
      have hall := foldlM_paid MessageState.charge AssistantBlock.value
        (fun _ _ _ => validateAssistantBlock_paid) h
      refine (((add_paid htag).trans (add_paid hcount)).trans hall).congr ?_
      simp only [Message.value, Wit.charge_variant, Wit.charge_record, List.map_cons,
        List.map_nil, List.sum_cons, List.sum_nil, Wit.charge_list]
      omega
  | ToolResult result =>
      exact ((add_paid htag).trans (validateToolResult_paid h)).congr (by simp [Message.value])

theorem validateMessages_paid {messages : List Message} {definitions : List String}
    {selected : CatalogEntry} {charge : LogicalCharge} {facts : MessageState}
    (h : validateMessages messages definitions selected charge = .ok facts) :
    Paid charge facts.charge ((messages.map Message.value).map Wit.charge).sum := by
  obtain ⟨state, hmessages, h⟩ := bind_eq_ok.1 h
  split at h
  · cases h
  cases h
  exact foldlM_paid MessageState.charge Message.value
    (fun _ _ _ => validateMessage_paid) hmessages

/-! ## Options -/

theorem validateToolChoice_paid {input : PrepareInput} {selected : CatalogEntry}
    {charge result : LogicalCharge} (h : validateToolChoice input selected charge = .ok result) :
    Paid charge result (Wit.charge input.toolChoice.value) := by
  obtain ⟨tagged, htag, h⟩ := bind_eq_ok.1 h
  cases hchoice : input.toolChoice with
  | Unset =>
      rw [hchoice] at h
      cases h
      exact add_paid htag
  | Auto =>
      rw [hchoice] at h
      dsimp only at h
      split at h <;> cases h
      exact add_paid htag
  | None =>
      rw [hchoice] at h
      dsimp only at h
      split at h <;> cases h
      exact add_paid htag
  | Specific choice =>
      rw [hchoice] at h
      obtain ⟨named, hname, h⟩ := bind_eq_ok.1 h
      obtain ⟨-, -, h⟩ := bind_eq_ok.1 h
      split at h <;> cases h
      exact ((add_paid htag).trans (string_paid hname)).congr (by simp [ToolChoice.value])

theorem validateEffort_paid {effort : Option ReasoningEffort} {selected : CatalogEntry}
    {charge tagged result : LogicalCharge} (htag : charge.add 4 = .ok tagged)
    (h : validateEffort effort selected tagged = .ok result) :
    Paid charge result (Wit.charge (option ReasoningEffort.value effort)) := by
  cases effort with
  | none =>
      cases h
      exact (add_paid htag).congr (Wit.charge_none _).symm
  | some effort =>
      obtain ⟨charged, hcharged, h⟩ := bind_eq_ok.1 h
      split at h <;> cases h
      exact ((add_paid htag).trans (add_paid hcharged)).congr
        (by rw [Wit.charge_some, charge_effort])

theorem validateBudget_paid {budget : Option Nat} {selected : CatalogEntry}
    {charge tagged result : LogicalCharge} (htag : charge.add 4 = .ok tagged)
    (h : validateBudget budget selected tagged = .ok result) :
    Paid charge result (Wit.charge (option u64 budget)) := by
  cases budget with
  | none =>
      cases h
      exact (add_paid htag).congr (Wit.charge_none _).symm
  | some budget =>
      obtain ⟨charged, hcharged, h⟩ := bind_eq_ok.1 h
      split at h <;> cases h
      exact ((add_paid htag).trans (add_paid hcharged)).congr
        (by rw [Wit.charge_some, Wit.charge_u64])

theorem validateReasoning_paid {reasoning : Reasoning} {selected : CatalogEntry}
    {charge result : LogicalCharge}
    (h : validateReasoning reasoning selected charge = .ok result) :
    Paid charge result (Wit.charge reasoning.value) := by
  obtain ⟨tagged, htag, h⟩ := bind_eq_ok.1 h
  cases reasoning with
  | Unset =>
      cases h
      exact add_paid htag
  | Disabled =>
      dsimp only at h
      split at h <;> cases h
      exact add_paid htag
  | Enabled enabled =>
      dsimp only at h
      split at h
      · cases h
      obtain ⟨first, hfirst, h⟩ := bind_eq_ok.1 h
      obtain ⟨efforted, heffort, h⟩ := bind_eq_ok.1 h
      obtain ⟨second, hsecond, h⟩ := bind_eq_ok.1 h
      refine (((add_paid htag).trans (validateEffort_paid hfirst heffort)).trans
        (validateBudget_paid hsecond h)).congr ?_
      simp only [Reasoning.value, EnabledReasoning.value, Wit.charge_variant, Wit.charge_record,
        List.map_cons, List.map_nil, List.sum_cons, List.sum_nil]
      omega

theorem validateMaxOutput_paid {maximum : Option Nat} {selected : CatalogEntry}
    {charge result : LogicalCharge}
    (h : validateMaxOutput maximum selected charge = .ok result) :
    Paid charge result (Wit.charge (option u64 maximum)) := by
  obtain ⟨tagged, htag, h⟩ := bind_eq_ok.1 h
  cases maximum with
  | none =>
      cases h
      exact (add_paid htag).congr (Wit.charge_none _).symm
  | some maximum =>
      obtain ⟨charged, hcharged, h⟩ := bind_eq_ok.1 h
      split at h <;> cases h
      exact ((add_paid htag).trans (add_paid hcharged)).congr
        (by rw [Wit.charge_some, Wit.charge_u64])

/-! ## Inputs -/

/-- A charge within the limit has room for any length that an object can have. -/
theorem checkedAdd_room {charge : LogicalCharge} {value : Nat}
    (hwithin : charge.value ≤ charge.limit) (hlimit : charge.limit ≤ MAX_LOGICAL_CHARGE)
    (hvalue : value ≤ 2 ^ 63 - 1) :
    checkedAdd charge.value value = .ok (charge.value + value) := by
  have hroom : MAX_LOGICAL_CHARGE + (2 ^ 63 - 1) ≤ U64_MAX := by decide
  exact if_pos (by omega)

theorem validatePrepareInput_paid {input : PrepareInput} {selected : SelectedCatalogView}
    {validated : ValidatedPrepare} (h : validatePrepareInput input selected = .ok validated) :
    ∃ charge, Paid (.new MAX_LOGICAL_CHARGE) charge (Wit.charge input.value) ∧
      validated.logicalCharge = charge.value := by
  rw [validatePrepareInput] at h
  obtain ⟨-, -, h⟩ := bind_eq_ok.1 h
  obtain ⟨-, -, h⟩ := bind_eq_ok.1 h
  obtain ⟨_, hprovider, h⟩ := bind_eq_ok.1 h
  obtain ⟨_, hroute, h⟩ := bind_eq_ok.1 h
  obtain ⟨_, hdigest, h⟩ := bind_eq_ok.1 h
  obtain ⟨_, hselection, h⟩ := bind_eq_ok.1 h
  obtain ⟨_, hmodel, h⟩ := bind_eq_ok.1 h
  obtain ⟨_, hoperation, h⟩ := bind_eq_ok.1 h
  obtain ⟨_, hrequest, h⟩ := bind_eq_ok.1 h
  obtain ⟨_, hturn, h⟩ := bind_eq_ok.1 h
  -- the identities are checked once more
  obtain ⟨-, -, h⟩ := bind_eq_ok.1 h
  obtain ⟨-, -, h⟩ := bind_eq_ok.1 h
  obtain ⟨-, -, h⟩ := bind_eq_ok.1 h
  obtain ⟨-, -, h⟩ := bind_eq_ok.1 h
  obtain ⟨-, -, h⟩ := bind_eq_ok.1 h
  obtain ⟨-, -, h⟩ := bind_eq_ok.1 h
  obtain ⟨-, -, h⟩ := bind_eq_ok.1 h
  obtain ⟨-, -, h⟩ := bind_eq_ok.1 h
  obtain ⟨_, hparts, h⟩ := bind_eq_ok.1 h
  obtain ⟨_, hsystem, h⟩ := bind_eq_ok.1 h
  obtain ⟨-, -, h⟩ := bind_eq_ok.1 h
  obtain ⟨_, hdefinitions, h⟩ := bind_eq_ok.1 h
  obtain ⟨⟨_, _⟩, htools, h⟩ := bind_eq_ok.1 h
  obtain ⟨-, -, h⟩ := bind_eq_ok.1 h
  obtain ⟨_, hcount, h⟩ := bind_eq_ok.1 h
  obtain ⟨facts, hmessages, h⟩ := bind_eq_ok.1 h
  obtain ⟨_, hchoice, h⟩ := bind_eq_ok.1 h
  obtain ⟨_, hreasoning, h⟩ := bind_eq_ok.1 h
  obtain ⟨_, hcache, h⟩ := bind_eq_ok.1 h
  obtain ⟨charge, hmaximum, h⟩ := bind_eq_ok.1 h
  split at h <;> cases h
  have hidentity := ((((((((string_paid hprovider).trans (string_paid hroute)).trans
    (string_paid hdigest)).trans (chargeSelection_paid hselection)).trans
    (string_paid hmodel)).trans (string_paid hoperation)).trans (string_paid hrequest)).trans
    (string_paid hturn))
  have hprompt := (add_paid hparts).trans (foldlM_paid id ofText
    (fun _ _ _ => validateSystemPart_paid) hsystem)
  have hdefined := (add_paid hdefinitions).trans (validateTools_paid htools)
  have hconversation := (add_paid hcount).trans (validateMessages_paid hmessages)
  have hoptions := (((validateToolChoice_paid hchoice).trans
    (validateReasoning_paid hreasoning)).trans (add_paid hcache)).trans
    (validateMaxOutput_paid hmaximum)
  refine ⟨charge, ?_, rfl⟩
  refine ((((hidentity.trans hprompt).trans hdefined).trans hconversation).trans
    hoptions).congr ?_
  simp only [PrepareInput.value, Wit.charge_record, List.map_cons, List.map_nil, List.sum_cons,
    List.sum_nil, Wit.charge_text, Wit.charge_list, charge_cacheRetention]
  omega

/-- **The charge of an accepted input** is the documented one and within 8 MiB.  No sum on
the way overflows: the charge is within its limit, and so are the bytes of the proofs. -/
theorem prepare_charge_documented (input : PrepareInput) (selected : SelectedCatalogView)
    (validated : ValidatedPrepare) (h : validatePrepareInput input selected = .ok validated) :
    validated.logicalCharge = Wit.charge input.value ∧
      validated.logicalCharge ≤ 8 * 1024 * 1024 ∧
      (∀ (charge : LogicalCharge) (value : Nat), charge.value ≤ charge.limit →
        charge.limit ≤ MAX_LOGICAL_CHARGE → value ≤ 2 ^ 63 - 1 →
        checkedAdd charge.value value = .ok (charge.value + value)) ∧
      ∀ proofBytes length, proofBytes ≤ MAX_PROOFS_BYTES → length ≤ MAX_PROOF_BYTES →
        checkedAdd proofBytes length = .ok (proofBytes + length) := by
  obtain ⟨charge, hpaid, hcharge⟩ := validatePrepareInput_paid h
  refine ⟨?_, ?_, fun _ _ => checkedAdd_room, ?_⟩
  · rw [hcharge, hpaid.value]
    exact Nat.zero_add _
  · rw [hcharge]
    have hwithin := hpaid.within (Nat.zero_le _)
    rwa [hpaid.limit] at hwithin
  · intro proofBytes length hproofs hlength
    have hroom : MAX_PROOFS_BYTES + MAX_PROOF_BYTES ≤ U64_MAX := by decide
    exact if_pos (by omega)

/-- A request with one user message. -/
def greeting : PrepareInput where
  providerId := "provider"
  routeId := "route"
  catalogDigest := "sha256:0000000000000000000000000000000000000000000000000000000000000000"
  selection := .Exact "a"
  currentModel := "a"
  operationId := "complete"
  requestId := "request"
  turnId := "turn"
  system := ["Answer."]
  messages := [.User ⟨[.Text ⟨"hi"⟩]⟩]
  tools := []
  toolChoice := .Unset
  reasoning := .Unset
  cacheRetention := .Unset
  maxOutputTokens := none

def greetingSelected : SelectedCatalogView where
  providerId := "provider"
  routeId := "route"
  catalogDigest := "sha256:0000000000000000000000000000000000000000000000000000000000000000"
  entry := ⟨.Exact "a", "a", none, [.Text], ⟨.Unknown, .Unknown, .Unknown, .Unknown⟩,
    ⟨.Unknown, .Unknown, .Unknown, .Unknown⟩, none, none, "complete"⟩

theorem prepare_charge_greeting : Wit.charge greeting.value = 198 :=
  (prepare_charge_documented greeting greetingSelected ⟨198, []⟩ rfl).1.symm

end MCode.Adapter
