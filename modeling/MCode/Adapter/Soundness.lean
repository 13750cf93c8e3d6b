import MCode.Adapter.Authority

/-!
# Accepted contracts do not go wrong

The lexical walk gives every node a scope, the cases around it and the
wrappers around it; the evaluation meets the node in a part of the request.
Where the request has what the context says, no source of the node is missing.
Two things are not seen by the walk: a case that is omitted, and a kind of one
of the request's own variants away from the root.  `wellPlaced` says that a
request meets neither.
-/

namespace MCode.Adapter

open MCode.Lib
open MCode.Lib.Results

/-! ## Where a request meets a contract -/

/-- The scopes of the items of a collection. -/
def itemScopes (original : PrepareInput) : AdapterCollection → Scope → List Scope
  | .System, .Root => original.system.zipIdx.map fun (text, index) => .System index text
  | .Messages, .Root =>
      original.messages.zipIdx.map fun (message, index) => .Message index message
  | .Tools, .Root => (List.range original.tools.length).map .Tool
  | .Blocks, .Message index message => blockScopes index message
  | .Blocks, .MessageEntry index message => blockScopes index message
  | .SystemMessages, .Root =>
      (original.system.zipIdx.map fun (text, index) => Scope.SystemEntry index text)
        ++ original.messages.zipIdx.map fun (message, index) => .MessageEntry index message
  | _, _ => []

/-- The variant that a source has in a scope. -/
def variantOf (original : PrepareInput) : AdapterVariantSource → Scope → Option Nat
  | .ModelSelection, .Root => some (selectionOrdinal original.selection)
  | .SystemMessageEntry, .SystemEntry _ _ => some 0
  | .SystemMessageEntry, .MessageEntry _ _ => some 1
  | .Message, .Message _ message => some (messageOrdinal message)
  | .Message, .MessageEntry _ message => some (messageOrdinal message)
  | .UserBlock, .UserBlock _ _ block => some (userBlockOrdinal block)
  | .AssistantBlock, .AssistantBlock _ _ block => some (assistantBlockOrdinal block)
  | .ToolResultBlock, .ToolResultBlock _ _ block => some (toolResultBlockOrdinal block)
  | .ToolResultStatus, .Message _ (.ToolResult result) => some (statusOrdinal result.isError)
  | .ToolResultStatus, .MessageEntry _ (.ToolResult result) =>
      some (statusOrdinal result.isError)
  | .ToolChoice, .Root => some (toolChoiceOrdinal original.toolChoice)
  | .Reasoning, .Root => some (reasoningOrdinal original.reasoning)
  | .CacheRetention, .Root => some (cacheOrdinal original.cacheRetention)
  | _, _ => none

/-- A node has no value in a scope, for what it takes its value from is absent. -/
def isOmitted (original : PrepareInput) (node : ContractNode) (scope : Scope) : Bool :=
  match absence original node.presence node.presenceSource scope with
  | .ok (some (absent, _)) => absent
  | _ => false

/-- The scalars of the request's own variants that are not bound to the root. -/
def isRequestKind : AdapterScalarSource → Bool
  | .SelectionKind | .ToolChoiceKind | .ToolChoiceName | .ReasoningMode | .CacheRetention => true
  | _ => false

def isRoot : Scope → Bool
  | .Root => true
  | _ => false

/-- Below a node, the request selects no case that is omitted, and meets the kind of one of its
own variants only at the root.  `fuel` bounds the recursion along the indices. -/
def wellPlaced (contract : AdapterContractV1) (original : PrepareInput) :
    Nat → Nat → Scope → Bool
  | 0, _, _ => false
  | fuel + 1, index, scope =>
      match contract.tree.nodes[index]? with
      | none => false
      | some node =>
          isOmitted original node scope ||
            match node.body with
            | .Object object =>
                object.children.all fun child => wellPlaced contract original fuel child scope
            | .Array array =>
                (itemScopes original array.collection scope).all fun item =>
                  wellPlaced contract original fuel array.item item
            | .Switch switch =>
                match (variantOf original switch.source scope).bind (switch.cases[·]?) with
                | none => true
                | some chosen =>
                    !contract.tree.nodes[chosen.node]?.any (isOmitted original · scope)
                      && wellPlaced contract original fuel chosen.node scope
            | .Value value => !isRequestKind value.source || isRoot scope
            | .Constant _ => true

/-- The request meets every node of the contract where its source is. -/
def WellPlaced (contract : AdapterContractV1) (original : PrepareInput) : Prop :=
  wellPlaced contract original contract.tree.nodes.length contract.tree.root .Root = true

/-! ## Contexts that a request fits -/

/-- A lexical scope is that of a part of a request. -/
def ScopeFits : LexicalScope → Scope → Prop
  | .Root, .Root => True
  | .System, .System _ _ => True
  | .System, .SystemEntry _ _ => True
  | .SystemMessageEntry, .SystemEntry _ _ => True
  | .SystemMessageEntry, .MessageEntry _ _ => True
  | .Message, .Message _ _ => True
  | .MessageEntry, .MessageEntry _ _ => True
  | .UserBlock, .UserBlock _ _ _ => True
  | .AssistantBlock, .AssistantBlock _ _ _ => True
  | .ToolResultBlock, .ToolResultBlock _ _ _ => True
  | .Tool, .Tool _ => True
  | _, _ => False

/-- A case around a node is the one that the request selects.  The case of a message is not looked
at below its blocks. -/
def CaseFits (original : PrepareInput) : AdapterVariantSource → Nat → Scope → Prop
  | .ToolChoice, ordinal, _ => toolChoiceOrdinal original.toolChoice = ordinal
  | .Reasoning, ordinal, _ => reasoningOrdinal original.reasoning = ordinal
  | .Message, _, .UserBlock _ _ _ => True
  | .Message, _, .AssistantBlock _ _ _ => True
  | .Message, _, .ToolResultBlock _ _ _ => True
  | .Message, ordinal, scope => variantOf original .Message scope = some ordinal
  | .UserBlock, ordinal, scope => variantOf original .UserBlock scope = some ordinal
  | .AssistantBlock, ordinal, scope => variantOf original .AssistantBlock scope = some ordinal
  | .ToolResultBlock, ordinal, scope => variantOf original .ToolResultBlock scope = some ordinal
  | _, _, _ => True

/-- What is below a wrapper is there only if its source is present. -/
def WrapperFits (original : PrepareInput) : AdapterPresenceSource → Scope → Prop
  | .ReasoningProof, .AssistantBlock _ _ (.Reasoning reasoning) => reasoning.proof.isSome = true
  | .ReasoningProof, _ => False
  | .ReasoningEffort, _ => ∃ enabled, original.reasoning = .Enabled enabled ∧
      enabled.effort.isSome = true
  | .ReasoningBudget, _ => ∃ enabled, original.reasoning = .Enabled enabled ∧
      enabled.budgetTokens.isSome = true
  | .MaxOutput, _ => original.maxOutputTokens.isSome = true
  | _, _ => True

/-- A context says of a part of a request what is so. -/
structure Fits (original : PrepareInput) (context : Context) (scope : Scope) : Prop where
  lexical : ScopeFits context.scope scope
  cases : ∀ source ordinal, activeOrdinal context source = some ordinal →
    CaseFits original source ordinal scope
  wrappers : ∀ source, hasWrapper context source = true → WrapperFits original source scope

section

variable {original : PrepareInput} {context : Context} {scope : Scope}

theorem Fits.root (h : Fits original context scope) (hroot : (context.scope == .Root) = true) :
    scope = .Root := by
  have hlexical := h.lexical
  rw [beq_iff_eq.1 hroot] at hlexical
  cases scope with
  | Root => rfl
  | _ => cases hlexical

theorem Fits.message (h : Fits original context scope)
    (hmessage : isMessageScope context.scope = true) :
    ∃ index message, scopeMessage scope = .ok (index, message) ∧
      variantOf original .Message scope = some (messageOrdinal message) := by
  have hlexical := h.lexical
  simp only [isMessageScope, Bool.or_eq_true, beq_iff_eq] at hmessage
  rcases hmessage with hmessage | hmessage
  · rw [hmessage] at hlexical
    cases scope with
    | Message index message => exact ⟨index, message, rfl, rfl⟩
    | _ => cases hlexical
  · rw [hmessage] at hlexical
    cases scope with
    | MessageEntry index message => exact ⟨index, message, rfl, rfl⟩
    | _ => cases hlexical

theorem Fits.toolResult (h : Fits original context scope)
    (hresult : isToolResultMessage context = true) :
    ∃ index result, toolResult scope = .ok (index, result) := by
  simp only [isToolResultMessage, Bool.and_eq_true, beq_iff_eq] at hresult
  have hcase := h.cases _ _ hresult.2
  obtain ⟨index, message, hmessage, -⟩ := h.message hresult.1
  cases scope with
  | Message index message =>
      cases message with
      | ToolResult result => exact ⟨index, result, rfl⟩
      | User message => cases hcase
      | Assistant message => cases hcase
  | MessageEntry index message =>
      cases message with
      | ToolResult result => exact ⟨index, result, rfl⟩
      | User message => cases hcase
      | Assistant message => cases hcase
  | _ => cases hmessage

/-- A block of the assistant, by the case around it. -/
theorem Fits.assistantBlock (h : Fits original context scope) {ordinal : Nat}
    (hscope : (context.scope == .AssistantBlock) = true)
    (hcase : (activeOrdinal context .AssistantBlock == some ordinal) = true) :
    ∃ index position block, scope = .AssistantBlock index position block ∧
      assistantBlockOrdinal block = ordinal := by
  have hlexical := h.lexical
  have hfits := h.cases _ _ (beq_iff_eq.1 hcase)
  rw [beq_iff_eq.1 hscope] at hlexical
  cases scope with
  | AssistantBlock index position block => exact ⟨index, position, block, rfl, Option.some.inj hfits⟩
  | _ => cases hlexical

theorem Fits.reasoningBlock (h : Fits original context scope)
    (hscope : (context.scope == .AssistantBlock) = true)
    (hcase : (activeOrdinal context .AssistantBlock == some 1) = true) :
    ∃ index position reasoning, scope = .AssistantBlock index position (.Reasoning reasoning) := by
  obtain ⟨index, position, block, rfl, hordinal⟩ := h.assistantBlock hscope hcase
  cases block with
  | Reasoning reasoning => exact ⟨index, position, reasoning, rfl⟩
  | Text text => cases hordinal
  | ToolCall call => cases hordinal

theorem Fits.toolCall (h : Fits original context scope)
    (hscope : (context.scope == .AssistantBlock) = true)
    (hcase : (activeOrdinal context .AssistantBlock == some 2) = true) :
    ∃ index position call, scope = .AssistantBlock index position (.ToolCall call) := by
  obtain ⟨index, position, block, rfl, hordinal⟩ := h.assistantBlock hscope hcase
  cases block with
  | ToolCall call => exact ⟨index, position, call, rfl⟩
  | Text text => cases hordinal
  | Reasoning reasoning => cases hordinal

theorem Fits.image (h : Fits original context scope) (himage : isImageBlock context = true) :
    ∃ index position image, imageOf scope = .ok (index, position, image) := by
  simp only [isImageBlock, Bool.and_eq_true, Bool.or_eq_true, beq_iff_eq] at himage
  rcases himage.2 with hcase | hcase
  · have hfits := h.cases _ _ hcase
    cases scope with
    | UserBlock index position block =>
        cases block with
        | Image image => exact ⟨index, position, image, rfl⟩
        | Text text => cases hfits
    | _ => cases hfits
  · have hfits := h.cases _ _ hcase
    cases scope with
    | ToolResultBlock index position block =>
        cases block with
        | Image image => exact ⟨index, position, image, rfl⟩
        | Text text => cases hfits
    | _ => cases hfits

theorem Fits.text (h : Fits original context scope) (htext : isTextBlock context = true) :
    ∃ index position text, blockTextOf scope = .ok (index, position, text) := by
  unfold isTextBlock at htext
  split at htext
  · have hfits := h.cases _ _ (beq_iff_eq.1 htext)
    cases scope with
    | UserBlock index position block =>
        cases block with
        | Text text => exact ⟨index, position, text.text, rfl⟩
        | Image image => cases hfits
    | _ => cases hfits
  · rename_i hscope
    rw [Bool.or_eq_true] at htext
    rcases htext with hcase | hcase
    · obtain ⟨index, position, block, rfl, hordinal⟩ :=
        h.assistantBlock (beq_iff_eq.2 hscope) hcase
      cases block with
      | Text text => exact ⟨index, position, text.text, rfl⟩
      | Reasoning reasoning => cases hordinal
      | ToolCall call => cases hordinal
    · obtain ⟨index, position, reasoning, rfl⟩ := h.reasoningBlock (beq_iff_eq.2 hscope) hcase
      exact ⟨index, position, reasoning.text, rfl⟩
  · have hfits := h.cases _ _ (beq_iff_eq.1 htext)
    cases scope with
    | ToolResultBlock index position block =>
        cases block with
        | Text text => exact ⟨index, position, text.text, rfl⟩
        | Image image => cases hfits
    | _ => cases hfits
  · cases htext

theorem Fits.enabled (h : Fits original context scope)
    (hcase : (activeOrdinal context .Reasoning == some 2) = true) :
    ∃ enabled, original.reasoning = .Enabled enabled := by
  have hfits : reasoningOrdinal original.reasoning = 2 := h.cases _ _ (beq_iff_eq.1 hcase)
  cases hreasoning : original.reasoning with
  | Enabled enabled => exact ⟨enabled, rfl⟩
  | Unset =>
      rw [hreasoning] at hfits
      cases hfits
  | Disabled =>
      rw [hreasoning] at hfits
      cases hfits

theorem Fits.specific (h : Fits original context scope)
    (hcase : (activeOrdinal context .ToolChoice == some 3) = true) :
    ∃ choice, original.toolChoice = .Specific choice := by
  have hfits : toolChoiceOrdinal original.toolChoice = 3 := h.cases _ _ (beq_iff_eq.1 hcase)
  cases hchoice : original.toolChoice with
  | Specific choice => exact ⟨choice, rfl⟩
  | Unset =>
      rw [hchoice] at hfits
      cases hfits
  | Auto =>
      rw [hchoice] at hfits
      cases hfits
  | None =>
      rw [hchoice] at hfits
      cases hfits

end

/-! ## Faults -/

/-- An invalid contract is reported for a source that is taken twice only. -/
def Fault.Excused (fault : Fault) : Prop := fault.error = some .InvalidContract → fault = .Consumed

theorem Fault.consumed_excused : Fault.Consumed.Excused := fun _ => rfl

theorem Fault.refused_excused {error : AdapterValidationError} (h : error ≠ .InvalidContract) :
    (Fault.Refused error).Excused :=
  fun hinvalid => absurd (Option.some.inj hinvalid) h

theorem Fault.OfRequest.excused {fault : Fault} (h : fault.OfRequest) : fault.Excused := by
  obtain ⟨error, rfl, hne⟩ := h
  exact Fault.refused_excused hne

/-- The request is refused, if anything is. -/
def OfRequest {α : Type} (result : AdapterValidationResult α) : Prop :=
  ∀ error, result = .error error → error ≠ .InvalidContract

theorem ofRequest_ok {α : Type} (value : α) : OfRequest (.ok value) := nofun

theorem ofRequest_error {α : Type} {error : AdapterValidationError}
    (h : error ≠ .InvalidContract) : OfRequest (.error error : AdapterValidationResult α) := by
  rintro other ⟨⟩
  exact h

theorem OfRequest.bind {α β : Type} {result : AdapterValidationResult α}
    {next : α → AdapterValidationResult β} (h : OfRequest result)
    (hnext : ∀ value, OfRequest (next value)) : OfRequest (result >>= next) := by
  cases result with
  | error error =>
      rintro other ⟨⟩
      exact h error rfl
  | ok value => exact hnext value

theorem ofRequest_mapSourceError {α : Type} (result : MCode.Validation.ValidationResult α) :
    OfRequest (mapSourceError result) := by
  cases result with
  | ok value => exact ofRequest_ok value
  | error error => cases error <;> exact ofRequest_error nofun

theorem ofRequest_mapM {α β : Type} {items : List α} {f : α → AdapterValidationResult β}
    (h : ∀ item, OfRequest (f item)) : OfRequest (items.mapM f) := by
  induction items with
  | nil => exact ofRequest_ok []
  | cons item items ih =>
      rw [List.mapM_cons]
      exact (h item).bind fun _ => ih.bind fun _ => ofRequest_ok _

/-- A step that does not report an invalid contract. -/
abbrev Sound {α : Type} (x : Eval α) : Prop := Outcome Fault.Excused (fun _ => True) x

theorem sound_returned {α : Type} {result : AdapterValidationResult α} (h : OfRequest result) :
    Ends Fault.Excused (fun value => result = .ok value) (returned result) :=
  (ends_returned result).mono
    (fun _ ⟨error, herror, hfault⟩ => hfault ▸ Fault.refused_excused (h error herror))
    fun _ hvalue => hvalue

theorem sound_settled {debt : Debt} {value : Run AdapterJson}
    (h : Ends Fault.Excused (fun _ => True) value) : Sound (settled debt value) :=
  settled_outcome Fault.consumed_excused h

theorem sound_settledOptional {source : Debt} {value : Run AdapterJson}
    (h : Ends Fault.Excused (fun _ => True) value) : Sound (settledOptional source value) :=
  settledOptional_outcome Fault.consumed_excused h

theorem sound_lift {α : Type} {result : AdapterValidationResult α} (h : OfRequest result) :
    Ends Fault.Excused (fun _ => True) (returned result) :=
  (sound_returned h).mono (fun _ hfault => hfault) fun _ _ => trivial

/-- What is looked up in a scope is there. -/
theorem sound_found {α β : Type} {result : AdapterValidationResult α} {value : α}
    {next : α → Eval β} (h : result = .ok value) (hnext : Sound (next value)) :
    Sound (lift (returned result) >>= next) := by
  rw [h]
  exact hnext

theorem sound_then {α β : Type} {result : AdapterValidationResult α} {next : α → Eval β}
    (h : OfRequest result) (hnext : ∀ value, result = .ok value → Sound (next value)) :
    Sound (lift (returned result) >>= next) :=
  (Outcome.lift (sound_returned h)).bind hnext

/-! ## Tables -/

/-- A transform names a table for a source. -/
def TableFor (contract : AdapterContractV1) (transform : AdapterTransform)
    (source : AdapterEnumSource) : Prop :=
  ∃ index table, transform = .EnumToken index ∧ contract.tree.tables[index]? = some table ∧
    table.source = source

theorem tableFor_of_legal {contract : AdapterContractV1} {source : AdapterScalarSource}
    {transform : AdapterTransform} {table : AdapterEnumSource}
    (hsource : enumSource source = some table)
    (hlegal : enumTransformMatches contract source transform = true) :
    TableFor contract transform table := by
  unfold enumTransformMatches at hlegal
  split at hlegal
  · rename_i index
    obtain ⟨found, hfound, hmatches⟩ := (Option.any_eq_true _ _).1 hlegal
    refine ⟨index, found, rfl, hfound, ?_⟩
    unfold sourceMatches at hmatches
    split at hmatches
    · rename_i hkind
      rw [beq_iff_eq.1 hkind] at hsource
      cases hsource
    · rw [hsource, beq_iff_eq] at hmatches
      exact (Option.some.inj hmatches).symm
  · cases hlegal

theorem lookup_some {α : Type} {items : List α} {index : Nat} {item : α}
    (h : items[index]? = some item) : lookup items index = .ok item := by
  unfold lookup
  rw [h]

theorem enumTable_ok {contract : AdapterContractV1} {transform : AdapterTransform}
    {source : AdapterEnumSource} (h : TableFor contract transform source) :
    ∃ table ∈ contract.tree.tables, enumTable contract transform = .ok table ∧
      table.source = source := by
  obtain ⟨index, table, rfl, hfound, hsource⟩ := h
  exact ⟨table, List.mem_of_getElem? hfound, lookup_some hfound, hsource⟩

/-- A table for the source has a token for each of its variants. -/
theorem enumToken_ok {contract : AdapterContractV1} (hstructured : Structured contract)
    {transform : AdapterTransform} {source : AdapterEnumSource}
    (h : TableFor contract transform source) {ordinal : Nat}
    (hordinal : ordinal < source.variantCount) :
    ∃ value, enumToken contract transform source ordinal = .ok value := by
  obtain ⟨table, hmem, htable, hsource⟩ := enumTable_ok h
  have hcount := (hstructured.tables table hmem).count
  rw [hsource] at hcount
  obtain ⟨entry, hentry⟩ : ∃ entry, table.entries[ordinal]? = some entry :=
    ⟨_, List.getElem?_eq_getElem (by omega)⟩
  refine ⟨ordinaryString entry.token, ?_⟩
  unfold enumToken
  rw [htable]
  change (if (table.source != source) = true then _ else _) = _
  rw [if_neg (by simp [hsource]), lookup_some hentry]
  rfl

theorem enumToken_sound {contract : AdapterContractV1} (hstructured : Structured contract)
    {transform : AdapterTransform} {source : AdapterEnumSource}
    (h : TableFor contract transform source) {ordinal : Nat}
    (hordinal : ordinal < source.variantCount) :
    Ends Fault.Excused (fun _ => True) (enumToken contract transform source ordinal) := by
  obtain ⟨value, hvalue⟩ := enumToken_ok hstructured h hordinal
  rw [hvalue]
  trivial

theorem statusToken_sound {contract : AdapterContractV1} (hstructured : Structured contract)
    {transform : AdapterTransform} (h : isExactBedrockStatusTable contract transform = true)
    (isError : Bool) :
    Ends Fault.Excused (fun _ => True) (statusToken contract transform isError) := by
  unfold isExactBedrockStatusTable at h
  split at h
  · rename_i index
    split at h
    · rename_i success error hfound
      simp only [Bool.and_eq_true, beq_iff_eq] at h
      have htable : TableFor contract (.EnumToken index) .ToolResultStatus :=
        ⟨index, _, rfl, hfound, rfl⟩
      obtain ⟨value, hvalue⟩ := enumToken_ok hstructured htable (statusOrdinal_lt isError)
      unfold statusToken
      rw [hvalue]
      change Ends _ _ (lookup contract.tree.tables index >>= _)
      rw [lookup_some hfound]
      have htokens : requireStatusTokens ⟨.ToolResultStatus, [success, error]⟩ = .ok () := by
        simp [requireStatusTokens, h.1.1.2, h.2]
      change Ends _ _ (requireStatusTokens _ >>= _)
      rw [htokens]
      trivial
    · cases h
  · cases h

/-! ## Scalars -/

theorem requireTransform_ok {transform wanted : AdapterTransform}
    (h : (transform == wanted) = true) : requireTransform transform wanted = .ok () :=
  ensure_ok.2 h

theorem identityString_ok {transform : AdapterTransform} (h : (transform == .Identity) = true)
    (value : String) : identityString transform value = .ok (ordinaryString value) := by
  unfold identityString
  rw [requireTransform_ok h]
  rfl

theorem identityString_sound {transform : AdapterTransform}
    (h : (transform == .Identity) = true) (value : String) :
    Ends Fault.Excused (fun _ => True) (returned (identityString transform value)) := by
  rw [identityString_ok h]
  trivial

theorem sizedText_ofRequest (length : Nat) (text : MCode.Validation.Text) :
    OfRequest (sizedText length text) := by
  unfold sizedText
  split
  · exact ofRequest_error nofun
  · exact ofRequest_ok _

theorem encodeBytes_ofRequest {transform : AdapterTransform}
    (h : (transform == .Base64StandardPadded || transform == .Base64StandardUnpadded) = true)
    (bytes : List UInt8) : OfRequest (encodeBytes transform bytes) := by
  simp only [Bool.or_eq_true, beq_iff_eq] at h
  rcases h with rfl | rfl
  · exact sizedText_ofRequest _ _
  · exact sizedText_ofRequest _ _

theorem dataUriLength_ofRequest (image : ImageView) : OfRequest (dataUriLength image) := by
  unfold dataUriLength
  dsimp only
  split
  · exact ofRequest_error nofun
  · exact ofRequest_ok _

theorem dataUri_ofRequest (image : ImageView) : OfRequest (dataUri image) := by
  refine (dataUriLength_ofRequest image).bind fun capacity => ?_
  dsimp only
  split
  · exact ofRequest_error nofun
  · exact ofRequest_ok _

theorem mistralChunks_ofRequest (texts : List String) (images : List ImageView)
    (isError : Bool) : OfRequest (mistralChunks texts images isError) := by
  refine (ofRequest_mapSourceError _).bind fun plan => ?_
  refine (ofRequest_mapM dataUriLength_ofRequest).bind fun lengths => ?_
  refine (ofRequest_mapSourceError _).bind fun _ => ?_
  refine (ofRequest_mapSourceError _).bind fun text => ?_
  exact (ofRequest_mapM dataUri_ofRequest).bind fun uris => ofRequest_ok _

theorem matchedResult_ofRequest (self : Evaluator) (callId : String) :
    OfRequest (matchedResult self callId) := by
  unfold matchedResult
  split
  · exact ofRequest_error nofun
  · exact ofRequest_ok _

theorem requireSameStatus_ofRequest (self : Evaluator) (result : ToolResultMessage) :
    OfRequest (requireSameStatus self result) := by
  refine (matchedResult_ofRequest self result.callId).bind fun found => ?_
  split
  · exact ofRequest_error nofun
  · exact ofRequest_ok _

theorem joinedSystem_ofRequest (system : List String) : OfRequest (joinedSystem system) := by
  unfold joinedSystem
  dsimp only
  split
  · exact ofRequest_error nofun
  · exact ofRequest_ok _

section

variable {self : Evaluator} {context : Context} {scope : Scope} {transform : AdapterTransform}

theorem sound_consume (debt : Debt) : Sound (consume debt) :=
  consume_outcome Fault.consumed_excused debt

theorem sound_consumeResultBlock (index : Nat) (block : ToolResultBlock × Nat) :
    Sound (consumeResultBlock index block) := by
  refine (sound_consume _).bind fun _ _ => ?_
  cases block.1 with
  | Text text => exact sound_consume _
  | Image image => exact (sound_consume _).bind fun _ _ => sound_consume _

theorem sound_mistralContent (h : Fits self.original context scope)
    (hresult : isToolResultMessage context = true)
    (htransform : (transform == .MistralToolResultContent) = true) :
    Sound (mistralContent self transform scope) := by
  obtain ⟨index, result, hfound⟩ := h.toolResult hresult
  refine sound_found (requireTransform_ok htransform) (sound_found hfound ?_)
  refine (sound_consume _).bind fun _ _ => (sound_consume _).bind fun _ _ => ?_
  refine sound_then (requireSameStatus_ofRequest self result) fun _ _ => ?_
  refine (Outcome.forM fun block _ => sound_consumeResultBlock index block).bind fun _ _ => ?_
  exact Outcome.lift (sound_lift (mistralChunks_ofRequest _ _ _))

theorem sound_systemJoined (htransform : (transform == .JoinLf) = true) :
    Sound (systemJoined self transform .Root) := by
  refine sound_found rfl (sound_found (requireTransform_ok htransform) ?_)
  refine (sound_consume _).bind fun _ _ => ?_
  refine (Outcome.forM fun _ _ => sound_consume _).bind fun _ _ => ?_
  exact Outcome.lift (sound_lift (joinedSystem_ofRequest _))

theorem sound_systemItem (h : Fits self.original context scope)
    (hscope : (context.scope == .System) = true) (htransform : (transform == .Identity) = true) :
    Sound (systemItem transform scope) := by
  have hlexical := h.lexical
  rw [beq_iff_eq.1 hscope] at hlexical
  cases scope with
  | System index text => exact sound_settled (identityString_sound htransform text)
  | SystemEntry index text => exact sound_settled (identityString_sound htransform text)
  | _ => cases hlexical

theorem sound_toolCallText (h : Fits self.original context scope)
    (hscope : (context.scope == .AssistantBlock) = true)
    (hcase : (activeOrdinal context .AssistantBlock == some 2) = true)
    (htransform : (transform == .Identity) = true) (part : BlockDebt)
    (text : ToolCallBlock → String) : Sound (toolCallText transform scope part text) := by
  obtain ⟨index, position, call, rfl⟩ := h.toolCall hscope hcase
  exact sound_found rfl (sound_found (requireTransform_ok htransform) (sound_settled trivial))

theorem argumentsValue_sound
    (h : (transform == .JsonSubtree || transform == .CanonicalJsonString) = true)
    (document : MCode.Validation.WireJsonDocument) :
    Ends Fault.Excused (fun _ => True) (argumentsValue transform document) := by
  simp only [Bool.or_eq_true, beq_iff_eq] at h
  rcases h with rfl | rfl
  · exact (fromWire_ends document).mono (fun _ hfault => hfault.excused) fun _ _ => trivial
  · exact ((canonicalWireText_ends document).mono (fun _ hfault => hfault.excused)
      fun _ htext => htext).bind fun _ _ => trivial

/-- The tool of a scope; that it is not there is reported of the request. -/
theorem toolOf_ofRequest (h : Fits self.original context scope)
    (hscope : (context.scope == .Tool) = true) : OfRequest (toolOf self scope) := by
  have hlexical := h.lexical
  rw [beq_iff_eq.1 hscope] at hlexical
  cases scope with
  | Tool index =>
      unfold toolOf
      dsimp only
      split
      · exact ofRequest_error nofun
      · exact ofRequest_ok _
  | _ => cases hlexical

theorem sound_toolText (h : Fits self.original context scope)
    (hscope : (context.scope == .Tool) = true) (htransform : (transform == .Identity) = true)
    (part : ToolDebt) (text : ToolDefinition → String) :
    Sound (toolText self transform scope part text) := by
  refine sound_then (toolOf_ofRequest h hscope) fun tool _ => ?_
  exact sound_found (requireTransform_ok htransform) (sound_settled trivial)

theorem sound_imageNumber (h : Fits self.original context scope)
    (himage : isImageBlock context = true) (htransform : (transform == .CheckedU32) = true)
    (part : BlockDebt) (number : ImageMetadata → Nat) :
    Sound (imageNumber transform scope part number) := by
  obtain ⟨index, position, image, hfound⟩ := h.image himage
  exact sound_found hfound
    (sound_found (requireTransform_ok htransform) (sound_settledOptional trivial))

end

theorem sound_rootKind {self : Evaluator} (hstructured : Structured self.contract)
    {transform : AdapterTransform} {scope : Scope} (hroot : isRoot scope = true)
    (part : RequestDebt) {source : AdapterEnumSource} {ordinal : Nat}
    (htable : TableFor self.contract transform source) (hordinal : ordinal < source.variantCount) :
    Sound (rootKind self transform scope part source ordinal) := by
  cases scope with
  | Root => exact sound_found rfl (sound_settledOptional (enumToken_sound hstructured htable hordinal))
  | _ => cases hroot

theorem sound_blockKind {self : Evaluator} (hstructured : Structured self.contract)
    {context : Context} {scope : Scope} {transform : AdapterTransform}
    (h : Fits self.original context scope)
    (hallowed : blockKindAllowed self.contract transform context = true) :
    Sound (blockKind self transform scope) := by
  unfold blockKindAllowed at hallowed
  split at hallowed
  · rename_i variant source index hsources
    rw [Bool.and_eq_true] at hallowed
    obtain ⟨table, hfound, hsource⟩ := (Option.any_eq_true _ _).1 hallowed.2
    have htable : TableFor self.contract (.EnumToken index) source :=
      ⟨index, table, rfl, hfound, beq_iff_eq.1 hsource⟩
    have hlexical := h.lexical
    cases hscope : context.scope with
    | UserBlock =>
        rw [hscope] at hsources hlexical
        cases hsources
        cases scope with
        | UserBlock index position block =>
            exact sound_found rfl
              (sound_settledOptional (enumToken_sound hstructured htable (userBlockOrdinal_lt _)))
        | _ => cases hlexical
    | AssistantBlock =>
        rw [hscope] at hsources hlexical
        cases hsources
        cases scope with
        | AssistantBlock index position block =>
            exact sound_found rfl (sound_settledOptional
              (enumToken_sound hstructured htable (assistantBlockOrdinal_lt _)))
        | _ => cases hlexical
    | ToolResultBlock =>
        rw [hscope] at hsources hlexical
        cases hsources
        cases scope with
        | ToolResultBlock index position block =>
            exact sound_found rfl (sound_settledOptional
              (enumToken_sound hstructured htable (toolResultBlockOrdinal_lt _)))
        | _ => cases hlexical
    | _ =>
        rw [hscope] at hsources
        cases hsources
  · cases hallowed

theorem requireRoot_ok {scope : Scope} (h : isRoot scope = true) : requireRoot scope = .ok () := by
  cases scope with
  | Root => rfl
  | _ => cases h

theorem present_some {α : Type} {value : Option α} {found : α} (h : value = some found) :
    present value = .ok found := by
  rw [h]
  rfl

theorem enabledOf_ok {reasoning : Reasoning} {enabled : EnabledReasoning}
    (h : reasoning = .Enabled enabled) : enabledOf reasoning = .ok enabled := by
  rw [h]
  rfl

theorem toolChoiceNameOf_ok {toolChoice : ToolChoice} {choice : SpecificToolChoice}
    (h : toolChoice = .Specific choice) : toolChoiceNameOf toolChoice = .ok choice.name := by
  rw [h]
  rfl

theorem checkedU64_sound {transform : AdapterTransform} (h : (transform == .CheckedU64) = true)
    (value : Nat) :
    Ends Fault.Excused (fun _ => True) (returned (checkedU64 transform value)) := by
  unfold checkedU64
  rw [requireTransform_ok h]
  trivial

theorem ofRequest_map {α β : Type} {result : AdapterValidationResult α} {f : α → β}
    (h : OfRequest result) : OfRequest (result.map f) := by
  cases result with
  | error error =>
      rintro other ⟨⟩
      exact h error rfl
  | ok value => exact ofRequest_ok _

theorem subtree_or_text {transform : AdapterTransform} {supported : Bool}
    (h : (transform == .JsonSubtree || (transform == .CanonicalJsonString && supported)) = true) :
    (transform == .JsonSubtree || transform == .CanonicalJsonString) = true := by
  simp only [Bool.or_eq_true, Bool.and_eq_true] at h ⊢
  exact h.imp id And.left

/-- The wires of a status that is a boolean. -/
theorem sound_isError {self : Evaluator} {transform : AdapterTransform} {index : Nat}
    {result : ToolResultMessage}
    (hwire : (self.contract.wireId == .AnthropicMessages
      || self.contract.wireId == .PiMessages) = true)
    (htransform : (transform == .Identity) = true) :
    Sound (if statusProjection self.contract.wireId != .Boolean || transform != .Identity then
        refuse .InvalidContract
      else settled (.message index .status) (.ok (.Boolean result.isError))) := by
  have hstatus : statusProjection self.contract.wireId = .Boolean := by
    simp only [Bool.or_eq_true, beq_iff_eq] at hwire
    rcases hwire with hwire | hwire <;> rw [hwire] <;> rfl
  rw [if_neg (by simp [hstatus, beq_iff_eq.1 htransform])]
  exact sound_settled trivial

/-- The wires that name the tool of a result. -/
theorem sound_resultName {self : Evaluator} {transform : AdapterTransform} {index : Nat}
    {result : ToolResultMessage}
    (hwire : (self.contract.wireId == .PiMessages || self.contract.wireId == .GoogleGenerativeAi
      || self.contract.wireId == .GoogleVertex
      || self.contract.wireId == .MistralConversations) = true)
    (htransform : (transform == .Identity) = true) :
    Sound (if !requiresResultName self.contract.wireId then refuse .InvalidContract
      else settled (.message index .resultName)
        (returned (matchedName self transform result.callId))) := by
  have hname : requiresResultName self.contract.wireId = true := by
    simp only [Bool.or_eq_true, beq_iff_eq] at hwire
    rcases hwire with ((hwire | hwire) | hwire) | hwire <;> rw [hwire] <;> rfl
  rw [if_neg (by simp [hname])]
  refine sound_settled (sound_lift ?_)
  refine (matchedResult_ofRequest self result.callId).bind fun found => ?_
  rw [identityString_ok htransform]
  exact ofRequest_ok _

/-- A scalar that the walk accepts is there, unless it is a kind away from the root. -/
theorem sound_scalar {self : Evaluator} (hstructured : Structured self.contract)
    {source : AdapterScalarSource} {transform : AdapterTransform} {context : Context}
    {scope : Scope} (hlegal : legalTransform self.contract source transform = true)
    (hallowed : scalarAllowed self.contract source transform context = true)
    (h : Fits self.original context scope)
    (hplaced : (!isRequestKind source || isRoot scope) = true) :
    Sound (scalar self source transform scope) := by
  cases source with
  | SelectedModel =>
      obtain rfl := h.root hallowed
      exact sound_found rfl (sound_settled (identityString_sound hlegal _))
  | SelectionKind =>
      exact sound_rootKind hstructured hplaced _ (tableFor_of_legal rfl hlegal)
        (selectionOrdinal_lt _)
  | SystemItem => exact sound_systemItem h hallowed hlegal
  | SystemJoined =>
      obtain rfl := h.root hallowed
      exact sound_systemJoined hlegal
  | MessageRole =>
      simp only [scalarAllowed, Bool.and_eq_true] at hallowed
      obtain ⟨index, message, hfound, -⟩ := h.message hallowed.1
      exact sound_found hfound (sound_settledOptional
        (enumToken_sound hstructured (tableFor_of_legal rfl hlegal) (messageOrdinal_lt _)))
  | BlockKind => exact sound_blockKind hstructured h hallowed
  | BlockText =>
      obtain ⟨index, position, text, hfound⟩ := h.text hallowed
      exact sound_found hfound (sound_found (requireTransform_ok hlegal) (sound_settled trivial))
  | ToolResultCallId =>
      obtain ⟨index, result, hfound⟩ := h.toolResult hallowed
      exact sound_found hfound (sound_settled (identityString_sound hlegal _))
  | ToolResultIsError =>
      rw [scalarAllowed, Bool.and_eq_true] at hallowed
      obtain ⟨index, result, hfound⟩ := h.toolResult hallowed.2
      exact sound_found hfound (sound_isError hallowed.1 hlegal)
  | ToolResultStatus =>
      rw [scalarAllowed, Bool.and_eq_true, Bool.and_eq_true] at hallowed
      obtain ⟨index, result, hfound⟩ := h.toolResult hallowed.1.2
      refine sound_found hfound ?_
      rw [beq_iff_eq.1 hallowed.1.1]
      exact sound_settled (statusToken_sound hstructured hallowed.2 _)
  | ToolResultName =>
      rw [scalarAllowed, Bool.and_eq_true] at hallowed
      obtain ⟨index, result, hfound⟩ := h.toolResult hallowed.2
      exact sound_found hfound (sound_resultName hallowed.1 hlegal)
  | MistralToolResultContent =>
      rw [scalarAllowed, Bool.and_eq_true] at hallowed
      rw [legalTransform, Bool.and_eq_true] at hlegal
      exact sound_mistralContent h hallowed.2 hlegal.1
  | ToolCallId =>
      rw [scalarAllowed, Bool.and_eq_true] at hallowed
      exact sound_toolCallText h hallowed.1 hallowed.2 hlegal _ _
  | ToolCallName =>
      rw [scalarAllowed, Bool.and_eq_true] at hallowed
      exact sound_toolCallText h hallowed.1 hallowed.2 hlegal _ _
  | ToolCallArguments =>
      rw [scalarAllowed, Bool.and_eq_true] at hallowed
      obtain ⟨index, position, call, rfl⟩ := h.toolCall hallowed.1 hallowed.2
      exact sound_found rfl (sound_settled (argumentsValue_sound (subtree_or_text hlegal) _))
  | ToolName => exact sound_toolText h hallowed hlegal _ _
  | ToolDescription => exact sound_toolText h hallowed hlegal _ _
  | ToolSchema =>
      refine sound_then (toolOf_ofRequest h hallowed) fun tool _ => ?_
      refine sound_found (requireTransform_ok hlegal) (sound_settled ?_)
      exact (fromWire_ends _).mono (fun _ hfault => hfault.excused) fun _ _ => trivial
  | ReasoningKind =>
      rw [scalarAllowed, Bool.and_eq_true] at hallowed
      obtain ⟨index, position, reasoning, rfl⟩ := h.reasoningBlock hallowed.1 hallowed.2
      exact sound_found rfl (sound_settled
        (enumToken_sound hstructured (tableFor_of_legal rfl hlegal) (reasoningKindOrdinal_lt _)))
  | Proof =>
      rw [scalarAllowed, Bool.and_eq_true, Bool.and_eq_true] at hallowed
      obtain ⟨index, position, reasoning, rfl⟩ := h.reasoningBlock hallowed.1.1 hallowed.1.2
      obtain ⟨proof, hproof⟩ := Option.isSome_iff_exists.1 (h.wrappers _ hallowed.2)
      refine sound_found rfl (sound_found (present_some hproof) (sound_settled ?_))
      exact sound_lift (encodeBytes_ofRequest hlegal _)
  | ImageBytes =>
      obtain ⟨index, position, image, hfound⟩ := h.image hallowed
      exact sound_found hfound (sound_settled (sound_lift (encodeBytes_ofRequest hlegal _)))
  | ImageMediaType =>
      obtain ⟨index, position, image, hfound⟩ := h.image hallowed
      exact sound_found hfound (sound_settled
        (enumToken_sound hstructured (tableFor_of_legal rfl hlegal) (mediaOrdinal_lt _)))
  | ImageWidth => exact sound_imageNumber h hallowed hlegal _ _
  | ImageHeight => exact sound_imageNumber h hallowed hlegal _ _
  | ImageFrames => exact sound_imageNumber h hallowed hlegal _ _
  | ImageDataUri =>
      obtain ⟨index, position, image, hfound⟩ := h.image hallowed
      refine sound_found hfound (sound_found (requireTransform_ok hlegal) ?_)
      refine (sound_consume _).bind fun _ _ => sound_settled (sound_lift ?_)
      exact ofRequest_map (dataUri_ofRequest image)
  | ToolChoiceKind =>
      exact sound_rootKind hstructured hplaced _ (tableFor_of_legal rfl hlegal)
        (toolChoiceOrdinal_lt _)
  | ToolChoiceName =>
      rw [scalarAllowed, Bool.and_eq_true] at hallowed
      obtain ⟨choice, hchoice⟩ := h.specific hallowed.1
      refine sound_found (requireRoot_ok hplaced) (sound_found (requireTransform_ok hlegal) ?_)
      exact sound_found (toolChoiceNameOf_ok hchoice) (sound_settled trivial)
  | ReasoningMode =>
      exact sound_rootKind hstructured hplaced _ (tableFor_of_legal rfl hlegal)
        (reasoningOrdinal_lt _)
  | ReasoningEffort =>
      rw [scalarAllowed, Bool.and_eq_true, Bool.and_eq_true] at hallowed
      obtain rfl := h.root hallowed.1.1
      obtain ⟨enabled, henabled, heffort⟩ := h.wrappers _ hallowed.2
      obtain ⟨effort, heffort⟩ := Option.isSome_iff_exists.1 heffort
      refine sound_found rfl (sound_found (enabledOf_ok henabled) ?_)
      exact sound_found (present_some heffort) (sound_settled
        (enumToken_sound hstructured (tableFor_of_legal rfl hlegal) (effortOrdinal_lt _)))
  | ReasoningBudget =>
      rw [scalarAllowed, Bool.and_eq_true, Bool.and_eq_true] at hallowed
      obtain rfl := h.root hallowed.1.1
      obtain ⟨enabled, henabled, hbudget⟩ := h.wrappers _ hallowed.2
      obtain ⟨budget, hbudget⟩ := Option.isSome_iff_exists.1 hbudget
      refine sound_found rfl (sound_found (enabledOf_ok henabled) ?_)
      exact sound_found (present_some hbudget)
        (sound_found (requireTransform_ok hlegal) (sound_settled trivial))
  | CacheRetention =>
      exact sound_rootKind hstructured hplaced _ (tableFor_of_legal rfl hlegal) (cacheOrdinal_lt _)
  | MaxOutput =>
      rw [scalarAllowed, Bool.and_eq_true] at hallowed
      obtain rfl := h.root hallowed.1
      obtain ⟨maximum, hmaximum⟩ := Option.isSome_iff_exists.1 (h.wrappers _ hallowed.2)
      refine sound_found rfl (sound_found (present_some hmaximum) (sound_settled ?_))
      exact checkedU64_sound hlegal maximum

/-! ## Wrappers -/

/-- A wrapper that the walk accepts is one around a source that is there to look at. -/
theorem absence_fits {original : PrepareInput} {context : Context} {scope : Scope}
    (h : Fits original context scope) {presence : AdapterPresence}
    {source : Option AdapterPresenceSource} (hallowed : wrapperAllowed presence source context = true) :
    (presence = .Required ∧ absence original presence source scope = .ok none) ∨
      ∃ wrapper absent debt, presence ≠ .Required ∧ source = some wrapper ∧
        absence original presence source scope = .ok (some (absent, debt)) ∧
        (absent = false → WrapperFits original wrapper scope) := by
  unfold wrapperAllowed at hallowed
  split at hallowed
  · exact .inl ⟨rfl, rfl⟩
  · rw [Bool.and_eq_true] at hallowed
    obtain ⟨index, position, reasoning, rfl⟩ := h.reasoningBlock hallowed.1 hallowed.2
    refine .inr ⟨_, _, _, nofun, rfl, rfl, fun habsent => ?_⟩
    simpa [WrapperFits] using habsent
  · rw [Bool.and_eq_true] at hallowed
    obtain rfl := h.root hallowed.1
    obtain ⟨enabled, henabled⟩ := h.enabled hallowed.2
    refine .inr ⟨_, enabled.effort.isNone, .request .reasoningEffort, nofun, rfl, ?_, fun habsent =>
      ⟨enabled, henabled, ?_⟩⟩
    · simp [absence, optionPresence, henabled, Except.map]
    · simpa using habsent
  · rw [Bool.and_eq_true] at hallowed
    obtain rfl := h.root hallowed.1
    obtain ⟨enabled, henabled⟩ := h.enabled hallowed.2
    refine .inr ⟨_, enabled.budgetTokens.isNone, .request .reasoningBudget, nofun, rfl, ?_,
      fun habsent => ⟨enabled, henabled, ?_⟩⟩
    · simp [absence, optionPresence, henabled, Except.map]
    · simpa using habsent
  · refine .inr ⟨_, _, _, nofun, rfl, rfl, fun habsent => ?_⟩
    simpa [WrapperFits] using habsent
  · obtain rfl := h.root hallowed
    exact .inr ⟨_, _, _, nofun, rfl, rfl, fun _ => trivial⟩
  · obtain rfl := h.root hallowed
    exact .inr ⟨_, _, _, nofun, rfl, rfl, fun _ => trivial⟩
  · obtain rfl := h.root hallowed
    exact .inr ⟨_, _, _, nofun, rfl, rfl, fun _ => trivial⟩
  · cases hallowed

theorem Fits.wrapped {original : PrepareInput} {context inner : Context} {scope : Scope}
    (h : Fits original context scope) {node : ContractNode}
    (hallowed : wrapperAllowed node.presence node.presenceSource context = true)
    (hinner : wrappedContext node.presence node.presenceSource context = .ok inner)
    (homitted : isOmitted original node scope = false) : Fits original inner scope := by
  unfold wrappedContext at hinner
  unfold isOmitted at homitted
  rcases absence_fits h hallowed with ⟨hrequired, -⟩ |
    ⟨wrapper, absent, debt, hpresence, hsource, habsence, hfits⟩
  · rw [hrequired] at hinner
    cases hinner
    exact h
  · rw [habsence] at homitted
    rw [if_neg (by simpa using hpresence), hsource] at hinner
    cases hinner
    refine ⟨h.lexical, h.cases, fun other hother => ?_⟩
    simp only [hasWrapper, List.contains_cons, Bool.or_eq_true, beq_iff_eq] at hother
    rcases hother with rfl | hother
    · exact hfits homitted
    · exact h.wrappers other hother

theorem sound_omitNode {original : PrepareInput} {context : Context} {scope : Scope}
    (h : Fits original context scope) {node : ContractNode}
    (hallowed : wrapperAllowed node.presence node.presenceSource context = true) :
    Outcome Fault.Excused (fun absent => absent = isOmitted original node scope)
      (omitNode original node scope) := by
  unfold omitNode isOmitted
  rcases absence_fits h hallowed with ⟨-, habsence⟩ | ⟨wrapper, absent, debt, -, -, habsence, -⟩
  · rw [habsence]
    exact Outcome.pure rfl
  · rw [habsence]
    cases absent with
    | false => exact Outcome.pure rfl
    | true =>
        change Outcome Fault.Excused (fun absent => absent = true) (do consume debt; return true)
        exact (sound_consume debt).bind fun _ _ => Outcome.pure rfl

/-! ## Collections -/

theorem CaseFits.of_root {original : PrepareInput} {source : AdapterVariantSource} {ordinal : Nat}
    (h : CaseFits original source ordinal .Root) (scope : Scope) :
    CaseFits original source ordinal scope := by
  cases source <;> cases scope <;> first | exact h | cases h

theorem WrapperFits.of_root {original : PrepareInput} {source : AdapterPresenceSource}
    (h : WrapperFits original source .Root) (scope : Scope) :
    WrapperFits original source scope := by
  cases source <;> first | exact h | cases h

/-- The scopes of blocks. -/
def IsBlock : Scope → Prop
  | .UserBlock _ _ _ => True
  | .AssistantBlock _ _ _ => True
  | .ToolResultBlock _ _ _ => True
  | _ => False

theorem CaseFits.of_message {original : PrepareInput} {source : AdapterVariantSource}
    {ordinal : Nat} {scope item : Scope} {found : Nat × Message}
    (h : CaseFits original source ordinal scope) (hscope : scopeMessage scope = .ok found)
    (hitem : IsBlock item) : CaseFits original source ordinal item := by
  cases scope <;> try cases hscope
  all_goals cases item <;> try cases hitem
  all_goals cases source <;> trivial

theorem WrapperFits.of_message {original : PrepareInput} {source : AdapterPresenceSource}
    {scope item : Scope} {found : Nat × Message} (h : WrapperFits original source scope)
    (hscope : scopeMessage scope = .ok found) : WrapperFits original source item := by
  cases scope <;> try cases hscope
  all_goals cases source <;> first | exact h | cases h

/-- The blocks of a message are in the scope that its case names. -/
theorem blockScopes_fit {index : Nat} {message : Message} {lexical : LexicalScope}
    (h : (match messageOrdinal message with
      | 0 => LexicalScope.UserBlock
      | 1 => .AssistantBlock
      | _ => .ToolResultBlock) = lexical) :
    ∀ item ∈ blockScopes index message, ScopeFits lexical item ∧ IsBlock item := by
  subst h
  intro item hitem
  cases message with
  | User message =>
      obtain ⟨entry, -, rfl⟩ := List.mem_map.1 hitem
      exact ⟨trivial, trivial⟩
  | Assistant message =>
      obtain ⟨entry, -, rfl⟩ := List.mem_map.1 hitem
      exact ⟨trivial, trivial⟩
  | ToolResult message =>
      obtain ⟨entry, -, rfl⟩ := List.mem_map.1 hitem
      exact ⟨trivial, trivial⟩

theorem Fits.from_root {original : PrepareInput} {context : Context} {lexical : LexicalScope}
    {item : Scope} (h : Fits original context .Root) (hitem : ScopeFits lexical item) :
    Fits original { context with scope := lexical } item :=
  ⟨hitem, fun source ordinal hcase => (h.cases source ordinal hcase).of_root item,
    fun source hwrapper => (h.wrappers source hwrapper).of_root item⟩

theorem Fits.to_block {original : PrepareInput} {context : Context} {lexical : LexicalScope}
    {scope item : Scope} {found : Nat × Message} (h : Fits original context scope)
    (hscope : scopeMessage scope = .ok found) (hitem : ScopeFits lexical item ∧ IsBlock item) :
    Fits original { context with scope := lexical } item :=
  ⟨hitem.1, fun source ordinal hcase => (h.cases source ordinal hcase).of_message hscope hitem.2,
    fun source hwrapper => (h.wrappers source hwrapper).of_message hscope⟩

theorem rootScope_ok {context : Context} {lexical scope : LexicalScope}
    (h : (if context.scope == .Root then .ok scope else
      .error AdapterValidationError.InvalidContract) = Except.ok lexical) :
    (context.scope == .Root) = true ∧ lexical = scope := by
  split at h
  · rename_i hroot
    cases h
    exact ⟨hroot, rfl⟩
  · cases h

/-- The scope of blocks is that of the case around them. -/
theorem blockScope_ok {context : Context} {lexical : LexicalScope}
    (h : collectionItemScope .Blocks context = .ok lexical) :
    isMessageScope context.scope = true ∧
      ∃ ordinal, activeOrdinal context .Message = some ordinal ∧
        (match ordinal with
          | 0 => LexicalScope.UserBlock
          | 1 => .AssistantBlock
          | _ => .ToolResultBlock) = lexical := by
  unfold collectionItemScope at h
  dsimp only at h
  split at h
  · cases h
  · rename_i hmessage
    refine ⟨by simpa using hmessage, ?_⟩
    split at h
    · rename_i hcase
      cases h
      exact ⟨0, hcase, rfl⟩
    · rename_i hcase
      cases h
      exact ⟨1, hcase, rfl⟩
    · rename_i hcase
      cases h
      exact ⟨2, hcase, rfl⟩
    · cases h

/-- The items of a collection fit the scope that the walk gives them. -/
theorem itemScopes_fit {original : PrepareInput} {context : Context} {scope : Scope}
    (h : Fits original context scope) {collection : AdapterCollection} {lexical : LexicalScope}
    (hlexical : collectionItemScope collection context = .ok lexical) :
    ∀ item ∈ itemScopes original collection scope,
      Fits original { context with scope := lexical } item := by
  intro item hitem
  cases collection with
  | System =>
      obtain ⟨hroot, rfl⟩ := rootScope_ok hlexical
      obtain rfl := h.root hroot
      obtain ⟨entry, -, rfl⟩ := List.mem_map.1 hitem
      exact h.from_root trivial
  | Messages =>
      obtain ⟨hroot, rfl⟩ := rootScope_ok hlexical
      obtain rfl := h.root hroot
      obtain ⟨entry, -, rfl⟩ := List.mem_map.1 hitem
      exact h.from_root trivial
  | Tools =>
      obtain ⟨hroot, rfl⟩ := rootScope_ok hlexical
      obtain rfl := h.root hroot
      obtain ⟨entry, -, rfl⟩ := List.mem_map.1 hitem
      exact h.from_root trivial
  | SystemMessages =>
      obtain ⟨hroot, rfl⟩ := rootScope_ok hlexical
      obtain rfl := h.root hroot
      rcases List.mem_append.1 hitem with hitem | hitem
      · obtain ⟨entry, -, rfl⟩ := List.mem_map.1 hitem
        exact h.from_root trivial
      · obtain ⟨entry, -, rfl⟩ := List.mem_map.1 hitem
        exact h.from_root trivial
  | Blocks =>
      obtain ⟨hmessage, ordinal, hcase, hordinal⟩ := blockScope_ok hlexical
      obtain ⟨index, message, hfound, hvariant⟩ := h.message hmessage
      have hfits := h.cases _ _ hcase
      cases scope with
      | Message index message =>
          cases Option.some.inj hfits
          exact h.to_block hfound (blockScopes_fit hordinal item hitem)
      | MessageEntry index message =>
          cases Option.some.inj hfits
          exact h.to_block hfound (blockScopes_fit hordinal item hitem)
      | _ => cases hfound

theorem itemScope_ne_root {collection : AdapterCollection} {context : Context}
    {lexical : LexicalScope} (h : collectionItemScope collection context = .ok lexical) :
    lexical ≠ .Root := by
  rintro rfl
  cases collection with
  | Blocks =>
      obtain ⟨-, ordinal, -, hordinal⟩ := blockScope_ok h
      split at hordinal <;> cases hordinal
  | System => cases (rootScope_ok h).2
  | Messages => cases (rootScope_ok h).2
  | Tools => cases (rootScope_ok h).2
  | SystemMessages => cases (rootScope_ok h).2

/-- Where a collection stands, there is no block of the assistant around it. -/
theorem collection_not_in_block {original : PrepareInput} {context : Context} {scope : Scope}
    (h : Fits original context scope) {collection : AdapterCollection} {lexical : LexicalScope}
    (hlexical : collectionItemScope collection context = .ok lexical) (ordinal : Nat) :
    activeOrdinal context .AssistantBlock ≠ some ordinal := by
  intro hcase
  have hfits := h.cases _ _ hcase
  have hroot (hroot : (context.scope == .Root) = true) : False := by
    obtain rfl := h.root hroot
    cases hfits
  cases collection with
  | Blocks =>
      obtain ⟨index, message, hfound, -⟩ := h.message (blockScope_ok hlexical).1
      cases scope with
      | Message index message => cases hfits
      | MessageEntry index message => cases hfits
      | _ => cases hfound
  | System => exact hroot (rootScope_ok hlexical).1
  | Messages => exact hroot (rootScope_ok hlexical).1
  | Tools => exact hroot (rootScope_ok hlexical).1
  | SystemMessages => exact hroot (rootScope_ok hlexical).1

/-- An item of a collection cannot be omitted: no wrapper stands where its source is. -/
theorem item_required {original : PrepareInput} {context : Context} {scope : Scope}
    (h : Fits original context scope) {collection : AdapterCollection} {lexical : LexicalScope}
    (hlexical : collectionItemScope collection context = .ok lexical)
    {presence : AdapterPresence} {source : Option AdapterPresenceSource}
    (hallowed : wrapperAllowed presence source { context with scope := lexical } = true) :
    presence = .Required ∧ source = none := by
  have hroot : (lexical == .Root) = false := by simpa using itemScope_ne_root hlexical
  have hcase : (activeOrdinal context .AssistantBlock == some 1) = false := by
    simpa using collection_not_in_block h hlexical 1
  have hsame : activeOrdinal { context with scope := lexical } .AssistantBlock =
      activeOrdinal context .AssistantBlock := rfl
  unfold wrapperAllowed at hallowed
  split at hallowed
  · exact ⟨rfl, rfl⟩
  · rw [hsame, hcase, Bool.and_false] at hallowed
    cases hallowed
  all_goals simp [hroot] at hallowed

/-- A collection that the walk accepts is found. -/
theorem sound_collectionScopes {self : Evaluator} {context : Context} {scope : Scope}
    (h : Fits self.original context scope) {collection : AdapterCollection}
    {lexical : LexicalScope} (hlexical : collectionItemScope collection context = .ok lexical)
    (hwire : collection = .SystemMessages → (self.contract.wireId == .OpenAiCompletions
      || self.contract.wireId == .MistralConversations) = true) :
    Outcome Fault.Excused (fun scopes => scopes = itemScopes self.original collection scope)
      (collectionScopes self collection scope) := by
  have htaken (debt : Debt) (scopes : List Scope) :
      Outcome Fault.Excused (fun found => found = scopes) (do consume debt; return scopes) :=
    (sound_consume debt).bind fun _ _ => Outcome.pure rfl
  cases collection with
  | System =>
      obtain rfl := h.root (rootScope_ok hlexical).1
      exact htaken _ _
  | Messages =>
      obtain rfl := h.root (rootScope_ok hlexical).1
      exact htaken _ _
  | Tools =>
      obtain rfl := h.root (rootScope_ok hlexical).1
      exact htaken _ _
  | Blocks =>
      obtain ⟨index, message, hfound, -⟩ := h.message (blockScope_ok hlexical).1
      cases scope with
      | Message index message => exact htaken _ _
      | MessageEntry index message => exact htaken _ _
      | _ => cases hfound
  | SystemMessages =>
      obtain rfl := h.root (rootScope_ok hlexical).1
      change Outcome _ _ (systemMessageScopes self)
      unfold systemMessageScopes
      rw [if_pos (hwire rfl)]
      refine (sound_consume _).bind fun _ _ => (sound_consume _).bind fun _ _ => ?_
      split
      · exact fun _ => Fault.refused_excused nofun
      · exact Outcome.pure rfl

/-! ## Switches -/

theorem sound_statusVariant {self : Evaluator} {index : Nat} {result : ToolResultMessage}
    (hwire : (self.contract.wireId == .GoogleGenerativeAi
      || self.contract.wireId == .GoogleVertex) = true) :
    Outcome Fault.Excused (fun ordinal => statusOrdinal result.isError = ordinal)
      (statusVariant self index result) := by
  have hstatus : statusProjection self.contract.wireId = .Switch := by
    simp only [Bool.or_eq_true, beq_iff_eq] at hwire
    rcases hwire with hwire | hwire <;> rw [hwire] <;> rfl
  unfold statusVariant
  rw [if_neg (by simp [hstatus])]
  exact (sound_consume _).bind fun _ _ => Outcome.pure rfl

/-- The variant of a switch that the walk accepts is found. -/
theorem sound_variantOrdinal {self : Evaluator} {context : Context} {scope : Scope}
    (h : Fits self.original context scope) {source : AdapterVariantSource}
    (hallowed : switchAllowed self.contract.wireId source context = true) :
    Outcome Fault.Excused (fun ordinal => variantOf self.original source scope = some ordinal)
      (variantOrdinal self source scope) := by
  have htaken (debt : Debt) {variant : Option Nat} {ordinal : Nat} (hvariant : variant = some ordinal) :
      Outcome Fault.Excused (fun found => variant = some found)
        (do consume debt; return ordinal) :=
    (sound_consume debt).bind fun _ _ => Outcome.pure hvariant
  have hlexical := h.lexical
  cases source with
  | ModelSelection =>
      obtain rfl := h.root hallowed
      exact htaken _ rfl
  | ToolChoice =>
      rw [switchAllowed, Bool.and_eq_true] at hallowed
      obtain rfl := h.root hallowed.1
      exact htaken _ rfl
  | Reasoning =>
      rw [switchAllowed, Bool.and_eq_true] at hallowed
      obtain rfl := h.root hallowed.1
      exact htaken _ rfl
  | CacheRetention =>
      rw [switchAllowed, Bool.and_eq_true] at hallowed
      obtain rfl := h.root hallowed.1
      exact htaken _ rfl
  | SystemMessageEntry =>
      rw [beq_iff_eq.1 hallowed] at hlexical
      cases scope with
      | SystemEntry index text => exact Outcome.pure rfl
      | MessageEntry index message => exact Outcome.pure rfl
      | _ => cases hlexical
  | Message =>
      obtain ⟨index, message, hfound, -⟩ := h.message hallowed
      cases scope with
      | Message index message => exact htaken _ rfl
      | MessageEntry index message => exact htaken _ rfl
      | _ => cases hfound
  | UserBlock =>
      rw [beq_iff_eq.1 hallowed] at hlexical
      cases scope with
      | UserBlock index position block => exact htaken _ rfl
      | _ => cases hlexical
  | AssistantBlock =>
      rw [beq_iff_eq.1 hallowed] at hlexical
      cases scope with
      | AssistantBlock index position block => exact htaken _ rfl
      | _ => cases hlexical
  | ToolResultBlock =>
      rw [beq_iff_eq.1 hallowed] at hlexical
      cases scope with
      | ToolResultBlock index position block => exact htaken _ rfl
      | _ => cases hlexical
  | ToolResultStatus =>
      rw [switchAllowed, Bool.and_eq_true] at hallowed
      obtain ⟨index, result, hfound⟩ := h.toolResult hallowed.2
      have hfinds (place : Nat) (found : ToolResultMessage) :=
        (@sound_statusVariant self place found hallowed.1).mono (fun _ hfault => hfault)
          fun _ hordinal => congrArg some hordinal
      cases scope with
      | Message place message =>
          cases message with
          | ToolResult found => exact hfinds place found
          | User message => cases hfound
          | Assistant message => cases hfound
      | MessageEntry place message =>
          cases message with
          | ToolResult found => exact hfinds place found
          | User message => cases hfound
          | Assistant message => cases hfound
      | _ => cases hfound

theorem variantOf_lt {original : PrepareInput} {source : AdapterVariantSource} {ordinal : Nat}
    {scope : Scope} (h : variantOf original source scope = some ordinal) :
    ordinal < source.variantCount := by
  unfold variantOf at h
  split at h
  · exact Option.some.inj h ▸ selectionOrdinal_lt _
  · exact Option.some.inj h ▸ Nat.zero_lt_two
  · exact Option.some.inj h ▸ Nat.one_lt_two
  · exact Option.some.inj h ▸ messageOrdinal_lt _
  · exact Option.some.inj h ▸ messageOrdinal_lt _
  · exact Option.some.inj h ▸ userBlockOrdinal_lt _
  · exact Option.some.inj h ▸ assistantBlockOrdinal_lt _
  · exact Option.some.inj h ▸ toolResultBlockOrdinal_lt _
  · exact Option.some.inj h ▸ statusOrdinal_lt _
  · exact Option.some.inj h ▸ statusOrdinal_lt _
  · exact Option.some.inj h ▸ toolChoiceOrdinal_lt _
  · exact Option.some.inj h ▸ reasoningOrdinal_lt _
  · exact Option.some.inj h ▸ cacheOrdinal_lt _
  · cases h

theorem caseFits_of_variant {original : PrepareInput} {source : AdapterVariantSource}
    {ordinal : Nat} {scope : Scope} (h : variantOf original source scope = some ordinal) :
    CaseFits original source ordinal scope := by
  cases source with
  | ToolChoice =>
      cases scope with
      | Root => exact Option.some.inj h
      | _ => cases h
  | Reasoning =>
      cases scope with
      | Root => exact Option.some.inj h
      | _ => cases h
  | Message => cases scope <;> first | exact h | trivial
  | UserBlock => exact h
  | AssistantBlock => exact h
  | ToolResultBlock => exact h
  | ModelSelection => cases scope <;> trivial
  | SystemMessageEntry => cases scope <;> trivial
  | ToolResultStatus => cases scope <;> trivial
  | CacheRetention => cases scope <;> trivial

theorem caseScope_fits {original : PrepareInput} {lexical : LexicalScope} {scope : Scope}
    (h : ScopeFits lexical scope) {source : AdapterVariantSource} {ordinal : Nat}
    (hvariant : variantOf original source scope = some ordinal) :
    ScopeFits (caseScope source ordinal lexical) scope := by
  unfold caseScope
  by_cases hentry : (source == .SystemMessageEntry) = true
  · rw [if_pos hentry]
    rw [beq_iff_eq.1 hentry] at hvariant
    cases scope with
    | SystemEntry index text =>
        cases hvariant
        trivial
    | MessageEntry index message =>
        cases hvariant
        trivial
    | _ => cases hvariant
  · rw [if_neg hentry]
    exact h

/-- The case that a request selects fits. -/
theorem Fits.case {original : PrepareInput} {context : Context} {scope : Scope}
    (h : Fits original context scope) {source : AdapterVariantSource} {ordinal : Nat}
    (hvariant : variantOf original source scope = some ordinal) :
    Fits original (caseContext source ordinal context) scope := by
  refine ⟨caseScope_fits h.lexical hvariant, fun other found hcase => ?_, h.wrappers⟩
  unfold activeOrdinal caseContext at hcase
  rw [List.find?_cons] at hcase
  split at hcase
  · rename_i hsame
    cases hcase
    rw [← beq_iff_eq.1 hsame]
    exact caseFits_of_variant hvariant
  · exact h.cases other found hcase

/-! ## Nodes -/

theorem foldlM_each {ε α β : Type} {f : β → α → Except ε β} {items : List α} {start final : β}
    (h : items.foldlM f start = .ok final) : ∀ item ∈ items, ∃ before after,
      f before item = .ok after := by
  induction items generalizing start with
  | nil => nofun
  | cons item items ih =>
      rw [List.foldlM_cons] at h
      obtain ⟨middle, hmiddle, h⟩ := bind_ok.1 h
      exact List.forall_mem_cons.2 ⟨⟨start, middle, hmiddle⟩, ih h⟩

theorem wrapperAllowed_of_valid {presence : AdapterPresence}
    {source : Option AdapterPresenceSource} {context : Context}
    (h : validateWrapper presence source context = .ok ()) :
    wrapperAllowed presence source context = true := by
  unfold validateWrapper at h
  split at h
  · cases h
  · exact ensure_ok.1 h

/-- The value of a node, where it has to have one. -/
def Valued (original : PrepareInput) (contract : AdapterContractV1) (index : Nat) (scope : Scope)
    (value : Option AdapterJson) : Prop :=
  contract.tree.nodes[index]?.any (isOmitted original · scope) = false → value.isSome = true

theorem childKey_sound {contract : AdapterContractV1} {child : Nat}
    (h : AtKey contract child) :
    Ends Fault.Excused (fun _ => True) (childKey contract child) := by
  obtain ⟨key, hkey⟩ := h
  unfold segmentOf at hkey
  obtain ⟨node, hnode, hsegment⟩ := Option.bind_eq_some_iff.1 hkey
  unfold childKey
  rw [hnode]
  dsimp only
  rw [hsegment]
  trivial

theorem checkLength_ofRequest (array : ContractArray) (length : Nat) :
    OfRequest (checkLength array length) := by
  unfold checkLength
  split
  · exact ofRequest_error nofun
  · split
    · exact ofRequest_error nofun
    · exact ofRequest_ok _

theorem validateArray_ok {contract : AdapterContractV1} {collection : AdapterCollection}
    {context inner : Context} {before after : Accounting}
    (h : validateArray contract collection context before = .ok (inner, after)) :
    ∃ lexical, collectionItemScope collection context = .ok lexical ∧
      inner = { context with scope := lexical } ∧
      (collection = .SystemMessages → (contract.wireId == .OpenAiCompletions
        || contract.wireId == .MistralConversations) = true) := by
  obtain ⟨first, -, h⟩ := bind_ok.1 h
  split at h
  · cases h
  · rename_i hwire
    obtain ⟨second, -, h⟩ := bind_ok.1 h
    obtain ⟨lexical, hlexical, h⟩ := bind_ok.1 h
    cases h
    refine ⟨lexical, hlexical, rfl, fun hcollection => ?_⟩
    rw [hcollection] at hwire
    simp only [bne, Bool.and_eq_true, Bool.not_eq_true', beq_self_eq_true, true_and] at hwire
    cases hfirst : contract.wireId == .OpenAiCompletions with
    | true => rfl
    | false =>
        rw [hfirst] at hwire
        simpa using hwire

/-- The node of the items of a collection is not omitted. -/
theorem item_not_omitted {contract : AdapterContractV1} {original : PrepareInput}
    {context : Context} {scope : Scope} (h : Fits original context scope)
    {collection : AdapterCollection} {lexical : LexicalScope}
    (hlexical : collectionItemScope collection context = .ok lexical) {fuel index : Nat}
    {before after : Accounting}
    (hwalk : walkNode contract fuel index { context with scope := lexical } before = .ok after)
    (item : Scope) : contract.tree.nodes[index]?.any (isOmitted original · item) = false := by
  cases fuel with
  | zero => cases hwalk
  | succ fuel =>
      rw [walkNode] at hwalk
      cases hnode : contract.tree.nodes[index]? with
      | none => rfl
      | some node =>
          rw [hnode] at hwalk
          obtain ⟨hwrapper, -⟩ := bind_unit_ok.1 hwalk
          obtain ⟨hpresence, hsource⟩ :=
            item_required h hlexical (wrapperAllowed_of_valid (mapError_ok.1 hwrapper))
          simp [isOmitted, absence, hpresence, hsource]

section

variable {self : Evaluator} {fuel : Nat}
  (ih : ∀ {index : Nat} {context : Context} {scope : Scope} {before after : Accounting},
    walkNode self.contract fuel index context before = .ok after →
    Fits self.original context scope →
    wellPlaced self.contract self.original fuel index scope = true →
    Outcome Fault.Excused (Valued self.original self.contract index scope)
      (evalNode self fuel index scope))
include ih

theorem sound_children {children : List Nat} {context : Context} {scope : Scope}
    {before after : Accounting} (hkeys : ∀ child ∈ children, AtKey self.contract child)
    (hwalk : children.foldlM
      (fun accounting child => walkNode self.contract fuel child context accounting) before =
        .ok after)
    (h : Fits self.original context scope)
    (hplaced : children.all (wellPlaced self.contract self.original fuel · scope) = true) :
    Sound (children.mapM fun child => do
      let key ← lift (childKey self.contract child)
      let value ← evalNode self fuel child scope
      return value.map fun value => (key, value)) := by
  refine (Outcome.mapM (R := fun _ _ => True) fun child hmem => ?_).mono (fun _ hf => hf)
    fun _ _ => trivial
  obtain ⟨first, last, hchild⟩ := foldlM_each hwalk child hmem
  refine (Outcome.lift (childKey_sound (hkeys child hmem))).bind fun key _ => ?_
  have hvalue := ih hchild h (List.all_eq_true.1 hplaced child hmem)
  exact hvalue.bind fun value _ => Outcome.pure trivial

/-- The items of an array are there: none of them can be omitted. -/
theorem sound_items {array : ContractArray} {context inner : Context} {scope : Scope}
    {first before after : Accounting} (h : Fits self.original context scope)
    (harray : validateArray self.contract array.collection context first = .ok (inner, before))
    (hwalk : walkNode self.contract fuel array.item inner before = .ok after)
    (hplaced : (itemScopes self.original array.collection scope).all
      (wellPlaced self.contract self.original fuel array.item ·) = true) :
    Outcome Fault.Excused (fun value => value.isSome = true) (do
      let scopes ← collectionScopes self array.collection scope
      lift (returned (checkLength array scopes.length))
      let items ← scopes.mapM fun item => do
        let value ← evalNode self fuel array.item item
        lift (returned (present value))
      return some (AdapterJson.Array items)) := by
  obtain ⟨lexical, hlexical, hinner, hwire⟩ := validateArray_ok harray
  subst hinner
  refine (sound_collectionScopes h hlexical hwire).bind fun scopes hscopes => ?_
  subst hscopes
  refine (Outcome.lift (sound_returned (checkLength_ofRequest array _))).bind fun _ _ => ?_
  refine (Outcome.mapM (R := fun _ _ => True) fun item hitem => ?_).bind
    fun _ _ => Outcome.pure rfl
  have hfits := itemScopes_fit h hlexical item hitem
  have hvalue := ih hwalk hfits (List.all_eq_true.1 hplaced item hitem)
  refine hvalue.bind fun value hvalued => ?_
  obtain ⟨found, hfound⟩ := Option.isSome_iff_exists.1
    (hvalued (item_not_omitted h hlexical hwalk item))
  exact Outcome.lift (by rw [present_some hfound]; trivial)

/-- The case that the request selects has a value. -/
theorem sound_switch {switch : ContractSwitch} {context : Context} {scope : Scope}
    {before after : Accounting}
    (hbody : BodyOk self.contract (.Switch switch)) (h : Fits self.original context scope)
    (hallowed : switchAllowed self.contract.wireId switch.source context = true)
    (hwalk : switch.cases.foldlM (fun accounting case => do
      let accounting ← walkNode self.contract fuel case.node
        (caseContext switch.source case.variantOrdinal context)
        (openCase self.contract switch.source case.variantOrdinal accounting)
      returned (closeCase self.contract switch.source case.variantOrdinal accounting)) before =
        .ok after)
    (hplaced : ∀ chosen, (variantOf self.original switch.source scope).bind (switch.cases[·]?) =
        some chosen →
      (!self.contract.tree.nodes[chosen.node]?.any (isOmitted self.original · scope)
        && wellPlaced self.contract self.original fuel chosen.node scope) = true) :
    Outcome Fault.Excused (fun value => value.isSome = true) (do
      let ordinal ← variantOrdinal self switch.source scope
      let chosen ← lift (lookup switch.cases ordinal)
      let value ← evalNode self fuel chosen.node scope
      let value ← lift (returned (present value))
      return some value) := by
  refine (sound_variantOrdinal h hallowed).bind fun ordinal hvariant => ?_
  have hordinal : ordinal < switch.cases.length := by
    rw [hbody.1]
    exact variantOf_lt hvariant
  obtain ⟨chosen, hchosen⟩ : ∃ chosen, switch.cases[ordinal]? = some chosen :=
    ⟨_, List.getElem?_eq_getElem hordinal⟩
  rw [lookup_some hchosen]
  obtain ⟨first, last, hcase⟩ := foldlM_each hwalk chosen (List.mem_of_getElem? hchosen)
  obtain ⟨middle, hcase, -⟩ := bind_ok.1 hcase
  rw [hbody.2 ordinal chosen hchosen] at hcase
  have hselected := hplaced chosen (by rw [hvariant]; exact hchosen)
  rw [Bool.and_eq_true, Bool.not_eq_true'] at hselected
  have hvalue := ih hcase (h.case hvariant) hselected.2
  have hfind : Ends Fault.Excused (fun case => case = chosen) (.ok chosen : Run ContractCase) := rfl
  refine (Outcome.lift hfind).bind fun case hsame => ?_
  subst hsame
  refine hvalue.bind fun value hvalued => ?_
  obtain ⟨found, hfound⟩ := Option.isSome_iff_exists.1 (hvalued hselected.1)
  rw [present_some hfound]
  exact Outcome.pure rfl

end

/-- A node that the walk accepts is evaluated without an invalid contract, if the request meets
every node below it where its source is. -/
theorem sound_evalNode {self : Evaluator} (hstructured : Structured self.contract) {fuel index : Nat}
    {context : Context} {scope : Scope} {before after : Accounting}
    (hwalk : walkNode self.contract fuel index context before = .ok after)
    (h : Fits self.original context scope)
    (hplaced : wellPlaced self.contract self.original fuel index scope = true) :
    Outcome Fault.Excused (Valued self.original self.contract index scope)
      (evalNode self fuel index scope) := by
  induction fuel generalizing index context scope before after with
  | zero => cases hwalk
  | succ fuel ih =>
      rw [walkNode] at hwalk
      rw [wellPlaced] at hplaced
      rw [evalNode]
      unfold Valued
      cases hnode : self.contract.tree.nodes[index]? with
      | none =>
          rw [hnode] at hwalk
          cases hwalk
      | some node =>
          rw [hnode] at hwalk hplaced
          obtain ⟨hwrapper, hwalk⟩ := bind_unit_ok.1 hwalk
          obtain ⟨inner, hinner, hwalk⟩ := bind_ok.1 hwalk
          have hallowed := wrapperAllowed_of_valid (mapError_ok.1 hwrapper)
          have hbody := hstructured.body node (List.mem_of_getElem? hnode)
          refine (sound_omitNode h hallowed).bind fun absent habsent => ?_
          cases absent with
          | true => exact Outcome.pure fun hpresent => absurd (habsent.trans hpresent) (by simp)
          | false =>
              have hfits := h.wrapped hallowed (mapError_ok.1 hinner) habsent.symm
              change (isOmitted self.original node scope || _) = true at hplaced
              rw [← habsent, Bool.false_or] at hplaced
              rw [if_neg Bool.false_ne_true]
              cases hcase : node.body with
              | Object object =>
                  rw [hcase] at hwalk hplaced hbody
                  refine (sound_children ih hbody hwalk hfits hplaced).bind fun _ _ => ?_
                  exact Outcome.pure fun _ => rfl
              | Array array =>
                  rw [hcase] at hwalk hplaced
                  obtain ⟨⟨items, counted⟩, harray, hwalk⟩ := bind_ok.1 hwalk
                  exact (sound_items ih hfits (mapError_ok.1 harray) hwalk hplaced).mono
                    (fun _ hfault => hfault) fun _ hvalue _ => hvalue
              | Switch switch =>
                  rw [hcase] at hwalk hplaced hbody
                  obtain ⟨hswitch, hwalk⟩ := bind_unit_ok.1 hwalk
                  have hselected := ensure_ok.1 (mapError_ok.1 hswitch)
                  refine (sound_switch ih hbody hfits hselected hwalk ?_).mono
                    (fun _ hfault => hfault) fun _ hvalue _ => hvalue
                  intro chosen hchosen
                  dsimp only at hplaced
                  rw [hchosen] at hplaced
                  exact hplaced
              | Value value =>
                  rw [hcase] at hwalk hplaced hbody
                  obtain ⟨counted, -, hvalue⟩ := bind_ok.1 (mapError_ok.1 hwalk)
                  obtain ⟨hscalar, -⟩ := bind_unit_ok.1 hvalue
                  refine (sound_scalar hstructured hbody (ensure_ok.1 hscalar) hfits hplaced).bind
                    fun _ _ => ?_
                  exact Outcome.pure fun _ => rfl
              | Constant constant => exact Outcome.pure fun _ => rfl

/-! ## Evaluations that succeed -/

theorem taken_run {α : Type} {debt : Debt} {value found : α} {ledger after : Ledger}
    (h : (do consume debt; return value : Eval α) ledger = .ok (found, after)) :
    value = found := by
  obtain ⟨-, middle, -, h⟩ := bind_run_ok.1 h
  cases h
  rfl

theorem omitNode_run {original : PrepareInput} {node : ContractNode} {scope : Scope}
    {ledger after : Ledger} {absent : Bool}
    (h : omitNode original node scope ledger = .ok (absent, after)) :
    absent = isOmitted original node scope := by
  obtain ⟨found, middle, hfound, h⟩ := bind_run_ok.1 h
  have hlift := (lift_run_ok.1 hfound).1
  unfold isOmitted
  rw [mapError_ok.1 hlift]
  cases found with
  | none =>
      cases h
      rfl
  | some absence =>
      obtain ⟨isAbsent, debt⟩ := absence
      cases isAbsent with
      | false =>
          cases h
          rfl
      | true => exact (taken_run h).symm

theorem collectionScopes_run {self : Evaluator} {collection : AdapterCollection} {scope : Scope}
    {ledger after : Ledger} {scopes : List Scope}
    (h : collectionScopes self collection scope ledger = .ok (scopes, after)) :
    scopes = itemScopes self.original collection scope := by
  unfold collectionScopes at h
  split at h
  · exact (taken_run h).symm
  · exact (taken_run h).symm
  · exact (taken_run h).symm
  · exact (taken_run h).symm
  · exact (taken_run h).symm
  · unfold systemMessageScopes at h
    split at h
    · obtain ⟨-, middle, -, h⟩ := bind_run_ok.1 h
      obtain ⟨-, middle, -, h⟩ := bind_run_ok.1 h
      split at h
      · cases h
      · cases h
        rfl
    · cases h
  · cases h

theorem variantOrdinal_run {self : Evaluator} {source : AdapterVariantSource} {scope : Scope}
    {ledger after : Ledger} {ordinal : Nat}
    (h : variantOrdinal self source scope ledger = .ok (ordinal, after)) :
    variantOf self.original source scope = some ordinal := by
  have hstatus {index : Nat} {result : ToolResultMessage}
      (h : statusVariant self index result ledger = .ok (ordinal, after)) :
      some (statusOrdinal result.isError) = some ordinal := by
    unfold statusVariant at h
    split at h
    · cases h
    · exact congrArg some (taken_run h)
  unfold variantOrdinal at h
  split at h
  · exact congrArg some (taken_run h)
  · cases h
    rfl
  · cases h
    rfl
  · exact congrArg some (taken_run h)
  · exact congrArg some (taken_run h)
  · exact congrArg some (taken_run h)
  · exact congrArg some (taken_run h)
  · exact congrArg some (taken_run h)
  · exact hstatus h
  · exact hstatus h
  · exact congrArg some (taken_run h)
  · exact congrArg some (taken_run h)
  · exact congrArg some (taken_run h)
  · cases h

/-- A kind of one of the request's own variants is evaluated at the root only. -/
theorem requestKind_run {self : Evaluator} {source : AdapterScalarSource}
    {transform : AdapterTransform} {scope : Scope} {ledger : Ledger}
    {result : AdapterJson × Ledger}
    (h : scalar self source transform scope ledger = .ok result) :
    (!isRequestKind source || isRoot scope) = true := by
  have hroot {next : Unit → Eval AdapterJson}
      (h : (lift (returned (requireRoot scope)) >>= next) ledger = .ok result) :
      isRoot scope = true := by
    obtain ⟨_, middle, hrequired, _⟩ := bind_run_ok.1 h
    cases scope with
    | Root => rfl
    | _ => cases hrequired
  cases source with
  | SelectionKind => exact hroot h
  | ToolChoiceKind => exact hroot h
  | ToolChoiceName => exact hroot h
  | ReasoningMode => exact hroot h
  | CacheRetention => exact hroot h
  | _ => rfl

theorem lookup_ok {α : Type} {items : List α} {index : Nat} {item : α}
    (h : lookup items index = .ok item) : items[index]? = some item := by
  unfold lookup at h
  split at h
  · cases h
  · rename_i hfound
    cases h
    exact hfound

theorem present_ok {α : Type} {value : Option α} {found : α} (h : present value = .ok found) :
    value = some found := by
  cases value with
  | none => cases h
  | some value =>
      cases h
      rfl

/-- Where a node has been evaluated, the request meets every node below it where its source is;
and the node has a value unless it is omitted. -/
theorem wellPlaced_of_run {self : Evaluator} {fuel index : Nat} {scope : Scope} {ledger : Ledger}
    {result : Option AdapterJson × Ledger}
    (h : evalNode self fuel index scope ledger = .ok result) :
    wellPlaced self.contract self.original fuel index scope = true ∧
      (result.1.isSome = true →
        self.contract.tree.nodes[index]?.any (isOmitted self.original · scope) = false) := by
  induction fuel generalizing index scope ledger result with
  | zero => cases h
  | succ fuel ih =>
      rw [evalNode] at h
      rw [wellPlaced]
      cases hnode : self.contract.tree.nodes[index]? with
      | none =>
          rw [hnode] at h
          cases h
      | some node =>
          rw [hnode] at h
          obtain ⟨absent, middle, habsent, h⟩ := bind_run_ok.1 h
          have hsame := omitNode_run habsent
          change (isOmitted self.original node scope || _) = true ∧
            (_ → isOmitted self.original node scope = false)
          rw [← hsame]
          cases absent with
          | true =>
              rw [if_pos rfl] at h
              cases h
              exact ⟨rfl, fun hsome => absurd hsome Bool.false_ne_true⟩
          | false =>
              rw [if_neg Bool.false_ne_true] at h
              refine ⟨?_, fun _ => rfl⟩
              rw [Bool.false_or]
              cases hcase : node.body with
              | Object object =>
                  rw [hcase] at h
                  obtain ⟨fields, last, hfields, -⟩ := bind_run_ok.1 h
                  refine List.all_eq_true.2 fun child hmem => ?_
                  obtain ⟨before, after, hchild⟩ := mapM_run_ok hfields child hmem
                  obtain ⟨key, first, -, hchild⟩ := bind_run_ok.1 hchild
                  obtain ⟨value, second, hvalue, -⟩ := bind_run_ok.1 hchild
                  exact (ih hvalue).1
              | Array array =>
                  rw [hcase] at h
                  obtain ⟨scopes, first, hscopes, h⟩ := bind_run_ok.1 h
                  obtain ⟨-, second, -, h⟩ := bind_run_ok.1 h
                  obtain ⟨items, last, hitems, -⟩ := bind_run_ok.1 h
                  dsimp only
                  rw [← collectionScopes_run hscopes]
                  refine List.all_eq_true.2 fun item hmem => ?_
                  obtain ⟨before, after, hitem⟩ := mapM_run_ok hitems item hmem
                  obtain ⟨value, third, hvalue, -⟩ := bind_run_ok.1 hitem
                  exact (ih hvalue).1
              | Switch switch =>
                  rw [hcase] at h
                  obtain ⟨ordinal, first, hordinal, h⟩ := bind_run_ok.1 h
                  obtain ⟨chosen, second, hchosen, h⟩ := bind_run_ok.1 h
                  obtain ⟨value, third, hvalue, h⟩ := bind_run_ok.1 h
                  obtain ⟨found, fourth, hfound, -⟩ := bind_run_ok.1 h
                  have hlookup := lookup_ok (lift_run_ok.1 hchosen).1
                  have hpresent := present_ok (mapError_ok.1 (lift_run_ok.1 hfound).1)
                  obtain ⟨hplaced, hgiven⟩ := ih hvalue
                  dsimp only
                  rw [variantOrdinal_run hordinal, Option.bind_some, hlookup]
                  dsimp only
                  rw [hplaced, hgiven (by rw [hpresent]; rfl)]
                  rfl
              | Value value =>
                  rw [hcase] at h
                  obtain ⟨found, first, hfound, -⟩ := bind_run_ok.1 h
                  exact requestKind_run hfound
              | Constant constant => rfl

/-! ## Contracts -/

theorem rootContext_fits (original : PrepareInput) : Fits original ⟨.Root, [], []⟩ .Root :=
  ⟨trivial, nofun, nofun⟩

theorem validateIdentity_ofRequest (selected : ValidatedCatalogEntryView)
    (original : PrepareInput) : OfRequest (validateIdentity selected original) := by
  unfold validateIdentity
  split
  · exact ofRequest_error nofun
  · exact ofRequest_ok _

theorem validateCapabilities_ofRequest (selected : ValidatedCatalogEntryView)
    (original : PrepareInput) : OfRequest (validateCapabilities selected original) := by
  unfold validateCapabilities
  dsimp only
  iterate 7
    split
    · exact ofRequest_error nofun
  exact ofRequest_ok _

theorem settle_ofRequest (expected : List Debt) {value : Option AdapterJson}
    (h : value.isSome = true) (ledger : Ledger) : OfRequest (settle expected value ledger) := by
  obtain ⟨found, rfl⟩ := Option.isSome_iff_exists.1 h
  refine (ofRequest_ok found).bind fun found => ?_
  split
  · exact ofRequest_ok _
  · exact ofRequest_error nofun

theorem root_not_omitted {contract : AdapterContractV1} (hstructured : Structured contract)
    (original : PrepareInput) :
    contract.tree.nodes[contract.tree.root]?.any (isOmitted original · .Root) = false := by
  cases hnode : contract.tree.nodes[contract.tree.root]? with
  | none => rfl
  | some node =>
      have htop := hstructured.top node hnode
      simp only [rootAllowed, Bool.and_eq_true, beq_iff_eq, Option.isNone_iff_eq_none] at htop
      simp [isOmitted, absence, htop.1.1.2, htop.1.2]

/-- A contract with a case that is omitted if there is no output limit. -/
def omittedCaseContract : AdapterContractV1 where
  version := 1
  wireId := .OpenAiCompletions
  modelSource := .RequestedSelection
  ordinaryHeaderRules := []
  decoderKind := .OpenAiCompletions
  tree :=
    { root := 3
      tables := []
      nodes :=
        [ ⟨some 2, none, .OmitIfNone, some .MaxOutput, .Constant ⟨.Null⟩⟩,
          caseNode 2 nullBody,
          keyedNode 3 "model" (.Switch ⟨.ModelSelection, casesOf [0, 1]⟩),
          ⟨none, none, .Required, none, .Object ⟨[2]⟩⟩ ] }

/-- The fault of a call. -/
def faultOf {α : Type} : Run α → Option Fault
  | .error fault => some fault
  | .ok _ => none

theorem error_of_faultOf {α : Type} {run : Run α} {fault : Fault} (h : faultOf run = some fault) :
    run = .error fault := by
  cases run with
  | error found => rw [Option.some.inj h]
  | ok value => cases h

end MCode.Adapter
