import MCode.Validation.ToolJson

/-!
# Decoder events

`provider_validation/decoder.rs` and `provider_validation/decoder/events.rs`:
the checks of one normalized event, and the reducer that follows the content
of a response across the batches of its events.

A reducer that has refused a batch is never used again (the decoder closes),
so what a refused batch has already changed is not kept.
-/

namespace MCode.Validation

/-! ## The events of the guest -/

inductive ReasoningKind where
  | Thinking
  | Summary
  deriving DecidableEq

inductive CompletionReason where
  | Stop
  | ToolUse
  | Length
  deriving DecidableEq

inductive UnsupportedFlow where
  | CatalogSource
  | Authentication
  | Model
  | Tools
  | ToolChoice
  | Reasoning
  | Cache
  | Image
  | Proof
  | ResponseMedia
  deriving DecidableEq

inductive ProviderError where
  | InvalidArgument
  | Limit
  | UnsupportedFlow (flow : UnsupportedFlow)
  | Unavailable
  | Cancelled
  | Failed
  deriving DecidableEq

structure Usage where
  inputTokens : Option Nat
  outputTokens : Option Nat
  cacheReadTokens : Option Nat
  cacheWriteTokens : Option Nat
  deriving DecidableEq

structure CompletionTerminal where
  reason : CompletionReason
  reportedModel : Option String
  usage : Usage
  deriving DecidableEq

inductive NormalizedEvent where
  | TextDelta (contentIndex : Nat) (text : String)
  | ReasoningDelta (contentIndex : Nat) (kind : ReasoningKind) (text : String)
  | ReasoningProof (contentIndex : Nat) (kind : ReasoningKind) (proof : List UInt8)
  | ToolCallStart (contentIndex : Nat) (callId name : String)
  | ToolArgumentsDelta (contentIndex : Nat) (callId delta : String)
  | ToolCallEnd (contentIndex : Nat) (callId : String)
  | Completed (terminal : CompletionTerminal)
  | Failed (error : ProviderError)
  deriving DecidableEq

def isTerminal : NormalizedEvent → Bool
  | .Completed _ | .Failed _ => true
  | _ => false

/-! ## One event -/

def MAX_PULL_LIMIT : Nat := 16
def MAX_DELTA_BYTES : Nat := 64 * 1024
def MAX_SINGLE_EVENT_CHARGE : Nat := 128 * KIB
def MAX_BATCH_CHARGE : Nat := 1024 * KIB
def MAX_USAGE : Nat := 2 ^ 63 - 1

def validatePullLimit (limit : Nat) : ValidationResult Unit :=
  if !(1 ≤ limit && limit ≤ MAX_PULL_LIMIT) then .error .Limit else .ok ()

def validateContentIndex (index : Nat) : ValidationResult Unit :=
  if index > 63 then .error .InvalidArgument else .ok ()

def validateDelta (value : String) (charge : LogicalCharge) :
    ValidationResult LogicalCharge := do
  safe value MAX_DELTA_BYTES true
  charge.string value

def validateUsageValue (value : Option Nat) (charge : LogicalCharge) :
    ValidationResult LogicalCharge := do
  let charge ← charge.add 4
  match value with
  | none => .ok charge
  | some value => if value > MAX_USAGE then .error .Limit else charge.add 8

def validateUsage (usage : Usage) (charge : LogicalCharge) :
    ValidationResult LogicalCharge := do
  let charge ← validateUsageValue usage.inputTokens charge
  let charge ← validateUsageValue usage.outputTokens charge
  let charge ← validateUsageValue usage.cacheReadTokens charge
  validateUsageValue usage.cacheWriteTokens charge

def validateTerminal (terminal : CompletionTerminal) (charge : LogicalCharge) :
    ValidationResult LogicalCharge := do
  let charge ← charge.add 4
  let charge ← charge.add 4
  match terminal.reportedModel with
  | none => validateUsage terminal.usage charge
  | some model =>
      modelId model
      let charge ← charge.string model
      validateUsage terminal.usage charge

def validateStableError (error : ProviderError) (charge : LogicalCharge) :
    ValidationResult LogicalCharge := do
  let charge ← charge.add 4
  match error with
  | .UnsupportedFlow _ => charge.add 4
  | _ => .ok charge

/-- The checks and charges of one kind of event, behind its tag. -/
def validateEventBody (event : NormalizedEvent) (charge : LogicalCharge) :
    ValidationResult LogicalCharge := do
  match event with
  | .TextDelta contentIndex text =>
      validateContentIndex contentIndex
      let charge ← charge.add 1
      validateDelta text charge
  | .ReasoningDelta contentIndex _ text =>
      validateContentIndex contentIndex
      let charge ← charge.add 1
      let charge ← charge.add 4
      validateDelta text charge
  | .ReasoningProof contentIndex _ proof =>
      validateContentIndex contentIndex
      let charge ← charge.add 1
      let charge ← charge.add 4
      if proof.isEmpty then .error .InvalidArgument
      else if proof.length > MAX_DELTA_BYTES then .error .Limit
      else
        let charge ← charge.add 4
        charge.add (← checkedLen proof.length)
  | .ToolCallStart contentIndex callId name =>
      validateContentIndex contentIndex
      trackingId callId
      label name 128
      let charge ← charge.add 1
      let charge ← charge.string callId
      charge.string name
  | .ToolArgumentsDelta contentIndex callId delta =>
      validateContentIndex contentIndex
      trackingId callId
      let charge ← charge.add 1
      let charge ← charge.string callId
      validateDelta delta charge
  | .ToolCallEnd contentIndex callId =>
      validateContentIndex contentIndex
      trackingId callId
      let charge ← charge.add 1
      charge.string callId
  | .Completed terminal => validateTerminal terminal charge
  | .Failed error => validateStableError error charge

/-- `validate_normalized_event`: the charge of the event. -/
def validateNormalizedEvent (event : NormalizedEvent) : ValidationResult Nat := do
  let charge ← (LogicalCharge.new MAX_SINGLE_EVENT_CHARGE).add 4
  let charge ← validateEventBody event charge
  .ok charge.value

/-- The charges of the events of a batch. -/
def chargeBatch : List NormalizedEvent → LogicalCharge → ValidationResult LogicalCharge
  | [], batch => .ok batch
  | event :: events, batch => do
      let charge ← validateNormalizedEvent event
      let batch ← batch.add charge
      chargeBatch events batch

def validateEventBatch (events : List NormalizedEvent) (limit : Nat) :
    ValidationResult Unit := do
  validatePullLimit limit
  if events.isEmpty then .error .InvalidArgument
  else if events.length > limit then .error .InvalidArgument
  else
    let batch ← (LogicalCharge.new MAX_BATCH_CHARGE).add 4
    let _ ← chargeBatch events batch
    .ok ()

/-! ## The reducer -/

def MAX_EVENTS : Nat := 65536
def MAX_CUMULATIVE_EVENT_CHARGE : Nat := 8 * 1024 * 1024
def MAX_PROOF_BYTES : Nat := 256 * 1024
def MAX_TOOL_DELTAS : Nat := 16384
def MAX_TOOL_BYTES : Nat := 1024 * 1024
def MAX_ALL_TOOL_BYTES : Nat := 2 * 1024 * 1024

structure DecoderPolicy where
  proofSupported : Bool
  toolNames : List String
  reportedModels : List String

def DecoderPolicy.empty : DecoderPolicy := ⟨false, [], []⟩

inductive ToolState where
  | Open (callId : String) (deltaCount bytes : Nat) (arguments : String)
  | Sealed

inductive ContentKind where
  | Text
  | Reasoning (kind : ReasoningKind) (proofSeen : Bool)
  | Tool (state : ToolState)

structure ContentSlot where
  index : Nat
  kind : ContentKind

structure EventReducer where
  proofSupported : Bool
  toolNames : List String
  reportedModels : List String
  callIds : List String
  current : Option ContentSlot
  eventCount : Nat
  eventCharge : Nat
  proofBytes : Nat
  toolBytes : Nat
  completeCalls : Nat
  terminalSeen : Bool

structure EventBatch where
  accepted : List NormalizedEvent
  terminal : Option NormalizedEvent

def EventReducer.new (policy : DecoderPolicy) : EventReducer where
  proofSupported := policy.proofSupported
  toolNames := policy.toolNames
  reportedModels := policy.reportedModels
  callIds := []
  current := none
  eventCount := 0
  eventCharge := 0
  proofBytes := 0
  toolBytes := 0
  completeCalls := 0
  terminalSeen := false

def ContentKind.isOpenTool : ContentKind → Bool
  | .Tool (.Open _ _ _ _) => true
  | _ => false

/-- `ensure_slot_can_advance`. -/
def ContentSlot.canAdvance (self : ContentSlot) : Bool := !self.kind.isOpenTool

/-- The same class of content, and of reasoning. -/
def ContentKind.matches : ContentKind → ContentKind → Bool
  | .Text, .Text => true
  | .Reasoning kind _, .Reasoning other _ => kind == other
  | _, _ => false

/-- `select_content`; `kind` is the kind that a new slot gets. -/
def EventReducer.selectContent (self : EventReducer) (index : Nat) (kind : ContentKind) :
    ValidationResult EventReducer :=
  match self.current with
  | none =>
      if index != 0 then .error .InvalidArgument
      else .ok { self with current := some ⟨index, kind⟩ }
  | some current =>
      if current.index == index then
        if current.kind.matches kind then .ok self else .error .InvalidArgument
      else if current.index + 1 ≤ 255 && current.index + 1 == index then
        if current.canAdvance then .ok { self with current := some ⟨index, kind⟩ }
        else .error .InvalidArgument
      else .error .InvalidArgument

/-- `accept_proof`. -/
def EventReducer.acceptProof (self : EventReducer) (index : Nat) (kind : ReasoningKind)
    (bytes : Nat) : ValidationResult EventReducer :=
  if !self.proofSupported then .error .InvalidArgument
  else
    match self.current with
    | some ⟨currentIndex, .Reasoning currentKind proofSeen⟩ =>
        if currentIndex != index || currentKind != kind || proofSeen then
          .error .InvalidArgument
        else do
          let bytes ← checkedLen bytes
          let proofBytes ← checkedAdd self.proofBytes bytes
          if proofBytes > MAX_PROOF_BYTES then .error .Limit
          else .ok { self with
            proofBytes := proofBytes
            current := some ⟨currentIndex, .Reasoning currentKind true⟩ }
    | _ => .error .InvalidArgument

/-- `start_tool`. -/
def EventReducer.startTool (self : EventReducer) (index : Nat) (callId name : String) :
    ValidationResult EventReducer :=
  if !self.toolNames.contains name || self.callIds.contains callId then
    .error .InvalidArgument
  else
    let next := match self.current with
      | none => index == 0
      | some current =>
          current.index + 1 ≤ 255 && current.index + 1 == index && current.canAdvance
    if !next then .error .InvalidArgument
    else .ok { self with
      callIds := callId :: self.callIds
      current := some ⟨index, .Tool (.Open callId 0 0 "")⟩ }

/-- `append_tool_delta`. -/
def EventReducer.appendToolDelta (self : EventReducer) (index : Nat)
    (callId delta : String) : ValidationResult EventReducer :=
  match self.current with
  | some ⟨currentIndex, .Tool (.Open currentId deltaCount bytes arguments)⟩ =>
      if currentIndex != index || currentId != callId then .error .InvalidArgument
      else if deltaCount + 1 > MAX_TOOL_DELTAS then .error .Limit
      else do
        let deltaBytes ← checkedLen (utf8Len delta.toList)
        let nextBytes ← checkedAdd bytes deltaBytes
        let nextTotal ← checkedAdd self.toolBytes deltaBytes
        if nextBytes > MAX_TOOL_BYTES || nextTotal > MAX_ALL_TOOL_BYTES then .error .Limit
        else .ok { self with
          toolBytes := nextTotal
          current := some ⟨currentIndex,
            .Tool (.Open currentId (deltaCount + 1) nextBytes (arguments ++ delta))⟩ }
  | _ => .error .InvalidArgument

/-- The verdict of `validate_tool_arguments`, which always returns one. -/
def toolArguments (arguments : String) : ValidationResult Unit :=
  (validateToolArguments arguments).getD (.error .Limit)

/-- `end_tool`. -/
def EventReducer.endTool (self : EventReducer) (index : Nat) (callId : String) :
    ValidationResult EventReducer :=
  match self.current with
  | some ⟨currentIndex, .Tool (.Open currentId deltaCount _ arguments)⟩ =>
      if currentIndex != index || currentId != callId || deltaCount == 0 then
        .error .InvalidArgument
      else do
        toolArguments arguments
        if self.completeCalls + 1 > 2 ^ 32 - 1 then .error .Limit
        else .ok { self with
          completeCalls := self.completeCalls + 1
          current := some ⟨currentIndex, .Tool .Sealed⟩ }
  | _ => .error .InvalidArgument

/-- `reject_open_tool`. -/
def EventReducer.rejectOpenTool (self : EventReducer) : ValidationResult Unit :=
  if self.current.any (·.kind.isOpenTool) then .error .InvalidArgument else .ok ()

/-- `accept_completed`. -/
def EventReducer.acceptCompleted (self : EventReducer) (reason : CompletionReason) :
    ValidationResult Unit := do
  self.rejectOpenTool
  if (reason == .ToolUse) != decide (self.completeCalls > 0) then
    .error .InvalidArgument
  else .ok ()

/-- What one event changes, by its kind. -/
def EventReducer.applyEvent (self : EventReducer) (event : NormalizedEvent) :
    ValidationResult EventReducer :=
  match event with
  | .TextDelta contentIndex _ => self.selectContent contentIndex .Text
  | .ReasoningDelta contentIndex kind _ =>
      self.selectContent contentIndex (.Reasoning kind false)
  | .ReasoningProof contentIndex kind proof =>
      self.acceptProof contentIndex kind proof.length
  | .ToolCallStart contentIndex callId name => self.startTool contentIndex callId name
  | .ToolArgumentsDelta contentIndex callId delta =>
      self.appendToolDelta contentIndex callId delta
  | .ToolCallEnd contentIndex callId => self.endTool contentIndex callId
  | .Completed terminal => do
      self.acceptCompleted terminal.reason
      .ok { self with terminalSeen := true }
  | .Failed _ => do
      self.rejectOpenTool
      .ok { self with terminalSeen := true }

/-- Charges and applies one event. -/
def EventReducer.acceptEvent (self : EventReducer) (event : NormalizedEvent) :
    ValidationResult EventReducer := do
  let charge ← validateNormalizedEvent event
  let eventCharge ← checkedAdd self.eventCharge charge
  if eventCharge > MAX_CUMULATIVE_EVENT_CHARGE then .error .Limit
  else ({ self with eventCharge := eventCharge }).applyEvent event

/-- The terminal that is published: a model that the policy does not report is
left out. -/
def EventReducer.published (self : EventReducer) (event : NormalizedEvent) :
    NormalizedEvent :=
  match event with
  | .Completed terminal =>
      if terminal.reportedModel.any fun model => !self.reportedModels.contains model then
        .Completed { terminal with reportedModel := none }
      else event
  | _ => event

/-- The loop over the events of a batch. -/
def EventReducer.reduceEvents (self : EventReducer) :
    List NormalizedEvent → EventBatch → ValidationResult (EventBatch × EventReducer)
  | [], batch => .ok (batch, self)
  | event :: events, batch => do
      let next ← self.acceptEvent event
      next.reduceEvents events
        (if isTerminal event then
          { batch with terminal := some (self.published event) }
        else { batch with accepted := batch.accepted ++ [event] })

/-- `validate_terminal_position`: at most one terminal, last and after the
end. -/
def EventReducer.validateTerminalPosition (self : EventReducer)
    (events : List NormalizedEvent) (afterEnd : Bool) : ValidationResult Unit :=
  if self.terminalSeen then .error .InvalidArgument
  else if events.countP isTerminal > 1 then .error .InvalidArgument
  else if events.any isTerminal && !afterEnd then .error .InvalidArgument
  else if events.dropLast.any isTerminal then .error .InvalidArgument
  else .ok ()

/-- `reduce_error_batch`. -/
def EventReducer.reduceErrorBatch (self : EventReducer) (events : List NormalizedEvent)
    (afterEnd : Bool) : ValidationResult (EventBatch × EventReducer) :=
  match events with
  | [.Failed error] =>
      if !afterEnd then .error .InvalidArgument
      else do
        let eventCount ← checkedAdd self.eventCount 1
        if eventCount > MAX_EVENTS then .error .Limit
        else
          let charge ← validateNormalizedEvent (.Failed error)
          let eventCharge ← checkedAdd self.eventCharge charge
          if eventCharge > MAX_CUMULATIVE_EVENT_CHARGE then .error .Limit
          else .ok (⟨[], some (.Failed error)⟩, { self with
            eventCount := eventCount
            eventCharge := eventCharge
            terminalSeen := true })
  | _ => .error .InvalidArgument

/-- `reduce_batch`. -/
def EventReducer.reduceBatch (self : EventReducer) (events : List NormalizedEvent)
    (limit : Nat) (afterEnd successfulStatus : Bool) :
    ValidationResult (EventBatch × EventReducer) := do
  validateEventBatch events limit
  self.validateTerminalPosition events afterEnd
  if !successfulStatus then self.reduceErrorBatch events afterEnd
  else
    let eventCount ← checkedAdd self.eventCount (← checkedLen events.length)
    if eventCount > MAX_EVENTS then .error .Limit
    else ({ self with eventCount := eventCount }).reduceEvents events ⟨[], none⟩

end MCode.Validation
