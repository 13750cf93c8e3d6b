import MCode.Validation.Events

/-!
# The grammar of a response

What `docs/design/08-provider-pack-abi-decoder.md` says of the events of a
response, without a reducer: a response is a list of blocks, block `i` at
content index `i`, then at most one terminal.  A block is text, reasoning with
at most one proof, or one tool call.  `Grammar` is the whole of it, for a list
of events that no batch splits.
-/

namespace MCode.Validation

/-! ## Single events -/

def usageValueCharge (value : Option Nat) : Nat := if value.isSome then 12 else 4

def usageCharge (usage : Usage) : Nat :=
  usageValueCharge usage.inputTokens + (usageValueCharge usage.outputTokens +
    (usageValueCharge usage.cacheReadTokens + usageValueCharge usage.cacheWriteTokens))

/-- The charge of an event: its tag and its fields. -/
def eventCharge : NormalizedEvent → Nat
  | .TextDelta _ text => 4 + (1 + stringCharge text)
  | .ReasoningDelta _ _ text => 4 + (1 + 4 + stringCharge text)
  | .ReasoningProof _ _ proof => 4 + (1 + 4 + (4 + proof.length))
  | .ToolCallStart _ callId name => 4 + (1 + stringCharge callId + stringCharge name)
  | .ToolArgumentsDelta _ callId delta => 4 + (1 + stringCharge callId + stringCharge delta)
  | .ToolCallEnd _ callId => 4 + (1 + stringCharge callId)
  | .Completed terminal =>
      4 + (4 + (4 + (terminal.reportedModel.map stringCharge).getD 0) +
        usageCharge terminal.usage)
  | .Failed error => 4 + (match error with | .UnsupportedFlow _ => 8 | _ => 4)

def UsageWithin (usage : Usage) : Prop :=
  (∀ value ∈ usage.inputTokens, value ≤ MAX_USAGE) ∧
  (∀ value ∈ usage.outputTokens, value ≤ MAX_USAGE) ∧
  (∀ value ∈ usage.cacheReadTokens, value ≤ MAX_USAGE) ∧
  (∀ value ∈ usage.cacheWriteTokens, value ≤ MAX_USAGE)

/-- The scalars of an event. -/
def ValidFields : NormalizedEvent → Prop
  | .TextDelta index text => index ≤ 63 ∧ safe text MAX_DELTA_BYTES true = .ok ()
  | .ReasoningDelta index _ text => index ≤ 63 ∧ safe text MAX_DELTA_BYTES true = .ok ()
  | .ReasoningProof index _ proof =>
      index ≤ 63 ∧ 1 ≤ proof.length ∧ proof.length ≤ MAX_DELTA_BYTES
  | .ToolCallStart index callId name =>
      index ≤ 63 ∧ trackingId callId = .ok () ∧ label name 128 = .ok ()
  | .ToolArgumentsDelta index callId delta =>
      index ≤ 63 ∧ trackingId callId = .ok () ∧ safe delta MAX_DELTA_BYTES true = .ok ()
  | .ToolCallEnd index callId => index ≤ 63 ∧ trackingId callId = .ok ()
  | .Completed terminal =>
      (∀ model ∈ terminal.reportedModel, modelId model = .ok ()) ∧ UsageWithin terminal.usage
  | .Failed _ => True

/-- What every single event has to be. -/
structure ValidEvent (event : NormalizedEvent) : Prop where
  fields : ValidFields event
  charged : eventCharge event ≤ MAX_SINGLE_EVENT_CHARGE

/-! ## Blocks -/

inductive ReasoningPart where
  | Delta (text : String)
  | Proof (proof : List UInt8)

inductive Block where
  | Text (deltas : List String)
  | Reasoning (kind : ReasoningKind) (parts : List ReasoningPart)
  | Call (callId name : String) (deltas : List String) (ended : Bool)

def ReasoningPart.event (index : Nat) (kind : ReasoningKind) :
    ReasoningPart → NormalizedEvent
  | .Delta text => .ReasoningDelta index kind text
  | .Proof proof => .ReasoningProof index kind proof

namespace Block

/-- The events of a block at its index. -/
def events (index : Nat) : Block → List NormalizedEvent
  | .Text deltas => deltas.map (.TextDelta index)
  | .Reasoning kind parts => parts.map (·.event index kind)
  | .Call callId name deltas ended =>
      .ToolCallStart index callId name ::
        (deltas.map (.ToolArgumentsDelta index callId) ++
          if ended then [.ToolCallEnd index callId] else [])

def isOpen : Block → Bool
  | .Call _ _ _ ended => !ended
  | _ => false

/-- A call that is complete. -/
def isSealed : Block → Bool
  | .Call _ _ _ ended => ended
  | _ => false

def callId : Block → Option String
  | .Call callId _ _ _ => some callId
  | _ => none

def proofs : Block → List (List UInt8)
  | .Reasoning _ parts => parts.filterMap fun part =>
      match part with
      | .Proof proof => some proof
      | .Delta _ => none
  | _ => []

/-- The bytes of the proofs of a block. -/
def proofBytes (block : Block) : Nat := (block.proofs.map List.length).sum

def deltaBytes (deltas : List String) : Nat :=
  (deltas.map fun delta => utf8Len delta.toList).sum

/-- The bytes of the arguments of a call. -/
def toolBytes : Block → Nat
  | .Call _ _ deltas _ => deltaBytes deltas
  | _ => 0

/-- What a block has to be by itself.  A delta comes before a proof. -/
def Ok (policy : DecoderPolicy) : Block → Prop
  | .Text deltas => deltas ≠ []
  | .Reasoning kind parts =>
      (∃ text rest, parts = .Delta text :: rest) ∧
      (proofs (.Reasoning kind parts)).length ≤ 1 ∧
      (proofs (.Reasoning kind parts) ≠ [] → policy.proofSupported = true)
  | .Call _ name deltas ended =>
      name ∈ policy.toolNames ∧ deltas.length ≤ MAX_TOOL_DELTAS ∧
      deltaBytes deltas ≤ MAX_TOOL_BYTES ∧
      (ended = true → deltas ≠ [] ∧ toolArguments (String.join deltas) = .ok ())

end Block

/-- The events of the blocks, from a content index on. -/
def blockEvents : Nat → List Block → List NormalizedEvent
  | _, [] => []
  | index, block :: blocks => block.events index ++ blockEvents (index + 1) blocks

/-- What the blocks have to be together. -/
structure Arranged (policy : DecoderPolicy) (blocks : List Block) : Prop where
  each : ∀ block ∈ blocks, block.Ok policy
  closed : ∀ block ∈ blocks.dropLast, block.isOpen = false
  distinct : (blocks.filterMap Block.callId).Nodup
  proofs : (blocks.map Block.proofBytes).sum ≤ MAX_PROOF_BYTES
  tools : (blocks.map Block.toolBytes).sum ≤ MAX_ALL_TOOL_BYTES

/-- What a terminal says of the blocks before it. -/
def Terminates (blocks : List Block) : NormalizedEvent → Prop
  | .Completed terminal =>
      (∀ block ∈ blocks, block.isOpen = false) ∧
      (terminal.reason = .ToolUse ↔ ∃ block ∈ blocks, block.isSealed = true)
  | .Failed _ => ∀ block ∈ blocks, block.isOpen = false
  | _ => False

/-- The events are these blocks and this terminal. -/
structure Parsed (policy : DecoderPolicy) (events : List NormalizedEvent)
    (blocks : List Block) (terminal : Option NormalizedEvent) : Prop where
  split : events = blockEvents 0 blocks ++ terminal.toList
  arranged : Arranged policy blocks
  ended : ∀ event ∈ terminal, Terminates blocks event
  valid : ∀ event ∈ events, ValidEvent event
  charged : (events.map eventCharge).sum ≤ MAX_CUMULATIVE_EVENT_CHARGE

/-- The grammar of a response, or of its first events. -/
def Grammar (policy : DecoderPolicy) (events : List NormalizedEvent) : Prop :=
  events.length ≤ MAX_EVENTS ∧ ∃ blocks terminal, Parsed policy events blocks terminal

/-! ## The checks of one event -/

theorem validateContentIndex_ok {index : Nat} :
    validateContentIndex index = .ok () ↔ index ≤ 63 := by
  unfold validateContentIndex
  split <;> simp <;> omega

theorem validateDelta_charges (text : String) :
    Charges (validateDelta text) (safe text MAX_DELTA_BYTES true = .ok ())
      (stringCharge text) :=
  (Charges.string text).guarded.congr (by simp) rfl

theorem validateUsageValue_charges (usage : Option Nat) :
    Charges (validateUsageValue usage) (∀ tokens ∈ usage, tokens ≤ MAX_USAGE)
      (usageValueCharge usage) := by
  cases usage with
  | none => exact ((Charges.add 4).bind Charges.pure).congr (by simp) rfl
  | some tokens => exact ((Charges.add 4).bind (Charges.add 8).refusing).congr (by simp) rfl

theorem validateUsage_charges (usage : Usage) :
    Charges (validateUsage usage) (UsageWithin usage) (usageCharge usage) :=
  (validateUsageValue_charges usage.inputTokens).bind
    ((validateUsageValue_charges usage.outputTokens).bind
      ((validateUsageValue_charges usage.cacheReadTokens).bind
        (validateUsageValue_charges usage.cacheWriteTokens)))

theorem validateTerminal_charges (terminal : CompletionTerminal) :
    Charges (validateTerminal terminal)
      ((∀ model ∈ terminal.reportedModel, modelId model = .ok ()) ∧
        UsageWithin terminal.usage) (eventCharge (.Completed terminal) - 4) := by
  obtain ⟨reason, reportedModel, usage⟩ := terminal
  cases reportedModel with
  | none =>
      exact ((Charges.add 4).bind ((Charges.add 4).bind (validateUsage_charges usage))).congr
        (by simp) (by simp [eventCharge]; omega)
  | some model =>
      exact ((Charges.add 4).bind ((Charges.add 4).bind
        ((Charges.string model).bind (validateUsage_charges usage)).guarded)).congr
        (by simp) (by simp [eventCharge]; omega)

/-- The checks behind the tag of an event. -/
theorem validateEventBody_charges (event : NormalizedEvent) :
    Charges (validateEventBody event) (ValidFields event) (eventCharge event - 4) := by
  cases event with
  | TextDelta index text =>
      exact ((Charges.add 1).bind (validateDelta_charges text)).guarded.congr
        (by simp [ValidFields, validateContentIndex_ok]) (by simp [eventCharge])
  | ReasoningDelta index kind text =>
      exact ((Charges.add 1).bind
        ((Charges.add 4).bind (validateDelta_charges text))).guarded.congr
        (by simp [ValidFields, validateContentIndex_ok]) (by simp [eventCharge]; omega)
  | ReasoningProof index kind proof =>
      exact ((Charges.add 1).bind ((Charges.add 4).bind
        ((Charges.add 4).bind (Charges.length proof.length)).refusing.refusing)).guarded.congr
        (by simp [ValidFields, validateContentIndex_ok, List.length_pos_iff, Nat.succ_le_iff])
        (by simp [eventCharge]; omega)
  | ToolCallStart index callId name =>
      exact ((Charges.add 1).bind ((Charges.string callId).bind
        (Charges.string name))).guarded.guarded.guarded.congr
        (by simp [ValidFields, validateContentIndex_ok]) (by simp [eventCharge]; omega)
  | ToolArgumentsDelta index callId delta =>
      exact ((Charges.add 1).bind ((Charges.string callId).bind
        (validateDelta_charges delta))).guarded.guarded.congr
        (by simp [ValidFields, validateContentIndex_ok]) (by simp [eventCharge]; omega)
  | ToolCallEnd index callId =>
      exact ((Charges.add 1).bind (Charges.string callId)).guarded.guarded.congr
        (by simp [ValidFields, validateContentIndex_ok]) (by simp [eventCharge])
  | Completed terminal => exact validateTerminal_charges terminal
  | Failed error =>
      cases error with
      | UnsupportedFlow flow =>
          exact ((Charges.add 4).bind (Charges.add 4)).congr (by simp [ValidFields]) rfl
      | _ => exact ((Charges.add 4).bind Charges.pure).congr (by simp [ValidFields]) rfl

theorem eventCharge_pos (event : NormalizedEvent) : 4 ≤ eventCharge event := by
  cases event <;> simp [eventCharge]

/-- One event is accepted exactly if it is valid. -/
theorem validateNormalizedEvent_ok {event : NormalizedEvent} {charge : Nat} :
    validateNormalizedEvent event = .ok charge ↔
      ValidEvent event ∧ charge = eventCharge event := by
  have hpos := eventCharge_pos event
  have hcharges := (Charges.add 4).bind (validateEventBody_charges event) 0
    MAX_SINGLE_EVENT_CHARGE (Nat.zero_le _) (by decide)
  have hsame : validateNormalizedEvent event =
      ((LogicalCharge.new MAX_SINGLE_EVENT_CHARGE).add 4 >>= validateEventBody event) >>=
        fun charge => .ok charge.value := by
    unfold validateNormalizedEvent
    cases (LogicalCharge.new MAX_SINGLE_EVENT_CHARGE).add 4 with
    | error error => rfl
    | ok charge => rfl
  rw [hsame, bind_eq_ok]
  constructor
  · rintro ⟨result, hresult, heq⟩
    obtain ⟨⟨-, hfields⟩, hle, rfl⟩ := (hcharges result).1 hresult
    cases heq
    refine ⟨⟨hfields, by omega⟩, ?_⟩
    show 0 + (4 + (eventCharge event - 4)) = eventCharge event
    omega
  · rintro ⟨⟨hfields, hle⟩, rfl⟩
    refine ⟨⟨0 + (4 + (eventCharge event - 4)), MAX_SINGLE_EVENT_CHARGE⟩, ?_, ?_⟩
    · exact (hcharges _).2 ⟨⟨trivial, hfields⟩, by omega, rfl⟩
    · show Except.ok _ = Except.ok _
      congr 1
      show 0 + (4 + (eventCharge event - 4)) = eventCharge event
      omega

/-! ## The checks of a batch -/

/-- The charge of the events of a batch. -/
def batchCharge (events : List NormalizedEvent) : Nat := (events.map eventCharge).sum

theorem chargeBatch_charges (events : List NormalizedEvent) :
    Charges (chargeBatch events) (∀ event ∈ events, ValidEvent event)
      (batchCharge events) := by
  induction events with
  | nil => exact Charges.pure.congr (by simp) rfl
  | cons event events ih =>
      cases hevent : validateNormalizedEvent event with
      | error error =>
          have hinvalid : ¬ ValidEvent event := by
            intro hvalid
            have hok := validateNormalizedEvent_ok.2 ⟨hvalid, rfl⟩
            rw [hevent] at hok
            cases hok
          intro value limit hvalue hlimit result
          have hnot : ¬ ∀ other ∈ event :: events, ValidEvent other :=
            fun hall => hinvalid (hall event List.mem_cons_self)
          simp only [chargeBatch, hevent, hnot, false_and, iff_false]
          nofun
      | ok charge =>
          obtain ⟨hvalid, rfl⟩ := validateNormalizedEvent_ok.1 hevent
          have hrest : Charges _ (∀ other ∈ event :: events, ValidEvent other) _ :=
            ((Charges.add (eventCharge event)).bind ih).congr (by simp [hvalid]) rfl
          intro value limit hvalue hlimit result
          rw [chargeBatch, hevent]
          exact hrest value limit hvalue hlimit result

/-- What a batch has to be for its pull. -/
structure Pullable (events : List NormalizedEvent) (limit : Nat) (afterEnd : Bool) : Prop where
  asked : 1 ≤ limit ∧ limit ≤ MAX_PULL_LIMIT
  nonempty : events ≠ []
  within : events.length ≤ limit
  charged : 4 + batchCharge events ≤ MAX_BATCH_CHARGE
  placed : events.any isTerminal = true → afterEnd = true

theorem validateEventBatch_ok {events : List NormalizedEvent} {limit : Nat} :
    validateEventBatch events limit = .ok () ↔
      (1 ≤ limit ∧ limit ≤ MAX_PULL_LIMIT) ∧ events ≠ [] ∧ events.length ≤ limit ∧
        (∀ event ∈ events, ValidEvent event) ∧
        4 + batchCharge events ≤ MAX_BATCH_CHARGE := by
  have hcharges := (Charges.add 4).bind (chargeBatch_charges events) 0 MAX_BATCH_CHARGE
    (Nat.zero_le _) (by decide)
  unfold validateEventBatch validatePullLimit
  by_cases hlimit : 1 ≤ limit ∧ limit ≤ MAX_PULL_LIMIT
  · by_cases hempty : events = []
    · simp [hempty, bind_eq_ok]
    · by_cases hlength : events.length ≤ limit
      · have hnot : ¬ events.length > limit := by omega
        have hcons : events.isEmpty = false := by simpa using hempty
        simp only [hcons, hnot, hlimit, hempty, hlength, Bool.false_eq_true, if_false, ne_eq,
          not_false_eq_true, true_and, and_self]
        constructor
        · intro h
          rw [bind_eq_ok] at h
          obtain ⟨_, -, h⟩ := h
          rw [bind_eq_ok] at h
          obtain ⟨first, hfirst, h⟩ := h
          rw [bind_eq_ok] at h
          obtain ⟨result, hresult, -⟩ := h
          obtain ⟨⟨-, hvalid⟩, hle, -⟩ :=
            (hcharges result).1 (bind_eq_ok.2 ⟨first, hfirst, hresult⟩)
          exact ⟨hvalid, by omega⟩
        · rintro ⟨hvalid, hle⟩
          obtain ⟨first, hfirst, hresult⟩ := bind_eq_ok.1
            ((hcharges ⟨0 + (4 + batchCharge events), MAX_BATCH_CHARGE⟩).2
              ⟨⟨trivial, hvalid⟩, by omega, rfl⟩)
          exact bind_eq_ok.2 ⟨(), rfl, bind_eq_ok.2 ⟨first, hfirst,
            bind_eq_ok.2 ⟨_, hresult, rfl⟩⟩⟩
      · have hover : events.length > limit := by omega
        simp [hempty, hlength, hover, bind_eq_ok]
  · have hbound : (decide (1 ≤ limit) && decide (limit ≤ MAX_PULL_LIMIT)) = false := by
      simpa using hlimit
    simp only [hbound, hlimit, false_and, iff_false]
    nofun

end MCode.Validation
