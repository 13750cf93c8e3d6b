import MCode.Adapter.Authority

/-!
# Tool calls and their results

`validate_messages` goes through a conversation once, with a queue of the calls
that wait for a result.  It accepts the conversations in which every message of
the assistant is followed at once by the results of its calls, in their order,
and what it returns maps each call to its own result.
-/

namespace MCode.Adapter

open MCode.Lib.Results
open MCode.Validation (ValidationResult LogicalCharge trackingId label validateWireJson)

/-! ## Conversations -/

/-- The calls of a message of the assistant, in their order. -/
def AssistantMessage.calls (message : AssistantMessage) : List (String × String) :=
  message.blocks.flatMap (·.calls)

def Message.calls : Message → List (String × String)
  | .Assistant message => message.calls
  | _ => []

/-- All calls of a conversation. -/
def callsOf (messages : List Message) : List (String × String) := messages.flatMap (·.calls)

/-- Every message of the assistant is followed by the results of its calls, in their order, and
there are no other results. -/
inductive Paired : List Message → Prop
  | nil : Paired []
  | user (message : UserMessage) {rest : List Message} (h : Paired rest) :
      Paired (.User message :: rest)
  | turn (message : AssistantMessage) (results : List ToolResultMessage) {rest : List Message}
      (answered : results.map (·.callId) = message.calls.map Prod.fst) (h : Paired rest) :
      Paired (.Assistant message :: (results.map .ToolResult ++ rest))

/-- A call of a message of the assistant has its result in the same place behind the message. -/
inductive Answered (callId name : String) (isError : Bool) : List Message → Prop
  | here (message : AssistantMessage) (results : List ToolResultMessage) (rest : List Message)
      (place : Nat) (result : ToolResultMessage)
      (answered : results.map (·.callId) = message.calls.map Prod.fst)
      (call : message.calls[place]? = some (callId, name))
      (own : results[place]? = some result) (status : result.isError = isError) :
      Answered callId name isError (.Assistant message :: (results.map .ToolResult ++ rest))
  | later (message : Message) {rest : List Message} (h : Answered callId name isError rest) :
      Answered callId name isError (message :: rest)

/-! ## The checks of the fields -/

/-- What the checks of the fields carry: the bytes of the proofs so far, and the charge. -/
abbrev FieldState := Nat × LogicalCharge

def checkToolCallFields (fields : FieldState) (call : ToolCallBlock) :
    ValidationResult FieldState := do
  trackingId call.callId
  label call.name 128
  let statistics ← validateWireJson call.arguments true
  let charge ← fields.2.string call.callId
  let charge ← charge.string call.name
  let charge ← charge.add statistics.logicalCharge
  return (fields.1, charge)

def checkAssistantBlockFields (selected : CatalogEntry) (fields : FieldState)
    (block : AssistantBlock) : ValidationResult FieldState := do
  let charge ← fields.2.add 4
  match block with
  | .Text text =>
      let charge ← validateText text.text charge
      return (fields.1, charge)
  | .Reasoning reasoning => validateReasoningBlock reasoning selected fields.1 charge
  | .ToolCall call => checkToolCallFields (fields.1, charge) call

def checkToolResultFields (selected : CatalogEntry) (fields : FieldState)
    (result : ToolResultMessage) : ValidationResult FieldState := do
  trackingId result.callId
  validateNonemptyBlocks result.blocks.length
  let charge ← fields.2.string result.callId
  let charge ← charge.add 4
  let charge ← result.blocks.foldlM (validateToolResultBlock selected) charge
  let charge ← charge.add 1
  return (fields.1, charge)

/-- The checks of the fields of one message, without those that compare it with the others. -/
def checkMessageFields (selected : CatalogEntry) (fields : FieldState) (message : Message) :
    ValidationResult FieldState := do
  let charge ← fields.2.add 4
  match message with
  | .User user =>
      validateNonemptyBlocks user.blocks.length
      let charge ← charge.add 4
      let charge ← user.blocks.foldlM (validateUserBlock selected) charge
      return (fields.1, charge)
  | .Assistant assistant =>
      validateNonemptyBlocks assistant.blocks.length
      let charge ← charge.add 4
      assistant.blocks.foldlM (checkAssistantBlockFields selected) (fields.1, charge)
  | .ToolResult result => checkToolResultFields selected (fields.1, charge) result

/-- The checks of the fields of all messages. -/
def checkFields (selected : CatalogEntry) (charge : LogicalCharge) (messages : List Message) :
    ValidationResult FieldState :=
  messages.foldlM (checkMessageFields selected) (0, charge)

/-! ## One message -/

def MessageState.fields (state : MessageState) : FieldState := (state.proofBytes, state.charge)

/-- A state behind calls whose fields have been checked. -/
def MessageState.called (state : MessageState) (calls : List (String × String))
    (fields : FieldState) : MessageState where
  pending := state.pending ++ calls
  callIds := (calls.map Prod.fst).reverse ++ state.callIds
  proofBytes := fields.1
  hasCalls := state.hasCalls || !calls.isEmpty
  matchedToolResults := state.matchedToolResults
  charge := fields.2

/-- Calls are new, and of tools that are defined. -/
def Fresh (definitions callIds : List String) (calls : List (String × String)) : Prop :=
  ((calls.map Prod.fst).reverse ++ callIds).Nodup ∧ ∀ call ∈ calls, call.2 ∈ definitions

section

variable {definitions : List String} {selected : CatalogEntry} {state after : MessageState}

theorem validateToolCall_iff {call : ToolCallBlock} (hnodup : state.callIds.Nodup) :
    validateToolCall definitions state call = .ok after ↔
      ∃ fields, checkToolCallFields state.fields call = .ok fields ∧
        Fresh definitions state.callIds [(call.callId, call.name)] ∧
        after = state.called [(call.callId, call.name)] fields := by
  have hfresh : Fresh definitions state.callIds [(call.callId, call.name)] ↔
      ¬(state.callIds.contains call.callId || !definitions.contains call.name) = true := by
    simp [Fresh, hnodup]
  rw [hfresh]
  unfold validateToolCall checkToolCallFields
  constructor
  · intro h
    obtain ⟨hid, h⟩ := bind_unit_ok.1 h
    obtain ⟨hname, h⟩ := bind_unit_ok.1 h
    split at h
    · cases h
    · rename_i hnew
      obtain ⟨statistics, hjson, h⟩ := bind_ok.1 h
      obtain ⟨first, hfirst, h⟩ := bind_ok.1 h
      obtain ⟨second, hsecond, h⟩ := bind_ok.1 h
      obtain ⟨third, hthird, h⟩ := bind_ok.1 h
      cases h
      refine ⟨(state.proofBytes, third), ?_, hnew, ?_⟩
      · exact bind_unit_ok.2 ⟨hid, bind_unit_ok.2 ⟨hname, bind_ok.2 ⟨statistics, hjson,
          bind_ok.2 ⟨first, hfirst, bind_ok.2 ⟨second, hsecond, bind_ok.2 ⟨third, hthird, rfl⟩⟩⟩⟩⟩⟩
      · simp [MessageState.called]
  · rintro ⟨fields, h, hnew, rfl⟩
    obtain ⟨hid, h⟩ := bind_unit_ok.1 h
    obtain ⟨hname, h⟩ := bind_unit_ok.1 h
    obtain ⟨statistics, hjson, h⟩ := bind_ok.1 h
    obtain ⟨first, hfirst, h⟩ := bind_ok.1 h
    obtain ⟨second, hsecond, h⟩ := bind_ok.1 h
    obtain ⟨third, hthird, h⟩ := bind_ok.1 h
    cases h
    refine bind_unit_ok.2 ⟨hid, bind_unit_ok.2 ⟨hname, ?_⟩⟩
    rw [if_neg hnew]
    refine bind_ok.2 ⟨statistics, hjson, bind_ok.2 ⟨first, hfirst, bind_ok.2 ⟨second, hsecond,
      bind_ok.2 ⟨third, hthird, ?_⟩⟩⟩⟩
    simp [MessageState.called, MessageState.fields, pure, Except.pure]

theorem fresh_nil (hnodup : state.callIds.Nodup) : Fresh definitions state.callIds [] :=
  ⟨hnodup, nofun⟩

theorem called_nil (state : MessageState) (fields : FieldState) :
    state.called [] fields = { state with proofBytes := fields.1, charge := fields.2 } := by
  simp [MessageState.called]

theorem validateAssistantBlock_iff {block : AssistantBlock} (hnodup : state.callIds.Nodup) :
    validateAssistantBlock definitions selected state block = .ok after ↔
      ∃ fields, checkAssistantBlockFields selected state.fields block = .ok fields ∧
        Fresh definitions state.callIds block.calls ∧ after = state.called block.calls fields := by
  cases block with
  | Text text =>
      constructor
      · intro h
        obtain ⟨charge, hcharge, h⟩ := bind_ok.1 h
        obtain ⟨last, hlast, h⟩ := bind_ok.1 h
        refine ⟨(state.proofBytes, last), ?_, fresh_nil hnodup, ?_⟩
        · exact bind_ok.2 ⟨charge, hcharge, bind_ok.2 ⟨last, hlast, rfl⟩⟩
        · rw [← Except.ok.inj h]
          exact (called_nil state (state.proofBytes, last)).symm
      · rintro ⟨fields, h, -, rfl⟩
        obtain ⟨charge, hcharge, h⟩ := bind_ok.1 h
        obtain ⟨last, hlast, h⟩ := bind_ok.1 h
        rw [← Except.ok.inj h]
        exact bind_ok.2 ⟨charge, hcharge, bind_ok.2 ⟨last, hlast,
          congrArg Except.ok (called_nil state (state.proofBytes, last)).symm⟩⟩
  | Reasoning reasoning =>
      constructor
      · intro h
        obtain ⟨charge, hcharge, h⟩ := bind_ok.1 h
        obtain ⟨fields, hfields, h⟩ := bind_ok.1 h
        refine ⟨fields, bind_ok.2 ⟨charge, hcharge, hfields⟩, fresh_nil hnodup, ?_⟩
        rw [← Except.ok.inj h]
        exact (called_nil state fields).symm
      · rintro ⟨fields, h, -, rfl⟩
        obtain ⟨charge, hcharge, hfields⟩ := bind_ok.1 h
        exact bind_ok.2 ⟨charge, hcharge, bind_ok.2 ⟨fields, hfields,
          congrArg Except.ok (called_nil state fields).symm⟩⟩
  | ToolCall call =>
      constructor
      · intro h
        obtain ⟨charge, hcharge, h⟩ := bind_ok.1 h
        obtain ⟨fields, hfields, hfresh, rfl⟩ :=
          (@validateToolCall_iff _ { state with charge := charge } _ _ hnodup).1 h
        exact ⟨fields, bind_ok.2 ⟨charge, hcharge, hfields⟩, hfresh, rfl⟩
      · rintro ⟨fields, h, hfresh, rfl⟩
        obtain ⟨charge, hcharge, hfields⟩ := bind_ok.1 h
        exact bind_ok.2 ⟨charge, hcharge, (@validateToolCall_iff _ { state with charge := charge }
          _ _ hnodup).2 ⟨fields, hfields, hfresh, rfl⟩⟩

theorem fresh_append {callIds : List String} {calls more : List (String × String)} :
    Fresh definitions callIds (calls ++ more) ↔
      Fresh definitions callIds calls ∧
        Fresh definitions ((calls.map Prod.fst).reverse ++ callIds) more := by
  unfold Fresh
  rw [List.map_append, List.reverse_append, List.append_assoc]
  constructor
  · rintro ⟨hnodup, hnames⟩
    exact ⟨⟨hnodup.of_append_right, fun call hcall => hnames call (List.mem_append_left _ hcall)⟩,
      hnodup, fun call hcall => hnames call (List.mem_append_right _ hcall)⟩
  · rintro ⟨⟨-, hfirst⟩, hnodup, hmore⟩
    exact ⟨hnodup, List.forall_mem_append.2 ⟨hfirst, hmore⟩⟩

theorem called_append (state : MessageState) (calls more : List (String × String))
    (fields last : FieldState) :
    (state.called calls fields).called more last = state.called (calls ++ more) last := by
  cases calls <;> simp [MessageState.called]

/-- The blocks of a message of the assistant. -/
theorem validateAssistantBlocks_iff {blocks : List AssistantBlock}
    (hnodup : state.callIds.Nodup) :
    blocks.foldlM (validateAssistantBlock definitions selected) state = .ok after ↔
      ∃ fields, blocks.foldlM (checkAssistantBlockFields selected) state.fields = .ok fields ∧
        Fresh definitions state.callIds (blocks.flatMap (·.calls)) ∧
        after = state.called (blocks.flatMap (·.calls)) fields := by
  induction blocks generalizing state with
  | nil =>
      constructor
      · intro h
        refine ⟨state.fields, rfl, fresh_nil hnodup, ?_⟩
        rw [← Except.ok.inj h]
        exact (called_nil state state.fields).symm
      · rintro ⟨fields, h, -, rfl⟩
        rw [← Except.ok.inj h]
        exact congrArg Except.ok (called_nil state state.fields).symm
  | cons block blocks ih =>
      rw [List.foldlM_cons, List.foldlM_cons, List.flatMap_cons]
      simp only [bind_ok]
      constructor
      · rintro ⟨middle, hmiddle, h⟩
        obtain ⟨fields, hfields, hfresh, rfl⟩ := (validateAssistantBlock_iff hnodup).1 hmiddle
        obtain ⟨last, hlast, hmore, rfl⟩ := (ih hfresh.1).1 h
        exact ⟨last, ⟨fields, hfields, hlast⟩, fresh_append.2 ⟨hfresh, hmore⟩,
          called_append state _ _ fields last⟩
      · rintro ⟨last, ⟨fields, hfields, hlast⟩, hfresh, rfl⟩
        obtain ⟨hfirst, hmore⟩ := fresh_append.1 hfresh
        refine ⟨state.called block.calls fields,
          (validateAssistantBlock_iff hnodup).2 ⟨fields, hfields, hfirst, rfl⟩, ?_⟩
        exact (ih hfirst.1).2 ⟨last, hlast, hmore, (called_append state _ _ fields last).symm⟩

end

/-! ## The queue -/

/-- A message that may stand behind the calls that wait. -/
def Admits (pending : List (String × String)) : Message → Prop
  | .ToolResult result => pending.head?.map Prod.fst = some result.callId
  | _ => pending = []

/-- The matched results of a state are those of the calls that do not wait any more. -/
structure Matched (state : MessageState) : Prop where
  ids : state.callIds.reverse =
    (state.matchedToolResults.map Prod.fst).reverse ++ state.pending.map Prod.fst
  distinct : state.callIds.Nodup

/-- The state behind a message whose fields have been checked. -/
def MessageState.behind (state : MessageState) (message : Message) (fields : FieldState) :
    MessageState where
  pending := (matchMessage state.results message).1
  callIds := (message.calls.map Prod.fst).reverse ++ state.callIds
  proofBytes := fields.1
  hasCalls := state.hasCalls || !message.calls.isEmpty
  matchedToolResults := (matchMessage state.results message).2
  charge := fields.2

section

variable {definitions : List String} {selected : CatalogEntry} {state after : MessageState}

/-- The id of a call that waits has no result yet. -/
theorem Matched.unanswered (hmatched : Matched state) {call : String × String}
    (hcall : call ∈ state.pending) : state.matchedToolResults.any (·.1 == call.1) = false := by
  have hnodup := List.nodup_reverse.2 hmatched.distinct
  rw [hmatched.ids] at hnodup
  rw [List.any_eq_false]
  intro result hresult heq
  have hid : result.1 ∈ (state.matchedToolResults.map Prod.fst).reverse :=
    List.mem_reverse.2 (List.mem_map_of_mem hresult)
  refine List.disjoint_of_nodup_append hnodup hid ?_
  rw [beq_iff_eq.1 heq]
  exact List.mem_map_of_mem hcall

theorem Matched.behind {message : Message} {fields : FieldState} (hmatched : Matched state)
    (hadmits : Admits state.pending message)
    (hfresh : Fresh definitions state.callIds message.calls) :
    Matched (state.behind message fields) := by
  refine ⟨?_, hfresh.1⟩
  have hids := hmatched.ids
  cases message with
  | User user =>
      simpa [MessageState.behind, Message.calls, matchMessage, MessageState.results] using hids
  | Assistant message =>
      simp [MessageState.behind, Message.calls, AssistantMessage.calls, matchMessage,
        MessageState.results, hids]
  | ToolResult result =>
      unfold Admits at hadmits
      cases hpending : state.pending with
      | nil =>
          rw [hpending] at hadmits
          cases hadmits
      | cons call pending =>
          simp [MessageState.behind, Message.calls, matchMessage, MessageState.results, hpending,
            hids]

theorem behind_toolResult {result : ToolResultMessage} {callId name : String}
    {pending : List (String × String)} (hpending : state.pending = (callId, name) :: pending)
    (fields : FieldState) :
    state.behind (.ToolResult result) fields =
      { state with
        pending := pending
        proofBytes := fields.1
        matchedToolResults :=
          (callId, ⟨callId, name, resultStatus result.isError⟩) :: state.matchedToolResults
        charge := fields.2 } := by
  unfold MessageState.behind MessageState.results
  rw [hpending]
  simp [Message.calls, matchMessage]

theorem validateToolResult_iff {result : ToolResultMessage} (hmatched : Matched state) :
    validateToolResult selected state result = .ok after ↔
      ∃ fields, checkToolResultFields selected state.fields result = .ok fields ∧
        Admits state.pending (.ToolResult result) ∧
        after = state.behind (.ToolResult result) fields := by
  unfold validateToolResult checkToolResultFields Admits
  cases hpending : state.pending with
  | nil =>
      constructor
      · intro h
        cases h
      · rintro ⟨fields, -, h, -⟩
        cases h
  | cons call pending =>
      obtain ⟨callId, name⟩ := call
      have hnew : state.matchedToolResults.any (·.1 == callId) = false :=
        hmatched.unanswered (show (callId, name) ∈ state.pending by simp [hpending])
      constructor
      · intro h
        dsimp only at h
        split at h
        · cases h
        · rename_i hid
          obtain ⟨htracking, h⟩ := bind_unit_ok.1 h
          obtain ⟨hblocks, h⟩ := bind_unit_ok.1 h
          obtain ⟨first, hfirst, h⟩ := bind_ok.1 h
          obtain ⟨second, hsecond, h⟩ := bind_ok.1 h
          obtain ⟨third, hthird, h⟩ := bind_ok.1 h
          obtain ⟨last, hlast, h⟩ := bind_ok.1 h
          rw [if_neg (by simp [hnew])] at h
          refine ⟨(state.proofBytes, last), ?_, ?_, ?_⟩
          · exact bind_unit_ok.2 ⟨htracking, bind_unit_ok.2 ⟨hblocks, bind_ok.2 ⟨first, hfirst,
              bind_ok.2 ⟨second, hsecond, bind_ok.2 ⟨third, hthird,
                bind_ok.2 ⟨last, hlast, rfl⟩⟩⟩⟩⟩⟩
          · exact congrArg some (by simpa using hid : result.callId = callId).symm
          · rw [← Except.ok.inj h]
            exact (behind_toolResult hpending (state.proofBytes, last)).symm
      · rintro ⟨fields, h, hid, rfl⟩
        obtain ⟨htracking, h⟩ := bind_unit_ok.1 h
        obtain ⟨hblocks, h⟩ := bind_unit_ok.1 h
        obtain ⟨first, hfirst, h⟩ := bind_ok.1 h
        obtain ⟨second, hsecond, h⟩ := bind_ok.1 h
        obtain ⟨third, hthird, h⟩ := bind_ok.1 h
        obtain ⟨last, hlast, h⟩ := bind_ok.1 h
        have hid : callId = result.callId := by simpa using hid
        dsimp only
        rw [if_neg (by simp [hid])]
        refine bind_unit_ok.2 ⟨htracking, bind_unit_ok.2 ⟨hblocks, bind_ok.2 ⟨first, hfirst,
          bind_ok.2 ⟨second, hsecond, bind_ok.2 ⟨third, hthird, bind_ok.2 ⟨last, hlast, ?_⟩⟩⟩⟩⟩⟩
        rw [if_neg (by simp [hnew]), ← Except.ok.inj h]
        exact congrArg Except.ok (behind_toolResult hpending (state.proofBytes, last)).symm

theorem behind_pass {message : Message} (fields : FieldState)
    (hmessage : matchMessage state.results message =
      (state.pending ++ message.calls, state.matchedToolResults)) :
    state.behind message fields = state.called message.calls fields := by
  unfold MessageState.behind MessageState.called
  rw [hmessage]

/-- What is accepted of a message: its fields, new calls, and its place in the queue. -/
theorem validateMessage_iff {message : Message} (hmatched : Matched state) :
    validateMessage definitions selected state message = .ok after ↔
      ∃ fields, checkMessageFields selected state.fields message = .ok fields ∧
        Fresh definitions state.callIds message.calls ∧ Admits state.pending message ∧
        after = state.behind message fields := by
  have hnodup := hmatched.distinct
  unfold validateMessage checkMessageFields
  cases message with
  | User user =>
      have hbehind (fields : FieldState) : state.behind (.User user) fields = state.called [] fields :=
        behind_pass fields (by simp [matchMessage, Message.calls, MessageState.results])
      constructor
      · intro h
        obtain ⟨charge, hcharge, h⟩ := bind_ok.1 h
        dsimp only at h
        split at h
        · cases h
        · rename_i hpending
          obtain ⟨hblocks, h⟩ := bind_unit_ok.1 h
          obtain ⟨second, hsecond, h⟩ := bind_ok.1 h
          obtain ⟨third, hthird, h⟩ := bind_ok.1 h
          refine ⟨(state.proofBytes, third), ?_, fresh_nil hnodup, ?_, ?_⟩
          · exact bind_ok.2 ⟨charge, hcharge, bind_unit_ok.2 ⟨hblocks,
              bind_ok.2 ⟨second, hsecond, bind_ok.2 ⟨third, hthird, rfl⟩⟩⟩⟩
          · show state.pending = []
            simpa using hpending
          · rw [← Except.ok.inj h, hbehind, called_nil]
      · rintro ⟨fields, h, -, hpending, rfl⟩
        obtain ⟨charge, hcharge, h⟩ := bind_ok.1 h
        obtain ⟨hblocks, h⟩ := bind_unit_ok.1 h
        obtain ⟨second, hsecond, h⟩ := bind_ok.1 h
        obtain ⟨third, hthird, h⟩ := bind_ok.1 h
        have hpending : state.pending = [] := hpending
        refine bind_ok.2 ⟨charge, hcharge, ?_⟩
        dsimp only
        rw [if_neg (by simp [hpending])]
        refine bind_unit_ok.2 ⟨hblocks, bind_ok.2 ⟨second, hsecond, bind_ok.2 ⟨third, hthird, ?_⟩⟩⟩
        rw [← Except.ok.inj h, hbehind, called_nil]
        rfl
  | Assistant assistant =>
      have hbehind (fields : FieldState) : state.behind (.Assistant assistant) fields =
          state.called assistant.calls fields :=
        behind_pass fields rfl
      constructor
      · intro h
        obtain ⟨charge, hcharge, h⟩ := bind_ok.1 h
        dsimp only at h
        split at h
        · cases h
        · rename_i hpending
          obtain ⟨hblocks, h⟩ := bind_unit_ok.1 h
          obtain ⟨second, hsecond, h⟩ := bind_ok.1 h
          obtain ⟨fields, hfields, hfresh, rfl⟩ :=
            (@validateAssistantBlocks_iff _ _ { state with charge := second } _ _ hnodup).1 h
          refine ⟨fields, ?_, hfresh, ?_, (hbehind fields).symm⟩
          · exact bind_ok.2 ⟨charge, hcharge, bind_unit_ok.2 ⟨hblocks,
              bind_ok.2 ⟨second, hsecond, hfields⟩⟩⟩
          · show state.pending = []
            simpa using hpending
      · rintro ⟨fields, h, hfresh, hpending, rfl⟩
        obtain ⟨charge, hcharge, h⟩ := bind_ok.1 h
        obtain ⟨hblocks, h⟩ := bind_unit_ok.1 h
        obtain ⟨second, hsecond, hfields⟩ := bind_ok.1 h
        have hpending : state.pending = [] := hpending
        refine bind_ok.2 ⟨charge, hcharge, ?_⟩
        dsimp only
        rw [if_neg (by simp [hpending])]
        refine bind_unit_ok.2 ⟨hblocks, bind_ok.2 ⟨second, hsecond, ?_⟩⟩
        exact (@validateAssistantBlocks_iff _ _ { state with charge := second } _ _ hnodup).2
          ⟨fields, hfields, hfresh, hbehind fields⟩
  | ToolResult result =>
      constructor
      · intro h
        obtain ⟨charge, hcharge, h⟩ := bind_ok.1 h
        obtain ⟨fields, hfields, hadmits, rfl⟩ := (@validateToolResult_iff _
          { state with charge := charge } _ _ ⟨hmatched.ids, hnodup⟩).1 h
        exact ⟨fields, bind_ok.2 ⟨charge, hcharge, hfields⟩, fresh_nil hnodup, hadmits, rfl⟩
      · rintro ⟨fields, h, -, hadmits, rfl⟩
        obtain ⟨charge, hcharge, hfields⟩ := bind_ok.1 h
        exact bind_ok.2 ⟨charge, hcharge, (@validateToolResult_iff _
          { state with charge := charge } _ _ ⟨hmatched.ids, hnodup⟩).2
            ⟨fields, hfields, hadmits, rfl⟩⟩

end

/-! ## A conversation -/

/-- The messages that may stand behind the calls that wait, until no call waits. -/
def Drains : List (String × String) → List Message → Prop
  | pending, [] => pending = []
  | pending, message :: messages =>
      Admits pending message ∧ Drains (matchMessage (pending, []) message).1 messages

theorem matchMessage_pending (pending : List (String × String)) (results : MatchedToolResults)
    (message : Message) :
    (matchMessage (pending, results) message).1 = (matchMessage (pending, []) message).1 := by
  cases message with
  | User user => rfl
  | Assistant message => rfl
  | ToolResult result => cases pending <;> rfl

/-- The loop ends with an empty queue exactly if every message fits behind those before it. -/
theorem validateMessages_run {definitions : List String} {selected : CatalogEntry}
    {messages : List Message} {state : MessageState} (hmatched : Matched state) :
    (∃ after, messages.foldlM (validateMessage definitions selected) state = .ok after ∧
        Matched after ∧ after.pending = []) ↔
      (∃ fields, messages.foldlM (checkMessageFields selected) state.fields = .ok fields) ∧
        Fresh definitions state.callIds (callsOf messages) ∧ Drains state.pending messages := by
  induction messages generalizing state with
  | nil =>
      constructor
      · rintro ⟨after, h, -, hpending⟩
        rw [← Except.ok.inj h] at hpending
        exact ⟨⟨state.fields, rfl⟩, fresh_nil hmatched.distinct, hpending⟩
      · rintro ⟨-, -, hpending⟩
        exact ⟨state, rfl, hmatched, hpending⟩
  | cons message messages ih =>
      have hcalls : callsOf (message :: messages) = message.calls ++ callsOf messages := rfl
      rw [hcalls, fresh_append]
      simp only [List.foldlM_cons]
      constructor
      · rintro ⟨after, h, hafter⟩
        obtain ⟨middle, hmiddle, h⟩ := bind_ok.1 h
        obtain ⟨fields, hfields, hfresh, hadmits, rfl⟩ := (validateMessage_iff hmatched).1 hmiddle
        obtain ⟨⟨last, hlast⟩, hmore, hdrains⟩ :=
          (ih (hmatched.behind hadmits hfresh)).1 ⟨after, h, hafter⟩
        refine ⟨⟨last, bind_ok.2 ⟨fields, hfields, hlast⟩⟩, ⟨hfresh, hmore⟩, hadmits, ?_⟩
        rw [← matchMessage_pending _ state.matchedToolResults]
        exact hdrains
      · rintro ⟨⟨last, h⟩, ⟨hfresh, hmore⟩, hadmits, hdrains⟩
        obtain ⟨fields, hfields, hlast⟩ := bind_ok.1 h
        rw [← matchMessage_pending _ state.matchedToolResults] at hdrains
        obtain ⟨after, hrun, hafter⟩ :=
          (ih (@Matched.behind _ _ _ fields hmatched hadmits hfresh)).2
            ⟨⟨last, hlast⟩, hmore, hdrains⟩
        exact ⟨after, bind_ok.2 ⟨_, (validateMessage_iff hmatched).2
          ⟨fields, hfields, hfresh, hadmits, rfl⟩, hrun⟩, hafter⟩

/-- The calls that wait are answered first, and then the conversation is one of its own. -/
theorem drains_iff {pending : List (String × String)} {messages : List Message} :
    Drains pending messages ↔
      ∃ (results : List ToolResultMessage) (rest : List Message),
        messages = results.map .ToolResult ++ rest ∧
          results.map (·.callId) = pending.map Prod.fst ∧ Paired rest := by
  induction messages generalizing pending with
  | nil =>
      constructor
      · intro h
        have hpending : pending = [] := h
        exact ⟨[], [], rfl, by simp [hpending], .nil⟩
      · rintro ⟨results, rest, hmessages, hids, -⟩
        have hresults : results = [] := by
          have hboth := List.append_eq_nil_iff.1 hmessages.symm
          exact List.map_eq_nil_iff.1 hboth.1
        rw [hresults] at hids
        exact List.map_eq_nil_iff.1 hids.symm
  | cons message messages ih =>
      cases message with
      | User user =>
          constructor
          · rintro ⟨hadmits, hdrains⟩
            have hpending : pending = [] := hadmits
            subst hpending
            obtain ⟨results, rest, rfl, hids, hpaired⟩ := ih.1 hdrains
            have hresults : results = [] := List.map_eq_nil_iff.1 hids
            subst hresults
            exact ⟨[], _, rfl, rfl, .user user hpaired⟩
          · rintro ⟨results, rest, hmessages, hids, hpaired⟩
            cases results with
            | cons result results => cases hmessages
            | nil =>
                have hpending : pending = [] := List.map_eq_nil_iff.1 hids.symm
                subst hpending
                have hrest : .User user :: messages = rest := hmessages
                subst hrest
                cases hpaired with
                | user _ hpaired => exact ⟨rfl, ih.2 ⟨[], messages, rfl, rfl, hpaired⟩⟩
      | Assistant assistant =>
          constructor
          · rintro ⟨hadmits, hdrains⟩
            have hpending : pending = [] := hadmits
            subst hpending
            obtain ⟨results, rest, rfl, hids, hpaired⟩ := ih.1 hdrains
            exact ⟨[], _, rfl, rfl, .turn assistant results hids hpaired⟩
          · rintro ⟨results, rest, hmessages, hids, hpaired⟩
            cases results with
            | cons result results => cases hmessages
            | nil =>
                have hpending : pending = [] := List.map_eq_nil_iff.1 hids.symm
                subst hpending
                have hrest : .Assistant assistant :: messages = rest := hmessages
                subst hrest
                cases hpaired with
                | turn _ results answered hpaired =>
                    exact ⟨rfl, ih.2 ⟨results, _, rfl, answered, hpaired⟩⟩
      | ToolResult result =>
          constructor
          · rintro ⟨hadmits, hdrains⟩
            cases pending with
            | nil => cases hadmits
            | cons call pending =>
                obtain ⟨results, rest, rfl, hids, hpaired⟩ := ih.1 hdrains
                have hid : call.1 = result.callId := Option.some.inj hadmits
                exact ⟨result :: results, rest, rfl, by rw [List.map_cons, hids, ← hid]; rfl, hpaired⟩
          · rintro ⟨results, rest, hmessages, hids, hpaired⟩
            cases results with
            | nil =>
                have hrest : .ToolResult result :: messages = rest := hmessages
                subst hrest
                cases hpaired
            | cons first results =>
                cases pending with
                | nil => cases hids
                | cons call pending =>
                    obtain ⟨hresult, htail⟩ := List.cons.inj hmessages
                    cases hresult
                    subst htail
                    have hid : result.callId = call.1 := (List.cons.inj hids).1
                    exact ⟨congrArg some hid.symm,
                      ih.2 ⟨results, rest, rfl, (List.cons.inj hids).2, hpaired⟩⟩

theorem paired_iff_drains {messages : List Message} : Paired messages ↔ Drains [] messages := by
  rw [drains_iff]
  constructor
  · intro h
    exact ⟨[], messages, rfl, rfl, h⟩
  · rintro ⟨results, rest, rfl, hids, hpaired⟩
    rw [List.map_eq_nil_iff.1 hids]
    exact hpaired

/-! ## The matched results -/

/-- The entry of a call and of the result that answers it. -/
def matchedEntry (call : String × String) (result : ToolResultMessage) :
    String × MatchedToolResult :=
  (call.1, ⟨call.1, call.2, resultStatus result.isError⟩)

/-- The results behind a message, one for each call. -/
theorem matchMessage_results {pending : List (String × String)}
    {results : List ToolResultMessage} (matched : MatchedToolResults)
    (hids : results.map (·.callId) = pending.map Prod.fst) :
    (results.map Message.ToolResult).foldl matchMessage (pending, matched) =
      ([], (List.zipWith matchedEntry pending results).reverse ++ matched) := by
  induction results generalizing pending matched with
  | nil =>
      have hpending : pending = [] := List.map_eq_nil_iff.1 hids.symm
      subst hpending
      rfl
  | cons result results ih =>
      cases pending with
      | nil => cases hids
      | cons call pending =>
          rw [List.map_cons, List.foldl_cons, List.zipWith_cons_cons, List.reverse_cons,
            List.append_assoc]
          exact ih _ (List.cons.inj hids).2

theorem answered_results {callId name : String} {isError : Bool}
    {results : List ToolResultMessage} {rest : List Message} :
    Answered callId name isError (results.map .ToolResult ++ rest) ↔
      Answered callId name isError rest := by
  induction results with
  | nil => exact Iff.rfl
  | cons result results ih =>
      rw [← ih]
      constructor
      · intro h
        cases h with
        | later _ h => exact h
      · intro h
        exact .later _ h

/-- The entries of one message are those of the calls in their places. -/
theorem mem_entries {calls : List (String × String)} {results : List ToolResultMessage}
    {callId : String} {matched : MatchedToolResult} :
    (callId, matched) ∈ List.zipWith matchedEntry calls results ↔
      ∃ (name : String) (isError : Bool) (place : Nat) (result : ToolResultMessage),
        calls[place]? = some (callId, name) ∧
        results[place]? = some result ∧ result.isError = isError ∧
        matched = ⟨callId, name, resultStatus isError⟩ := by
  rw [List.mem_iff_getElem?]
  constructor
  · rintro ⟨place, h⟩
    obtain ⟨⟨id, name⟩, result, hcall, hresult, heq⟩ := List.getElem?_zipWith_eq_some.1 h
    cases heq
    exact ⟨name, result.isError, place, result, hcall, hresult, rfl, rfl⟩
  · rintro ⟨name, isError, place, result, hcall, hresult, rfl, rfl⟩
    exact ⟨place, List.getElem?_zipWith_eq_some.2 ⟨_, result, hcall, hresult, rfl⟩⟩

/-- A result behind a message of the assistant answers one of its calls, or a later one. -/
theorem answered_assistant {callId name : String} {isError : Bool} {message : AssistantMessage}
    {results : List ToolResultMessage} {rest : List Message}
    (hids : results.map (·.callId) = message.calls.map Prod.fst) :
    Answered callId name isError (.Assistant message :: (results.map .ToolResult ++ rest)) ↔
      (∃ (place : Nat) (result : ToolResultMessage),
        message.calls[place]? = some (callId, name) ∧
          results[place]? = some result ∧ result.isError = isError) ∨
      Answered callId name isError rest := by
  constructor
  · intro h
    generalize hmessages : Message.Assistant message :: (results.map .ToolResult ++ rest) = messages
      at h
    cases h with
    | here other others after place result answered hcall hown hstatus =>
        obtain ⟨hmessage, htail⟩ := List.cons.inj hmessages
        cases hmessage
        have hlength : (results.map Message.ToolResult).length =
            (others.map Message.ToolResult).length := by
          have hcount := congrArg List.length (hids.trans answered.symm)
          simpa using hcount
        have hsame := (List.append_inj htail hlength).1
        rw [List.map_inj_right (fun _ _ h => Message.ToolResult.inj h)] at hsame
        subst hsame
        exact Or.inl ⟨place, result, hcall, hown, hstatus⟩
    | later first h =>
        obtain ⟨-, htail⟩ := List.cons.inj hmessages
        subst htail
        exact Or.inr (answered_results.1 h)
  · rintro (⟨place, result, hcall, hown, hstatus⟩ | h)
    · exact .here message results rest place result hids hcall hown hstatus
    · exact .later _ (answered_results.2 h)

/-- What is matched is what is answered. -/
theorem mem_matchMessages {messages : List Message} {matched : MatchedToolResults}
    (hpaired : Paired messages) {callId : String} {result : MatchedToolResult} :
    (callId, result) ∈ (messages.foldl matchMessage ([], matched)).2 ↔
      (callId, result) ∈ matched ∨ ∃ name isError, Answered callId name isError messages ∧
        result = ⟨callId, name, resultStatus isError⟩ := by
  induction hpaired generalizing matched with
  | nil =>
      constructor
      · exact Or.inl
      · rintro (h | ⟨name, isError, h, -⟩)
        · exact h
        · cases h
  | user message hrest ih =>
      rw [List.foldl_cons]
      refine ih.trans (or_congr_right ?_)
      constructor
      · rintro ⟨name, isError, h, hresult⟩
        exact ⟨name, isError, .later _ h, hresult⟩
      · rintro ⟨name, isError, h, hresult⟩
        cases h with
        | later _ h => exact ⟨name, isError, h, hresult⟩
  | turn message results answered hrest ih =>
      have hstart : matchMessage ([], matched) (.Assistant message) = (message.calls, matched) := rfl
      rw [List.foldl_cons, List.foldl_append, hstart, matchMessage_results matched answered, ih,
        List.mem_append, List.mem_reverse, mem_entries, or_assoc, or_left_comm]
      refine or_congr_right ?_
      constructor
      · rintro (⟨name, isError, place, own, hcall, hown, hstatus, hresult⟩ |
          ⟨name, isError, h, hresult⟩)
        · exact ⟨name, isError, .here message results _ place own answered hcall hown hstatus,
            hresult⟩
        · exact ⟨name, isError, (answered_assistant answered).2 (Or.inr h), hresult⟩
      · rintro ⟨name, isError, h, hresult⟩
        cases (answered_assistant answered).1 h with
        | inl hhere =>
            obtain ⟨place, own, hcall, hown, hstatus⟩ := hhere
            exact Or.inl ⟨name, isError, place, own, hcall, hown, hstatus, hresult⟩
        | inr h => exact Or.inr ⟨name, isError, h, hresult⟩

/-- Every call of a conversation is answered. -/
theorem Paired.answers {messages : List Message} (hpaired : Paired messages)
    {call : String × String} (hcall : call ∈ callsOf messages) :
    ∃ isError, Answered call.1 call.2 isError messages := by
  induction hpaired with
  | nil => cases hcall
  | user message hrest ih =>
      obtain ⟨isError, h⟩ := ih hcall
      exact ⟨isError, .later _ h⟩
  | turn message results answered hrest ih =>
      have hcalls : callsOf (results.map .ToolResult) = [] := by
        simp [callsOf, Message.calls]
      unfold callsOf at hcall hcalls
      rw [List.flatMap_cons, List.flatMap_append, hcalls, List.nil_append,
        List.mem_append] at hcall
      cases hcall with
      | inl hcall =>
          obtain ⟨place, hplace⟩ := List.mem_iff_getElem?.1 hcall
          have hplace : message.calls[place]? = some call := hplace
          have hlength := congrArg List.length answered
          simp only [List.length_map] at hlength
          have hbound : place < results.length := by
            rw [hlength]
            exact (List.getElem?_eq_some_iff.1 hplace).1
          exact ⟨_, .here message results _ place _ answered hplace
            (List.getElem?_eq_getElem hbound) rfl⟩
      | inr hcall =>
          obtain ⟨isError, h⟩ := ih hcall
          exact ⟨isError, .later _ (answered_results.2 h)⟩

/-- The run of a conversation that is accepted. -/
theorem validateMessages_ok {messages : List Message} {definitions : List String}
    {selected : CatalogEntry} {charge : LogicalCharge} {state : MessageState} :
    validateMessages messages definitions selected charge = .ok state ↔
      messages.foldlM (validateMessage definitions selected) ⟨[], [], 0, false, [], charge⟩ =
        .ok state ∧ state.pending = [] := by
  unfold validateMessages
  rw [bind_ok]
  constructor
  · rintro ⟨last, hlast, h⟩
    split at h
    · cases h
    · rename_i hpending
      rw [← Except.ok.inj h]
      exact ⟨hlast, by simpa using hpending⟩
  · rintro ⟨hlast, hpending⟩
    refine ⟨state, hlast, ?_⟩
    rw [hpending]
    rfl

/-- The last state is matched, since each one before it is. -/
theorem matched_run {definitions : List String} {selected : CatalogEntry}
    {messages : List Message} {state after : MessageState} (hmatched : Matched state)
    (h : messages.foldlM (validateMessage definitions selected) state = .ok after) :
    Matched after := by
  induction messages generalizing state with
  | nil =>
      rw [← Except.ok.inj h]
      exact hmatched
  | cons message messages ih =>
      rw [List.foldlM_cons] at h
      obtain ⟨middle, hmiddle, h⟩ := bind_ok.1 h
      obtain ⟨fields, -, hfresh, hadmits, rfl⟩ := (validateMessage_iff hmatched).1 hmiddle
      exact ih (hmatched.behind hadmits hfresh) h

theorem matched_start (charge : LogicalCharge) : Matched ⟨[], [], 0, false, [], charge⟩ :=
  ⟨rfl, List.nodup_nil⟩

/-- A conversation is accepted if and only if its fields are, no id is that of two calls, every
called tool is defined, and every message of the assistant is followed by the results of its
calls. -/
theorem validateMessages_accepts (messages : List Message) (definitions : List String)
    (selected : CatalogEntry) (charge : LogicalCharge) :
    (validateMessages messages definitions selected charge).isOk = true ↔
      (checkFields selected charge messages).isOk = true ∧
        ((callsOf messages).map Prod.fst).Nodup ∧
        (∀ call ∈ callsOf messages, call.2 ∈ definitions) ∧ Paired messages := by
  have hstart := matched_start charge
  have hrun := @validateMessages_run definitions selected messages _ hstart
  have hfresh : Fresh definitions [] (callsOf messages) ↔ ((callsOf messages).map Prod.fst).Nodup ∧
      ∀ call ∈ callsOf messages, call.2 ∈ definitions := by
    unfold Fresh
    rw [List.append_nil, List.nodup_reverse]
  rw [isOk_true, isOk_true, paired_iff_drains, ← and_assoc (a := (List.Nodup _)), ← hfresh]
  refine Iff.trans ?_ hrun
  constructor
  · rintro ⟨state, h⟩
    obtain ⟨hlast, hpending⟩ := validateMessages_ok.1 h
    exact ⟨state, hlast, matched_run hstart hlast, hpending⟩
  · rintro ⟨state, hlast, -, hpending⟩
    exact ⟨state, validateMessages_ok.2 ⟨hlast, hpending⟩⟩

/-- A lookup in a table with distinct keys finds its entries. -/
theorem find?_key_eq_some {table : MatchedToolResults} (hkeys : (table.map Prod.fst).Nodup)
    {callId : String} {result : MatchedToolResult} :
    table.find? (·.1 == callId) = some (callId, result) ↔ (callId, result) ∈ table := by
  constructor
  · exact List.mem_of_find?_eq_some
  · intro hmem
    induction table with
    | nil => cases hmem
    | cons entry table ih =>
        obtain ⟨hnew, hkeys⟩ := List.nodup_cons.1 hkeys
        cases hmem with
        | head => simp
        | tail _ hmem =>
            have hother : entry.1 ≠ callId := by
              intro heq
              rw [heq] at hnew
              exact hnew (List.mem_map_of_mem hmem)
            rw [List.find?_cons_of_neg (by simpa using hother)]
            exact ih hkeys hmem

/-- The results of a conversation that is accepted. -/
theorem validateMessages_maps {messages : List Message} {definitions : List String}
    {selected : CatalogEntry} {charge : LogicalCharge} {state : MessageState}
    (h : validateMessages messages definitions selected charge = .ok state)
    (callId : String) (result : MatchedToolResult) :
    state.matchedToolResults.find? (·.1 == callId) = some (callId, result) ↔
      ∃ name isError, Answered callId name isError messages ∧
        result = ⟨callId, name, resultStatus isError⟩ := by
  have hpaired : Paired messages :=
    ((validateMessages_accepts messages definitions selected charge).1
      (isOk_true.2 ⟨state, h⟩)).2.2.2
  obtain ⟨hlast, hpending⟩ := validateMessages_ok.1 h
  have hmatched := matched_run (matched_start charge) hlast
  have hkeys : (state.matchedToolResults.map Prod.fst).Nodup := by
    have hnodup := List.nodup_reverse.2 hmatched.distinct
    rw [hmatched.ids, hpending, List.map_nil, List.append_nil] at hnodup
    exact List.nodup_reverse.1 hnodup
  have hmem : (callId, result) ∈ state.matchedToolResults ↔
      ∃ name isError, Answered callId name isError messages ∧
        result = ⟨callId, name, resultStatus isError⟩ := by
    rw [validateMessages_results h]
    unfold matchMessages
    rw [mem_matchMessages hpaired]
    simp
  rw [← hmem]
  exact find?_key_eq_some hkeys

/-- What is accepted, and what the results of an accepted conversation are. -/
theorem validateMessages_matches (messages : List Message) (definitions : List String)
    (selected : CatalogEntry) (charge : LogicalCharge) :
    ((validateMessages messages definitions selected charge).isOk = true ↔
      (checkFields selected charge messages).isOk = true ∧
        ((callsOf messages).map Prod.fst).Nodup ∧
        (∀ call ∈ callsOf messages, call.2 ∈ definitions) ∧ Paired messages) ∧
    ∀ state, validateMessages messages definitions selected charge = .ok state →
      (∀ call ∈ callsOf messages, ∃ isError, Answered call.1 call.2 isError messages) ∧
      ∀ callId result,
        state.matchedToolResults.find? (·.1 == callId) = some (callId, result) ↔
          ∃ name isError, Answered callId name isError messages ∧
            result = ⟨callId, name, resultStatus isError⟩ := by
  have haccepts := validateMessages_accepts messages definitions selected charge
  refine ⟨haccepts, fun state h => ⟨fun call hcall => ?_, validateMessages_maps h⟩⟩
  have hpaired := (haccepts.1 (isOk_true.2 ⟨state, h⟩)).2.2.2
  exact hpaired.answers hcall

/-- A turn with two calls, and the results of both. -/
def twoCalls : List Message :=
  [.User ⟨[.Text ⟨"text"⟩]⟩,
    .Assistant ⟨[.ToolCall ⟨"a", "tool", ⟨0, [.ObjectValue []]⟩⟩,
      .ToolCall ⟨"b", "tool", ⟨0, [.ObjectValue []]⟩⟩]⟩,
    .ToolResult ⟨"a", [.Text ⟨"text"⟩], false⟩, .ToolResult ⟨"b", [.Text ⟨"text"⟩], true⟩]

def textEntry : CatalogEntry where
  selection := .Exact "model"
  currentModel := "model"
  displayName := none
  inputModalities := [.Text]
  toolCapability := ⟨.Supported, .Supported, .Supported, .Supported⟩
  reasoningCapability := ⟨.Unsupported, .Unsupported, .Unsupported, .Unsupported⟩
  contextTokens := none
  maxOutputTokens := none
  completionOperation := "complete"

/-- The second call of a turn is mapped to the second result. -/
theorem validateMessages_matches_twoCalls :
    ∃ state, validateMessages twoCalls ["tool"] textEntry (.new 4096) = .ok state ∧
      state.matchedToolResults.find? (·.1 == "b") = some ("b", ⟨"b", "tool", .Error⟩) := by
  have hmatches := validateMessages_matches twoCalls ["tool"] textEntry (.new 4096)
  obtain ⟨state, h⟩ := isOk_true.1 (show (validateMessages twoCalls ["tool"]
    textEntry (.new 4096)).isOk = true by decide +kernel)
  have hanswered : Answered "b" "tool" true twoCalls :=
    .later _ (.here _ [⟨"a", [.Text ⟨"text"⟩], false⟩, ⟨"b", [.Text ⟨"text"⟩], true⟩] [] 1 _ rfl rfl
      rfl rfl)
  exact ⟨state, h, ((hmatches.2 state h).2 "b" _).2 ⟨"tool", true, hanswered, rfl⟩⟩

end MCode.Adapter
