import MCode.Adapter.Prepare

/-!
# Source debts

Every occurrence of a value in a request has a name, and the evaluation of a
contract takes each of them at most once.  The names are those that the source
formats.
-/

namespace MCode.Adapter

/-- The occurrences outside system texts, tools and messages. -/
inductive RequestDebt where
  | selectionVariant
  | selectionPayload
  | selectionKind
  | systemCollection
  | messagesCollection
  | toolsCollection
  | toolChoiceVariant
  | toolChoiceKind
  | toolChoiceName
  | reasoningVariant
  | reasoningKind
  | reasoningEffort
  | reasoningBudget
  | cacheVariant
  | cacheKind
  | maxOutput
  deriving DecidableEq, Repr

def RequestDebt.name : RequestDebt → String
  | .selectionVariant => "selection.variant"
  | .selectionPayload => "selection.payload"
  | .selectionKind => "selection.kind"
  | .systemCollection => "system.collection"
  | .messagesCollection => "messages.collection"
  | .toolsCollection => "tools.collection"
  | .toolChoiceVariant => "tool-choice.variant"
  | .toolChoiceKind => "tool-choice.kind"
  | .toolChoiceName => "tool-choice.name"
  | .reasoningVariant => "reasoning.variant"
  | .reasoningKind => "reasoning.kind"
  | .reasoningEffort => "reasoning.effort"
  | .reasoningBudget => "reasoning.budget"
  | .cacheVariant => "cache.variant"
  | .cacheKind => "cache.kind"
  | .maxOutput => "max-output"

inductive ToolDebt where
  | name
  | description
  | schema
  deriving DecidableEq, Repr

def ToolDebt.label : ToolDebt → String
  | .name => "name"
  | .description => "description"
  | .schema => "schema"

inductive MessageDebt where
  | variant
  | role
  | blocks
  | callId
  | status
  | resultName
  deriving DecidableEq, Repr

def MessageDebt.label : MessageDebt → String
  | .variant => "variant"
  | .role => "role"
  | .blocks => "blocks"
  | .callId => "call-id"
  | .status => "status"
  | .resultName => "result-name"

inductive BlockDebt where
  | variant
  | kind
  | text
  | bytes
  | media
  | width
  | height
  | frames
  | reasoningKind
  | proof
  | callId
  | callName
  | arguments
  deriving DecidableEq, Repr

def BlockDebt.label : BlockDebt → String
  | .variant => "variant"
  | .kind => "kind"
  | .text => "text"
  | .bytes => "bytes"
  | .media => "media"
  | .width => "width"
  | .height => "height"
  | .frames => "frames"
  | .reasoningKind => "reasoning-kind"
  | .proof => "proof"
  | .callId => "call-id"
  | .callName => "call-name"
  | .arguments => "arguments"

inductive Debt where
  | request (part : RequestDebt)
  | system (index : Nat)
  | tool (index : Nat) (part : ToolDebt)
  | message (index : Nat) (part : MessageDebt)
  | block (index position : Nat) (part : BlockDebt)
  deriving DecidableEq, Repr

/-- The string that stands for a debt. -/
def Debt.name : Debt → String
  | .request part => part.name
  | .system index => "system." ++ toString index
  | .tool index part => "tool" ++ toString index ++ "." ++ part.label
  | .message index part => "m" ++ toString index ++ "." ++ part.label
  | .block index position part =>
      "m" ++ toString index ++ ".b" ++ toString position ++ "." ++ part.label

/-! ## What a request owes -/

def userBlockDebts : UserBlock → List BlockDebt
  | .Text _ => [.variant, .text]
  | .Image _ => [.variant, .bytes, .media]

def assistantBlockDebts : AssistantBlock → List BlockDebt
  | .Text _ => [.variant, .text]
  | .Reasoning _ => [.variant, .text, .reasoningKind, .proof]
  | .ToolCall _ => [.variant, .callId, .callName, .arguments]

def toolResultBlockDebts : ToolResultBlock → List BlockDebt
  | .Text _ => [.variant, .text]
  | .Image _ => [.variant, .bytes, .media]

/-- The debts of the blocks of one message. -/
def blockDebts {α : Type} (index : Nat) (debts : α → List BlockDebt) (blocks : List α) :
    List Debt :=
  blocks.zipIdx.flatMap fun (value, position) => (debts value).map (.block index position)

def resultDebts (wire : AdapterWireId) : List MessageDebt :=
  [.callId] ++ (if statusProjection wire != .None then [.status] else [])
    ++ (if requiresResultName wire then [.resultName] else [])

def messageDebts (wire : AdapterWireId) (index : Nat) (message : Message) : List Debt :=
  [.message index .variant, .message index .blocks] ++
    match message with
    | .User message => blockDebts index userBlockDebts message.blocks
    | .Assistant message => blockDebts index assistantBlockDebts message.blocks
    | .ToolResult message =>
        (resultDebts wire).map (.message index)
          ++ blockDebts index toolResultBlockDebts message.blocks

def toolChoiceDebts : ToolChoice → List Debt
  | .Specific _ => [.request .toolChoiceName]
  | _ => []

def reasoningDebts : Reasoning → List Debt
  | .Enabled _ => [.request .reasoningEffort, .request .reasoningBudget]
  | _ => []

/-- `expected_debts`. -/
def expectedDebts (wire : AdapterWireId) (original : PrepareInput) : List Debt :=
  [.request .selectionVariant, .request .selectionPayload, .request .systemCollection,
    .request .messagesCollection, .request .toolsCollection, .request .toolChoiceVariant,
    .request .reasoningVariant, .request .cacheVariant, .request .maxOutput]
  ++ (List.range original.system.length).map .system
  ++ (List.range original.tools.length).flatMap (fun index =>
    [ToolDebt.name, ToolDebt.description, ToolDebt.schema].map (.tool index))
  ++ original.messages.zipIdx.flatMap (fun (message, index) => messageDebts wire index message)
  ++ toolChoiceDebts original.toolChoice ++ reasoningDebts original.reasoning

end MCode.Adapter
