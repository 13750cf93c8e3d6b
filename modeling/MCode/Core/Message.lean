import Mathlib

/-!
# Messages and Agent events

The vocabulary of `mcode-core`: what enters the history (`message.rs`) and
what the loop announces (`events.rs`).  JSON values are kept as
`serde_json::Value` keeps them; a number is its text.
-/

namespace MCode.Core

/-- `serde_json::Value`. -/
inductive Value where
  | null
  | bool (b : Bool)
  | number (text : String)
  | string (s : String)
  | array (values : List Value)
  | object (fields : List (String × Value))

/-! ## Messages -/

structure TextBlock where
  text : String

structure ThinkingBlock where
  text : String

structure ToolCall where
  id : String
  name : String
  arguments : Value

structure BinaryData where
  data : String
  mimeType : String

inductive ContentBlock where
  | Text (block : TextBlock)
  | Thinking (block : ThinkingBlock)
  | ToolCall (call : ToolCall)
  | Image (data : BinaryData)

structure UserMessage where
  content : List ContentBlock

inductive StopReason where
  | Stop
  | ToolUse
  | Length
  | Error
  deriving DecidableEq

structure Usage where
  inputTokens : Nat
  outputTokens : Nat

structure AssistantMessage where
  blocks : List ContentBlock
  usage : Option Usage
  stopReason : StopReason

structure ToolResultMessage where
  toolCallId : String
  content : List ContentBlock
  isError : Bool
  details : Option Value

structure CustomMessage where
  kind : String
  data : Value

inductive Message where
  | User (message : UserMessage)
  | Assistant (message : AssistantMessage)
  | ToolResult (message : ToolResultMessage)
  | Custom (message : CustomMessage)

/-- The `filter_map` of the loop over the blocks of a response. -/
def AssistantMessage.toolCalls (self : AssistantMessage) : List ToolCall :=
  self.blocks.filterMap fun
    | .ToolCall call => some call
    | _ => none

/-! ## Events -/

abbrev CallId := String

/-- `McodeError`, without the variants the loop never builds. -/
inductive McodeError where
  | Provider (message : String)

inductive MessageDelta where
  | TextDelta (delta : String)
  | ThinkingDelta (delta : String)
  | ToolCallDelta (id partialJson : String)

inductive TurnOutcome where
  | Completed
  | Steered
  | Aborted
  deriving DecidableEq

inductive AgentEvent where
  | TurnStarted
  | MessageDelta (delta : MessageDelta)
  | MessageAdded (message : Message)
  | ToolStarted (callId : CallId) (name : String)
  | ToolProgress (callId : CallId) (message : String)
  | ToolCompleted (callId : CallId) (result : ToolResultMessage)
  | TurnEnded (outcome : TurnOutcome)
  | Error (error : McodeError)

end MCode.Core
