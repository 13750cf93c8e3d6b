import MCode.Lib.Terminal
import MCode.Core.Message

/-!
# `ToolStream`

The progress and terminal channel of one tool call
(`mcode-tools/src/stream.rs`): an unbounded channel and one `terminated`
flag, which every clone of the producer shares.  `send` holds the flag's
mutex from the check to the channel send, so one send is one step.
-/

namespace MCode.Tools

open MCode.Core

/-- What a tool invocation returns. -/
structure ToolResult where
  content : List ContentBlock
  isError : Bool
  details : Option Value

def ToolResult.error (message : String) : ToolResult :=
  ⟨[.Text ⟨message⟩], true, none⟩

inductive ToolError where
  | InvalidArgs (message : String)
  | Execution (message : String)
  | PluginTrap (message : String)

/-- The `Display` of a `ToolError`. -/
def ToolError.toString : ToolError → String
  | .InvalidArgs message => "invalid arguments: " ++ message
  | .Execution message => message
  | .PluginTrap message => "plugin trap: " ++ message

structure ToolProgress where
  message : String

inductive ToolStreamItem where
  | Progress (progress : ToolProgress)
  | Terminal (result : ToolResult)

def ToolStreamItem.isTerminal : ToolStreamItem → Bool
  | .Terminal _ => true
  | .Progress _ => false

/-- What the producers and the consumer of one channel share: the flag, the
items sent and not yet received, and whether the receiver still exists. -/
structure ToolStream where
  terminated : Bool
  queue : List ToolStreamItem
  receiving : Bool

def ToolStream.channel : ToolStream := ⟨false, [], true⟩

/-- `ToolStream::send`: whether the item was accepted, and the channel after
it. -/
def ToolStream.send (self : ToolStream) (item : ToolStreamItem) :
    Bool × ToolStream :=
  if self.terminated then (false, self)
  else
    let claimed := { self with terminated := item.isTerminal }
    if self.receiving then
      (true, { claimed with queue := claimed.queue ++ [item] })
    else (false, claimed)

end MCode.Tools
