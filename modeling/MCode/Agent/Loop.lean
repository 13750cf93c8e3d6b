import MCode.Agent.ToolCalls
import MCode.Provider.Event

/-!
# The agent double loop

`Agent::prompt`, `run_turn`, `double_loop` (`mcode-agent/src/agent.rs`) and
the rest of `turn.rs`, with the queues and the abort switch that handles
reach from other tasks.

The state has a program counter for the task that runs `prompt`.  A label is
one step of that task, with what the environment answers there (the provider,
the tool registry, the tool), or one call of another task.  Every access to a
queue or to the token is a step of its own, so a list of labels is one
interleaving.  Hooks pass values through, as `HookRunner` does.

The last five fields are no part of the program: the events and requests that
left it, the outcomes `prompt` returned, and every message that was queued or
dropped.  No step depends on them, except that a ticket is the number of
messages queued before.
-/

namespace MCode.Agent.Loop

open MCode.Lib
open MCode.Core
open MCode.Provider
open MCode.Agent.ToolCalls

inductive QueueMode where
  | All
  | OneAtATime
  deriving DecidableEq

inductive Lane where
  | steer
  | followUp
  deriving DecidableEq

/-- A message handed to `steer` or `follow_up`; `ticket` counts these calls. -/
structure Queued where
  lane : Lane
  ticket : Nat
  message : Message

/-- A message of the history, with the site that appended it. -/
inductive Entry where
  | prompt (message : Message)
  | queued (q : Queued)
  | response (message : AssistantMessage)
  | toolResult (message : ToolResultMessage)

def Entry.message : Entry → Message
  | .prompt message => message
  | .queued q => q.message
  | .response message => .Assistant message
  | .toolResult message => .ToolResult message

/-- `drain_queue`: what is taken, and what stays. -/
def drainQueue (mode : QueueMode) (queue : List Queued) :
    List Queued × List Queued :=
  match mode with
  | .All => (queue, [])
  | .OneAtATime => (queue.take 1, queue.drop 1)

/-- Where the task that runs `prompt` is. -/
inductive Pc where
  /-- No turn runs. -/
  | idle
  /-- In `run_turn`, before the prompt enters the history. -/
  | starting (message : Message)
  /-- Before the steer queue is drained at loop entry. -/
  | entry
  /-- In the loop over `pending`. -/
  | injecting
  /-- At the cancellation check behind it. -/
  | injected
  /-- In `stream_assistant`, at its three checks and the provider call. -/
  | requested (request : Request)
  | validating (request : Request)
  | validated (request : Request)
  | opening
  | streaming
  | streamEnded
  /-- Answering the calls of a response that hit the token limit. -/
  | truncating (calls : List ToolCall)
  /-- At the check before the next call. -/
  | dispatching (calls : List ToolCall)
  /-- Answering the calls that the abort left undispatched. -/
  | cancelling (calls : List ToolCall)
  /-- In `dispatch_tool_call`: lookup, gate and binding, execution, return. -/
  | binding (call : ToolCall) (calls : List ToolCall)
  | executing (call : ToolCall) (calls : List ToolCall) (dispatch : Dispatch)
  | answered (call : ToolCall) (message : ToolResultMessage)
      (calls : List ToolCall)
  /-- Before the steer queue is drained behind a response. -/
  | boundary (hasToolCalls : Bool)
  /-- Before the follow-up queue is drained. -/
  | wouldStop
  /-- Behind the double loop. -/
  | returning (result : Except McodeError TurnOutcome)

structure State where
  /-- The fields of `AgentControl`. -/
  steerQueue : List Queued
  followupQueue : List Queued
  active : Bool
  /-- The fields of `Agent` and `AgentState`. -/
  history : List Entry
  isStreaming : Bool
  queueMode : QueueMode
  /-- Whether the token of the turn is cancelled. -/
  cancelled : Bool
  /-- Locals of `double_loop`. -/
  pending : List Queued
  steered : Bool
  pc : Pc
  /-- Calls of `clear_queues` between their two queues. -/
  clearing : Nat
  /-- What was observed. -/
  events : List AgentEvent
  requests : List Request
  returned : List (Except McodeError TurnOutcome)
  journal : List Queued
  dropped : List Queued

def State.new : State :=
  { steerQueue := [], followupQueue := [], active := false
    history := [], isStreaming := false, queueMode := .OneAtATime
    cancelled := false, pending := [], steered := false, pc := .idle
    clearing := 0, events := [], requests := [], returned := []
    journal := [], dropped := [] }

/-- `AgentState::messages`. -/
def State.messages (self : State) : List Message :=
  self.history.map Entry.message

/-- How lookup, gate and binding of a tool call end. -/
inductive Binding where
  | unknownTool
  | blocked (reason : String)
  | failed (message : String)
  | bound

inductive Label where
  /-- Calls of handles and of the owner of the token. -/
  | steer (message : Message)
  | followUp (message : Message)
  | clearSteer
  | clearFollowup
  | abort
  | cancel
  /-- Calls of the owner of the agent. -/
  | setQueueMode (mode : QueueMode)
  | prompt (message : Message) (cancelled : Bool)
  /-- Steps of `prompt`. -/
  | advance
  | validate (encoded : Option Nat)
  | opened (result : Except ProviderError Unit)
  | next (event : Option StreamEvent)
  | bind (binding : Binding)
  | tool (act : Act)

/-! ## Steps of `prompt` -/

def State.emit (self : State) (event : AgentEvent) : State :=
  { self with events := self.events ++ [event] }

/-- `push_message`, and the two lines of `stream_assistant` that do the same. -/
def State.push (self : State) (entry : Entry) : State :=
  { self with
    history := self.history ++ [entry]
    events := self.events ++ [.MessageAdded entry.message] }

/-- `completed_error`: the message whose `ToolCompleted` it emits. -/
def completedError (call : ToolCall) (reason : String) : ToolResultMessage :=
  { toolCallId := call.id
    content := [.Text ⟨reason⟩]
    isError := true
    details := none }

/-- The body that `fail_truncated_call` and `fail_cancelled_call` share, and
the push behind it. -/
def State.failCall (self : State) (call : ToolCall) (reason : String) : State :=
  let message := completedError call reason
  ((self.emit (.ToolStarted call.id call.name)).emit
    (.ToolCompleted call.id message)).push (.toolResult message)

def State.failTruncatedCall (self : State) (call : ToolCall) : State :=
  self.failCall call
    ("tool call was not executed: the response hit the output token limit, so its "
      ++ "arguments may be truncated; re-issue the call with complete arguments")

def State.failCancelledCall (self : State) (call : ToolCall) : State :=
  self.failCall call
    "tool call was not executed: the turn was aborted before this call was dispatched"

/-- The two ends of a turn other than a natural stop. -/
def State.abortTurn (self : State) : State :=
  { self with pc := .returning (.ok .Aborted) }

def State.failTurn (self : State) (error : ProviderError) : State :=
  { self.emit (.Error error.toMcodeError) with
    pc := .returning (.error error.toMcodeError) }

/-- The loop over the calls of a response, once it is in the history. -/
def afterResponse (message : AssistantMessage) : Pc :=
  if message.toolCalls.isEmpty then .boundary false
  else if message.stopReason = .Length then .truncating message.toolCalls
  else .dispatching message.toolCalls

/-- The outcome that `TurnEnded` carries. -/
def endedWith : Except McodeError TurnOutcome → TurnOutcome
  | .ok outcome => outcome
  | .error _ => .Aborted

/-- The steps that need no answer of the environment. -/
def State.advance (serde : SerdeJson) (self : State) : Option State :=
  match self.pc with
  | .starting message => some { self.push (.prompt message) with pc := .entry }
  | .entry =>
      let (taken, rest) := drainQueue self.queueMode self.steerQueue
      some { self with
        steerQueue := rest
        pending := taken
        steered := !taken.isEmpty
        pc := .injecting }
  | .injecting =>
      match self.pending with
      | q :: pending => some { self.push (.queued q) with pending }
      | [] => some { self with pc := .injected }
  | .injected =>
      if self.cancelled then some self.abortTurn
      else some { self with pc := .requested ⟨self.messages⟩ }
  | .requested request =>
      if self.cancelled then some self.abortTurn
      else some { self with pc := .validating request }
  | .validated request =>
      if self.cancelled then some self.abortTurn
      else some { self with requests := self.requests ++ [request], pc := .opening }
  | .streamEnded =>
      if self.cancelled then some self.abortTurn
      else some (self.failTurn (.withMessage serde .Protocol
        "provider stream ended without a terminal event"))
  | .truncating [] => some { self with pc := .boundary true }
  | .truncating (call :: calls) =>
      some { self.failTruncatedCall call with pc := .truncating calls }
  | .dispatching [] => some { self with pc := .boundary true }
  | .dispatching (call :: calls) =>
      if self.cancelled then some { self with pc := .cancelling (call :: calls) }
      else
        some { self.emit (.ToolStarted call.id call.name) with
          pc := .binding call calls }
  | .cancelling [] => some self.abortTurn
  | .cancelling (call :: calls) =>
      some { self.failCancelledCall call with pc := .cancelling calls }
  | .answered _ message calls =>
      some { self.push (.toolResult message) with pc := .dispatching calls }
  | .boundary hasToolCalls =>
      let (taken, rest) := drainQueue self.queueMode self.steerQueue
      let pending := self.pending ++ taken
      some { self with
        steerQueue := rest
        pending
        steered := self.steered || !taken.isEmpty
        pc := if hasToolCalls || !pending.isEmpty then .injecting else .wouldStop }
  | .wouldStop =>
      let (taken, rest) := drainQueue self.queueMode self.followupQueue
      if taken.isEmpty then
        some { self with
          followupQueue := rest
          pc := .returning (.ok (if self.steered then .Steered else .Completed)) }
      else
        some { self with
          followupQueue := rest
          pending := self.pending ++ taken
          pc := .injecting }
  | .returning result =>
      some { self.emit (.TurnEnded (endedWith result)) with
        isStreaming := false
        active := false
        returned := self.returned ++ [result]
        pc := .idle }
  | _ => none

/-- One event of the provider stream. -/
def State.next (self : State) : Option StreamEvent → State
  | some (.TextDelta delta) => self.emit (.MessageDelta (.TextDelta delta))
  | some (.ThinkingDelta delta) => self.emit (.MessageDelta (.ThinkingDelta delta))
  | some (.ToolCallDelta id partialJson) =>
      self.emit (.MessageDelta (.ToolCallDelta id partialJson))
  | some (.Done message) =>
      { self.push (.response message) with pc := afterResponse message }
  | some (.Error error) =>
      if error.isCancelled then self.abortTurn else self.failTurn error
  | none => { self with pc := .streamEnded }

/-- The reason of a call that fails before execution. -/
def Binding.failure (call : ToolCall) : Binding → Option String
  | .unknownTool => some ("unknown tool: " ++ call.name)
  | .blocked reason => some ("blocked by hook: " ++ reason)
  | .failed message => some message
  | .bound => none

def State.bind (self : State) (call : ToolCall) (calls : List ToolCall)
    (binding : Binding) : State :=
  match binding.failure call with
  | some reason =>
      let message := completedError call reason
      { self.emit (.ToolCompleted call.id message) with
        pc := .answered call message calls }
  | none => { self with pc := .executing call calls Dispatch.start }

/-- One act of the tool or of its dispatcher. -/
def State.tool (self : State) (call : ToolCall) (calls : List ToolCall)
    (next : Dispatch × Effect) : State :=
  { self with
    events := self.events ++ next.2.emitted
    pc :=
      match next.1.phase with
      | .finished message => .answered call message calls
      | _ => .executing call calls next.1 }

/-! ## All steps -/

def State.enqueue (self : State) (lane : Lane) (message : Message) : State :=
  let queued : Queued := ⟨lane, self.journal.length, message⟩
  let self := { self with journal := self.journal ++ [queued] }
  match lane with
  | .steer => { self with steerQueue := self.steerQueue ++ [queued] }
  | .followUp => { self with followupQueue := self.followupQueue ++ [queued] }

/-- The beginning of `prompt`: a child of the caller's token, which may be
cancelled already. -/
def State.prompt (self : State) (message : Message) (cancelled : Bool) : State :=
  { self.emit .TurnStarted with
    cancelled
    active := true
    isStreaming := true
    pc := .starting message }

def State.step (serde : SerdeJson) (self : State) : Label → Option State
  | .steer message => some (self.enqueue .steer message)
  | .followUp message => some (self.enqueue .followUp message)
  | .clearSteer =>
      some { self with
        steerQueue := []
        dropped := self.dropped ++ self.steerQueue
        clearing := self.clearing + 1 }
  | .clearFollowup =>
      if 0 < self.clearing then
        some { self with
          followupQueue := []
          dropped := self.dropped ++ self.followupQueue
          clearing := self.clearing - 1 }
      else none
  | .abort => some (if self.active then { self with cancelled := true } else self)
  | .cancel =>
      match self.pc with
      | .idle => none
      | _ => some { self with cancelled := true }
  | .setQueueMode mode =>
      match self.pc with
      | .idle => some { self with queueMode := mode }
      | _ => none
  | .prompt message cancelled =>
      match self.pc with
      | .idle => some (self.prompt message cancelled)
      | _ => none
  | .advance => self.advance serde
  | .validate encoded =>
      match self.pc with
      | .validating request =>
          match Request.validate serde encoded with
          | .ok () => some { self with pc := .validated request }
          | .error error => some (self.failTurn error)
      | _ => none
  | .opened result =>
      match self.pc with
      | .opening =>
          match result with
          | .ok () => some { self with pc := .streaming }
          | .error error =>
              some (if error.isCancelled then self.abortTurn else self.failTurn error)
      | _ => none
  | .next event =>
      match self.pc with
      | .streaming => some (self.next event)
      | _ => none
  | .bind binding =>
      match self.pc with
      | .binding call calls => some (self.bind call calls binding)
      | _ => none
  | .tool act =>
      match self.pc with
      | .executing call calls dispatch =>
          (dispatch.step call act).map (self.tool call calls)
      | _ => none

end MCode.Agent.Loop
