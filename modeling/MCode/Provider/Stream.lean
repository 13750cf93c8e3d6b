import MCode.Lib.Machine
import MCode.Provider.Event

/-!
# The provider event stream

`EventStreamSender::send`, `EventStream::next` and the drops of both halves
(`mcode-provider-api/src/stream.rs`).

The stream is made of a bounded `mpsc` channel, an asynchronous mutex and a
cancellation token, which behave as documented: a permit is granted while
fewer than `EVENT_STREAM_CAPACITY` events are queued and the receiver is not
closed; a permit that was granted may be used after the receiver was closed;
`poll_recv` may be pending although an event is queued, `try_recv` never
reports an empty channel then; the channel is disconnected when it is empty
and every sender is gone.

A label is one access to shared state by a call of `send`, by the consumer or
by the owner of the token, so a list of labels is one interleaving.  A call of
`send` borrows the sender it is made on, and it may be dropped where it waits:
for the mutex and for capacity.
-/

namespace MCode.Provider.Stream

open MCode.Core
open MCode.Provider

def EVENT_STREAM_CAPACITY : Nat := 16

def MAX_EVENT_ENCODED_BYTES : Nat := 1024 * 1024

/-- Where a call of `send` is. -/
inductive Stage where
  /-- At `state.lock().await`. -/
  | waiting
  /-- With the lock, before the two checks. -/
  | locked
  /-- At `tx.reserve().await`. -/
  | reserving (event : StreamEvent)
  /-- With a permit, before the claim and the send. -/
  | permitted (event : StreamEvent)
  | returned (accepted : Bool)
  /-- The future was dropped. -/
  | dropped

/-- A call of `send`: the sender it borrows, its event, where it is. -/
structure Call where
  handle : Nat
  sent : StreamEvent
  stage : Stage

/-- An event that entered the channel, and the call that sent it. -/
structure Accepted where
  call : Nat
  event : StreamEvent

/-- Where the owner of the `EventStream` is. -/
inductive Consumer where
  | idle
  /-- In `next`, at the two polls of `poll_fn`. -/
  | polling
  | pollingCancel
  /-- In `next`, behind a cancelled `poll_fn`. -/
  | rechecking
  /-- In `closed_terminal`. -/
  | closing
  /-- In `finish`, before the receiver is closed, with the result of `next`. -/
  | finishing (event : StreamEvent)
  /-- In `drop`, before the receiver is closed. -/
  | dropping
  | gone

structure Channel where
  /-- The senders that were made; whether each is alive. -/
  handles : List Bool
  calls : List Call
  /-- `SenderState`, and the call that has locked it. -/
  terminalClaimed : Bool
  holder : Option Nat
  /-- The channel. -/
  queue : List StreamEvent
  rxClosed : Bool
  /-- `EventStream`, and its token. -/
  cancelled : Bool
  terminalSeen : Bool
  consumer : Consumer
  /-- What was observed: the events that entered, the results of `next`. -/
  accepted : List Accepted
  results : List (Option StreamEvent)

/-- `EventStream::channel`, for a token that may be cancelled already. -/
def Channel.channel (cancelled : Bool) : Channel :=
  { handles := [true], calls := [], terminalClaimed := false, holder := none
    queue := [], rxClosed := false, cancelled, terminalSeen := false
    consumer := .idle, accepted := [], results := [] }

def protocolTerminal (serde : SerdeJson) (message : String) : StreamEvent :=
  .Error (.withMessage serde .Protocol message)

/-- The event that `send` puts into the channel for the event it was given,
whose encoding has `encode event` bytes, if there is one. -/
def admitted (serde : SerdeJson) (encode : StreamEvent → Option Nat)
    (event : StreamEvent) : StreamEvent :=
  match encode event with
  | some length =>
      if length ≤ MAX_EVENT_ENCODED_BYTES then event
      else protocolTerminal serde "provider event exceeds the encoded size limit"
  | none => protocolTerminal serde "provider event could not be encoded"

/-- The terminal for a producer that ended without one. -/
def endedTerminal (serde : SerdeJson) : StreamEvent :=
  protocolTerminal serde "provider producer ended without a terminal event"

def cancelledTerminal : StreamEvent := .Error (.new .Cancelled)

/-! ## Senders -/

def Stage.inFlight : Stage → Bool
  | .waiting => true
  | .locked => true
  | .reserving _ => true
  | .permitted _ => true
  | _ => false

def Channel.setStage (self : Channel) (i : Nat) (call : Call) (stage : Stage) :
    Channel :=
  { self with calls := self.calls.set i { call with stage } }

/-- Ends a call that has the lock. -/
def Channel.release (self : Channel) (i : Nat) (call : Call) (stage : Stage) :
    Channel :=
  { self.setStage i call stage with holder := none }

/-- The next step of call `i` of `send`. -/
def Channel.sendStep (serde : SerdeJson) (encode : StreamEvent → Option Nat)
    (self : Channel) (i : Nat) (call : Call) : Option Channel :=
  match call.stage with
  | .waiting =>
      match self.holder with
      | none => some { self.setStage i call .locked with holder := some i }
      | some _ => none
  | .locked =>
      if self.terminalClaimed || self.rxClosed then
        some (self.release i call (.returned false))
      else
        some (self.setStage i call (.reserving (admitted serde encode call.sent)))
  | .reserving event =>
      if self.rxClosed then some (self.release i call (.returned false))
      else if self.queue.length < EVENT_STREAM_CAPACITY then
        some (self.setStage i call (.permitted event))
      else none
  | .permitted event =>
      some { self.release i call (.returned true) with
        terminalClaimed := self.terminalClaimed || event.isTerminal
        queue := self.queue ++ [event]
        accepted := self.accepted ++ [⟨i, event⟩] }
  | .returned _ => none
  | .dropped => none

/-- The drop of the future of call `i`. -/
def Channel.dropSend (self : Channel) (i : Nat) (call : Call) : Option Channel :=
  match call.stage with
  | .waiting => some (self.setStage i call .dropped)
  | .reserving _ => some (self.release i call .dropped)
  | _ => none

/-! ## Consumer -/

/-- What `try_recv` finds. -/
inductive Received where
  | event (event : StreamEvent) (rest : List StreamEvent)
  | disconnected
  | empty

def Channel.tryRecv (self : Channel) : Received :=
  match self.queue with
  | event :: rest => .event event rest
  | [] => if self.handles.any id then .empty else .disconnected

/-- `accept`, for an event that was taken from the queue. -/
def Channel.accept (self : Channel) (event : StreamEvent)
    (rest : List StreamEvent) : Channel :=
  if event.isTerminal then
    { self with queue := rest, terminalSeen := true, consumer := .finishing event }
  else
    { self with
      queue := rest
      results := self.results ++ [some event]
      consumer := .idle }

def Channel.synthesize (self : Channel) (event : StreamEvent) : Channel :=
  { self with terminalSeen := true, consumer := .finishing event }

inductive Label where
  /-- Producer side. -/
  | clone (handle : Nat)
  | dropSender (handle : Nat)
  | send (handle : Nat) (event : StreamEvent)
  | sendStep (call : Nat)
  | dropSend (call : Nat)
  /-- The owner of the token. -/
  | cancel
  /-- Consumer side. -/
  | next
  | poll (spurious : Bool)
  | pollCancel
  | recheck
  | closedTerminal
  | finish
  | dropNext
  | dropStream
  | close

/-- The steps of the consumer. -/
def Channel.consume (serde : SerdeJson) (self : Channel) :
    Consumer → Label → Option Channel
  | .idle, .next =>
      if self.terminalSeen then some { self with results := self.results ++ [none] }
      else
        match self.tryRecv with
        | .event event rest => some (self.accept event rest)
        | .disconnected => some { self with consumer := .closing }
        | .empty => some { self with consumer := .polling }
  | .polling, .poll spurious =>
      if spurious then some { self with consumer := .pollingCancel }
      else
        match self.tryRecv with
        | .event event rest => some (self.accept event rest)
        | .disconnected => some { self with consumer := .closing }
        | .empty => some { self with consumer := .pollingCancel }
  | .pollingCancel, .pollCancel =>
      some { self with
        consumer := if self.cancelled then .rechecking else .polling }
  | .rechecking, .recheck =>
      match self.tryRecv with
      | .event event rest => some (self.accept event rest)
      | _ => some (self.synthesize cancelledTerminal)
  | .closing, .closedTerminal =>
      some (self.synthesize
        (if self.cancelled then cancelledTerminal else endedTerminal serde))
  | .finishing event, .finish =>
      some { self with
        rxClosed := true
        results := self.results ++ [some event]
        consumer := .idle }
  | .polling, .dropNext => some { self with consumer := .idle }
  | .idle, .dropStream =>
      some { self with cancelled := true, consumer := .dropping }
  | .dropping, .close => some { self with rxClosed := true, consumer := .gone }
  | _, _ => none

def Channel.step (serde : SerdeJson) (encode : StreamEvent → Option Nat)
    (self : Channel) : Label → Option Channel
  | .clone handle =>
      if self.handles[handle]? = some true then
        some { self with handles := self.handles ++ [true] }
      else none
  | .dropSender handle =>
      if self.handles[handle]? = some true ∧
          (self.calls.all fun call =>
            call.handle != handle || !call.stage.inFlight) then
        some { self with handles := self.handles.set handle false }
      else none
  | .send handle event =>
      if self.handles[handle]? = some true then
        some { self with calls := self.calls ++ [⟨handle, event, .waiting⟩] }
      else none
  | .sendStep i => self.calls[i]?.bind (self.sendStep serde encode i)
  | .dropSend i => self.calls[i]?.bind (self.dropSend i)
  | .cancel => some { self with cancelled := true }
  | label => self.consume serde self.consumer label

end MCode.Provider.Stream
