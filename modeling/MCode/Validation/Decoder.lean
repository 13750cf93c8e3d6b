import MCode.Lib.Mealy
import MCode.Validation.Events

/-!
# `DecoderReducer`

`provider_validation/decoder/protocol.rs`: the reducer that decides what a
decoder does next (pull events from the guest, read a frame from the
transport, push it to the guest, wait for the consumer, publish the terminal)
and takes the receipts of what was done.  Every entry point may be called in
any state, with any arguments; `DecoderReducer.call` is one such call.
-/

namespace MCode.Validation

open MCode.Lib

def QUEUE_CAPACITY : Nat := 16
def MAX_PULLS : Nat := 65536
def MAX_DATA_FRAMES : Nat := 1024
def MAX_SUCCESS_BYTES : Nat := 16 * 1024 * 1024
def MAX_ERROR_BYTES : Nat := 64 * 1024
def MAX_FRAME_DATA_BYTES : Nat := 64 * 1024

inductive ResponseMedia where
  | Json
  | EventStream
  deriving DecidableEq

structure ResponseHead where
  status : Nat
  media : ResponseMedia
  deriving DecidableEq

inductive ResponseFrame where
  | Head (head : ResponseHead)
  | Data (data : List UInt8)
  | End
  deriving DecidableEq

inductive DecoderPull where
  | NeedFrame
  | Events (events : List NormalizedEvent)

inductive DecoderState where
  | InitialPull
  | NeedHead
  | DrainingBody
  | NeedBody
  | DrainingAfterEnd
  | Closed
  deriving DecidableEq

inductive DecoderAction where
  | Pull (limit : Nat)
  | ReadFrame
  | PushFrame (frame : ResponseFrame)
  | AwaitReceipt
  | WaitForConsumer
  | PublishTerminal (terminal : NormalizedEvent)
  | Closed
  deriving DecidableEq

inductive TransportReceipt where
  | Frame (frame : ResponseFrame)
  | Eof
  | Cancelled

inductive ExternalClose where
  | Cancelled
  | Deadline
  | Trap
  | Unavailable
  | Failed

inductive CloseCause where
  | GuestMethod (error : ProviderError)
  | GuestTerminal
  | Protocol
  | Limit
  | Eof
  | Cancelled
  | Deadline
  | Trap
  | Unavailable
  | Failed
  deriving DecidableEq

structure CloseReceipt where
  cause : CloseCause
  terminal : Option NormalizedEvent
  deriving DecidableEq

structure DecoderReceipt where
  acceptedEvents : List NormalizedEvent
  close : Option CloseReceipt
  transitioned : Bool
  deriving DecidableEq

inductive InFlight where
  | Pull (limit : Nat)
  | ReadFrame
  | PushFrame
  | PublishTerminal
  deriving DecidableEq

structure DecoderReducer where
  state : DecoderState
  events : EventReducer
  inFlight : Option InFlight
  pendingFrame : Option ResponseFrame
  close : Option CloseReceipt
  queueLen : Nat
  awaitingConsumer : Bool
  terminalPublished : Bool
  pulls : Nat
  dataFrames : Nat
  dataBytes : Nat
  status : Option Nat

/-! ## Frames -/

def validateResponseFrame : ResponseFrame → ValidationResult Unit
  | .Head head =>
      if !(200 ≤ head.status && head.status ≤ 599) then .error .InvalidArgument
      else .ok ()
  | .Data data =>
      if data.isEmpty then .error .InvalidArgument
      else if data.length > MAX_FRAME_DATA_BYTES then .error .Limit
      else .ok ()
  | .End => .ok ()

namespace DecoderReducer

def new (policy : DecoderPolicy) : DecoderReducer where
  state := .InitialPull
  events := EventReducer.new policy
  inFlight := none
  pendingFrame := none
  close := none
  queueLen := 0
  awaitingConsumer := false
  terminalPublished := false
  pulls := 0
  dataFrames := 0
  dataBytes := 0
  status := none

def freeCapacity (self : DecoderReducer) : Nat := QUEUE_CAPACITY - self.queueLen

/-- The status of a successful response. -/
def successful (self : DecoderReducer) : Bool :=
  self.status.any fun status => 200 ≤ status && status < 300

/-- The data bytes that the status allows. -/
def maximumBytes (self : DecoderReducer) : Nat :=
  if self.successful then MAX_SUCCESS_BYTES else MAX_ERROR_BYTES

def validatePendingFrame (self : DecoderReducer) (frame : ResponseFrame) :
    ValidationResult Unit := do
  validateResponseFrame frame
  match self.state, frame with
  | .NeedHead, .Head _ => .ok ()
  | .NeedBody, .End => .ok ()
  | .NeedBody, .Data data =>
      let nextFrames ← checkedAdd self.dataFrames 1
      if nextFrames > MAX_DATA_FRAMES then .error .Limit
      else
        let nextBytes ← checkedAdd self.dataBytes (← checkedLen data.length)
        if nextBytes > self.maximumBytes then .error .Limit else .ok ()
  | _, _ => .error .InvalidArgument

/-! ## Closing -/

def finishClose (self : DecoderReducer) (receipt : CloseReceipt)
    (acceptedEvents : List NormalizedEvent) : DecoderReceipt × DecoderReducer :=
  (⟨acceptedEvents, some receipt, true⟩,
    { self with
      state := .Closed
      inFlight := none
      pendingFrame := none
      close := some receipt })

def closeSynthesized (self : DecoderReducer) (cause : CloseCause)
    (error : ProviderError) : DecoderReceipt × DecoderReducer :=
  self.finishClose ⟨cause, some (.Failed error)⟩ []

def protocolClose (self : DecoderReducer) : DecoderReceipt × DecoderReducer :=
  self.closeSynthesized .Protocol .InvalidArgument

def guestErrorClose (self : DecoderReducer) (error : ProviderError) :
    DecoderReceipt × DecoderReducer :=
  self.finishClose ⟨.GuestMethod error, none⟩ []

def validationClose (self : DecoderReducer) :
    ValidationError → DecoderReceipt × DecoderReducer
  | .InvalidArgument => self.closeSynthesized .Protocol .InvalidArgument
  | .Limit => self.closeSynthesized .Limit .Limit

def stableClosedReceipt (self : DecoderReducer) : DecoderReceipt × DecoderReducer :=
  (⟨[], self.close, false⟩, self)

def closedAction (self : DecoderReducer) : DecoderAction × DecoderReducer :=
  if self.queueLen != 0 then (.WaitForConsumer, self)
  else if self.inFlight.isSome then (.AwaitReceipt, self)
  else
    match self.terminalPublished, self.close.bind (·.terminal) with
    | false, some terminal =>
        (.PublishTerminal terminal, { self with inFlight := some .PublishTerminal })
    | _, _ => (.Closed, self)

/-- `DecoderReceipt::transitioned`. -/
def transitioned : DecoderReceipt := ⟨[], none, true⟩

/-! ## The entry points -/

def beginPull (self : DecoderReducer) : DecoderAction × DecoderReducer :=
  let free := self.freeCapacity
  if free == 0 then (.WaitForConsumer, self)
  else if self.pulls ≥ MAX_PULLS then
    (self.closeSynthesized .Limit .Limit).2.closedAction
  else
    (.Pull free, { self with
      pulls := self.pulls + 1
      inFlight := some (.Pull free) })

def nextAction (self : DecoderReducer) : DecoderAction × DecoderReducer :=
  if self.state == .Closed then self.closedAction
  else if self.awaitingConsumer && self.queueLen != 0 then (.WaitForConsumer, self)
  else if self.inFlight.isSome then (.AwaitReceipt, self)
  else
    match self.pendingFrame with
    | some frame =>
        if self.freeCapacity == 0 then (.WaitForConsumer, self)
        else (.PushFrame frame, { self with inFlight := some .PushFrame })
    | none =>
        match self.state with
        | .InitialPull | .DrainingBody | .DrainingAfterEnd => self.beginPull
        | .NeedHead | .NeedBody =>
            if self.queueLen != 0 || self.freeCapacity == 0 then (.WaitForConsumer, self)
            else (.ReadFrame, { self with inFlight := some .ReadFrame })
        | .Closed => self.closedAction

def enqueueAndMaybeClose (self : DecoderReducer) (batch : EventBatch) :
    DecoderReceipt × DecoderReducer :=
  let self := { self with
    queueLen := self.queueLen + batch.accepted.length
    awaitingConsumer := !batch.accepted.isEmpty }
  match batch.terminal with
  | some terminal => self.finishClose ⟨.GuestTerminal, some terminal⟩ batch.accepted
  | none => (⟨batch.accepted, none, true⟩, self)

def acceptEvents (self : DecoderReducer) (events : List NormalizedEvent) (limit : Nat)
    (afterEnd : Bool) : DecoderReceipt × DecoderReducer :=
  match self.events.reduceBatch events limit afterEnd self.successful with
  | .error error => self.validationClose error
  | .ok (batch, events) => { self with events := events }.enqueueAndMaybeClose batch

def pullReceipt (self : DecoderReducer) (result : Except ProviderError DecoderPull) :
    DecoderReceipt × DecoderReducer :=
  if self.state == .Closed then self.stableClosedReceipt
  else
    let taken := { self with inFlight := none }
    match self.inFlight with
    | some (.Pull limit) =>
        match result with
        | .error error => taken.guestErrorClose error
        | .ok pull =>
            match self.state, pull with
            | .InitialPull, .NeedFrame =>
                (transitioned, { taken with state := .NeedHead })
            | .DrainingBody, .NeedFrame =>
                (transitioned, { taken with state := .NeedBody })
            | .DrainingBody, .Events events => taken.acceptEvents events limit false
            | .DrainingAfterEnd, .Events events => taken.acceptEvents events limit true
            | _, _ => taken.protocolClose
    | _ => taken.protocolClose

def transportReceipt (self : DecoderReducer) (receipt : TransportReceipt) :
    DecoderReceipt × DecoderReducer :=
  if self.state == .Closed then self.stableClosedReceipt
  else
    let taken := { self with inFlight := none }
    if self.inFlight != some .ReadFrame then taken.protocolClose
    else
      match receipt with
      | .Eof => taken.closeSynthesized .Eof .Unavailable
      | .Cancelled => taken.closeSynthesized .Cancelled .Cancelled
      | .Frame frame =>
          match taken.validatePendingFrame frame with
          | .error error => taken.validationClose error
          | .ok () => (transitioned, { taken with pendingFrame := some frame })

/-- The guest's answer to a pushed frame is an acceptance or an error. -/
def pushReceipt (self : DecoderReducer) (result : Except ProviderError Unit) :
    DecoderReceipt × DecoderReducer :=
  if self.state == .Closed then self.stableClosedReceipt
  else
    let taken := { self with inFlight := none }
    if self.inFlight != some .PushFrame then taken.protocolClose
    else
      let taken := { taken with pendingFrame := none }
      match self.pendingFrame with
      | none => taken.protocolClose
      | some frame =>
          match result with
          | .error error => taken.guestErrorClose error
          | .ok () =>
              match self.state, frame with
              | .NeedHead, .Head head =>
                  (transitioned, { taken with
                    status := some head.status
                    state := .DrainingBody })
              | .NeedBody, .Data data =>
                  (transitioned, { taken with
                    dataFrames := taken.dataFrames + 1
                    dataBytes := taken.dataBytes + data.length
                    state := .DrainingBody })
              | .NeedBody, .End =>
                  (transitioned, { taken with state := .DrainingAfterEnd })
              | _, _ => taken.protocolClose

def consumerReceipt (self : DecoderReducer) (count : Nat) :
    ValidationResult Unit × DecoderReducer :=
  if count == 0 || count > self.queueLen then (.error .InvalidArgument, self)
  else
    (.ok (), { self with
      queueLen := self.queueLen - count
      awaitingConsumer := false })

/-- `terminal_published`.  The outstanding action is taken only if nothing
before it fails. -/
def terminalPublishedReceipt (self : DecoderReducer) :
    ValidationResult Unit × DecoderReducer :=
  if self.state != .Closed || self.queueLen != 0 || self.terminalPublished
      || (self.close.bind (·.terminal)).isNone then (.error .InvalidArgument, self)
  else
    let taken := { self with inFlight := none }
    if self.inFlight != some .PublishTerminal then (.error .InvalidArgument, taken)
    else (.ok (), { taken with terminalPublished := true })

/-- The cause and the error that an external close stands for. -/
def externalCause : ExternalClose → CloseCause × ProviderError
  | .Cancelled => (.Cancelled, .Cancelled)
  | .Deadline => (.Deadline, .Cancelled)
  | .Trap => (.Trap, .Failed)
  | .Unavailable => (.Unavailable, .Unavailable)
  | .Failed => (.Failed, .Failed)

def closeExternal (self : DecoderReducer) (cause : ExternalClose) :
    DecoderReceipt × DecoderReducer :=
  if self.state == .Closed then self.stableClosedReceipt
  else self.closeSynthesized (externalCause cause).1 (externalCause cause).2

/-! ## Calls -/

inductive Call where
  | nextAction
  | pullReceipt (result : Except ProviderError DecoderPull)
  | transportReceipt (receipt : TransportReceipt)
  | pushReceipt (result : Except ProviderError Unit)
  | consumerReceipt (count : Nat)
  | terminalPublished
  | closeExternal (cause : ExternalClose)

inductive Answer where
  | action (action : DecoderAction)
  | receipt (receipt : DecoderReceipt)
  | result (result : ValidationResult Unit)

/-- One call of an entry point. -/
def call (self : DecoderReducer) : Call → Answer × DecoderReducer
  | .nextAction => self.nextAction.map .action id
  | .pullReceipt result => (self.pullReceipt result).map .receipt id
  | .transportReceipt receipt => (self.transportReceipt receipt).map .receipt id
  | .pushReceipt result => (self.pushReceipt result).map .receipt id
  | .consumerReceipt count => (self.consumerReceipt count).map .result id
  | .terminalPublished => self.terminalPublishedReceipt.map .result id
  | .closeExternal cause => (self.closeExternal cause).map .receipt id

/-- One call with its answer. -/
abbrev Entry := Call × Answer

/-- A fresh reducer behind a list of calls. -/
def reached (policy : DecoderPolicy) (calls : List Call) : DecoderReducer :=
  Mealy.after call (new policy) calls

/-- The calls with their answers. -/
def history (policy : DecoderPolicy) (calls : List Call) : List Entry :=
  Mealy.log call (new policy) calls

end DecoderReducer

end MCode.Validation
