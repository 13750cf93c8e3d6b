import MCode.Lib.Machine
import MCode.Tools.Stream

/-!
# The spawn of one program

`mcode-tools/src/builtin/exec/spawn.rs` with the Linux launch of `linux.rs`:
the blocking worker that creates the process, the future that waits for it and
then runs the program, and the loops that retry a teardown that failed.

A step is one access to an atomic of the gate, one attempt of a teardown, or
what lies between two such points; so a list of acts is one interleaving.  The
environment chooses what can fail, when the token is cancelled, when the
deadline passes and when the future is dropped.

A `PendingLinuxSpawn` and a `LiveSpawn` hold the image pin and the execution
lease as long as they exist; children and process groups are known by their
numbers.  The output of the program and its metadata are left out.
-/

namespace MCode.Exec.Spawn

open MCode.Lib MCode.Tools

/-- The result of an operation of the system; an error is known by its text. -/
abbrev IoResult := Except String Unit

/-! ## The gate -/

inductive GateState where
  | Pending
  | Cancelled
  | Started
  deriving DecidableEq

structure SpawnGate where
  state : GateState
  cancelled : Bool
  launched : Bool

namespace SpawnGate

def new : SpawnGate := ⟨.Pending, false, false⟩

def CANCELLED : ToolError := .Execution "command cancelled before completion"

def checkPending (self : SpawnGate) : Except ToolError Unit :=
  if self.cancelled then .error CANCELLED else .ok ()

/-- `compare_exchange` of the pending state: whether it was, and the gate. -/
def exchange (self : SpawnGate) (next : GateState) : Bool × SpawnGate :=
  if self.state = .Pending then (true, { self with state := next }) else (false, self)

end SpawnGate

/-! ## Owners of a process -/

/-- What the system does in one attempt to tear a process down. -/
structure Attempt where
  enroll : IoResult
  terminate : IoResult
  wait : IoResult

structure PendingLinuxSpawn where
  child : Option Nat
  processTree : Option Nat

/-- One attempt of `PendingLinuxSpawn::cleanup`; a failure keeps the child and the tree. -/
def PendingLinuxSpawn.cleanup (self : PendingLinuxSpawn) (attempt : Attempt) :
    IoResult × PendingLinuxSpawn :=
  match self.child with
  | none => (.ok (), self)
  | some child =>
      match (if self.processTree.isNone then attempt.enroll else .ok ()) with
      | .error error => (.error error, self)
      | .ok () =>
          let self := { self with processTree := some (self.processTree.getD child) }
          match attempt.terminate with
          | .error error => (.error error, self)
          | .ok () =>
              match attempt.wait with
              | .error error => (.error error, self)
              | .ok () => (.ok (), ⟨none, none⟩)

structure LiveSpawn where
  child : Nat
  processTree : Nat

/-- `teardown_live` and `teardown_live_blocking`. -/
def teardownLive (attempt : Attempt) : IoResult :=
  match attempt.terminate with
  | .error error => .error error
  | .ok () => attempt.wait

structure SpawnedProgram where
  live : Option LiveSpawn

structure SpawnFailure where
  error : ToolError
  teardown : IoResult

/-- `From<ToolError>`. -/
def SpawnFailure.ofError (error : ToolError) : SpawnFailure := ⟨error, .ok ()⟩

def SpawnFailure.intoToolError (self : SpawnFailure) : ToolError :=
  match self.teardown with
  | .ok () => self.error
  | .error teardown =>
      .Execution (self.error.toString ++ "; termination failed: " ++ teardown)

/-- What the join handle of the worker gives: the outer error is a panic. -/
abbrev Output := Except String (Except SpawnFailure SpawnedProgram)

/-! ## The parties -/

/-- Where the worker is.  In `dropping` a `PendingLinuxSpawn` goes out of scope, which ends
only when its child is reaped. -/
inductive Worker where
  | checking
  | checked
  | claimed
  | creating
  | created (child : Nat)
  | pending (spawn : PendingLinuxSpawn)
  | failing (error : ToolError) (spawn : PendingLinuxSpawn)
  | dropping (output : Output) (spawn : PendingLinuxSpawn)
  | finished

/-- The join handle: `detached` once the future has dropped it. -/
inductive Join where
  | running
  | ready (output : Output)
  | taken
  | detached

inductive SpawnWait where
  | Spawned (program : SpawnedProgram)
  | Timeout (started : Bool) (teardown : IoResult)
  | Cancelled (teardown : IoResult)

/-- Which of the two branches of a `select!` ended the wait. -/
inductive Stop where
  | cancelled
  | deadline

inductive TeardownKind where
  | Timeout
  | Cancelled
  | Failed (error : String)

inductive RunOutcome where
  | Done (status : Int)
  | Timeout (teardown : IoResult) (started : Bool)
  | Cancelled (teardown : IoResult)
  | CollectFailed (error : String) (teardown : IoResult)

/-- How `wait_for_spawn` is left. -/
inductive Exit where
  | returns (result : Except ToolError SpawnWait)
  | dropped

/-- Behind `SpawnGate::cancel`: a branch of the select, or the end of the drop guard. -/
inductive Then where
  | stop (stop : Stop)
  | leave (exit : Exit)

/-- Where the future is.  It runs the program while this is `returned` with it. -/
inductive Waiter where
  | selecting
  | storing (next : Then)
  | exchanging (next : Then)
  | joining (stop : Stop)
  | cleaning (stop : Stop) (program : SpawnedProgram)
  | reporting (stop : Stop) (teardown : IoResult)
  | returned (result : Except ToolError SpawnWait)
  | tearing (kind : TeardownKind) (program : SpawnedProgram)
  | done (outcome : RunOutcome)
  | dropped

/-- An owner handed to `supervise_spawn_cleanup`, before and after a thread takes it. -/
inductive Cleaner where
  | handed (live : LiveSpawn)
  | looping (live : LiveSpawn)

/-- The parties and what happened: whether a call of `cancel` returned true, a process was
created, a teardown succeeded, the program ended by itself. -/
structure State where
  gate : SpawnGate
  worker : Worker
  join : Join
  waiter : Waiter
  cleaners : List Cleaner
  cancelWon : Bool
  created : Bool
  torn : Bool
  exited : Bool

def State.start : State :=
  ⟨.new, .checking, .running, .selecting, [], false, false, false, false⟩

/-! ## Handing over -/

/-- `SpawnedProgram::drop`. -/
def SpawnedProgram.supervise (self : SpawnedProgram) : List Cleaner :=
  match self.live with
  | none => []
  | some live => [.handed live]

/-- An output that nobody takes is dropped. -/
def Output.discard : Output → List Cleaner
  | .ok (.ok program) => program.supervise
  | _ => []

/-- The worker is done: its output goes to the handle. -/
def Join.finish (output : Output) : Join → Join × List Cleaner
  | .detached => (.detached, output.discard)
  | _ => (.ready output, [])

/-- The future drops the handle. -/
def Join.detach : Join → Join × List Cleaner
  | .running => (.detached, [])
  | .ready output => (.detached, output.discard)
  | other => (other, [])

/-- `SpawnedProgram::teardown`, behind which the program goes out of scope. -/
def SpawnedProgram.teardown (self : SpawnedProgram) (attempt : Attempt) :
    IoResult × List Cleaner :=
  match self.live with
  | none => (.ok (), [])
  | some _ =>
      match teardownLive attempt with
      | .ok () => (.ok (), [])
      | .error error => (.error error, self.supervise)

/-- The attempt reaps a child. -/
def PendingLinuxSpawn.reaps (self : PendingLinuxSpawn) (attempt : Attempt) : Bool :=
  self.child.isSome && (self.cleanup attempt).2.child.isNone

def SpawnedProgram.reaps (self : SpawnedProgram) (attempt : Attempt) : Bool :=
  self.live.isSome && (teardownLive attempt).isOk

def State.finish (s : State) (output : Output) : State :=
  { s with
    worker := .finished
    join := (s.join.finish output).1
    cleaners := s.cleaners ++ (s.join.finish output).2 }

def State.detach (s : State) : State :=
  { s with join := s.join.detach.1, cleaners := s.cleaners ++ s.join.detach.2 }

def State.supervise (s : State) (program : SpawnedProgram) : State :=
  { s with cleaners := s.cleaners ++ program.supervise }

def State.teardown (s : State) (program : SpawnedProgram) (attempt : Attempt) : State :=
  { s with
    cleaners := s.cleaners ++ (program.teardown attempt).2
    torn := s.torn || program.reaps attempt }

def State.cleanup (s : State) (spawn : PendingLinuxSpawn) (attempt : Attempt) : State :=
  { s with torn := s.torn || spawn.reaps attempt }

/-! ## Steps of the worker -/

inductive WorkerAct where
  | checkPending
  | refuse (error : ToolError)
  | beginSpawn
  | claim
  | recheck
  | create (child : Except ToolError Nat)
  | markLaunched
  | enroll (processTree : Except ToolError Nat)
  | cleanup (attempt : Attempt)
  | retry (attempt : Attempt)
  | panic (message : String)

def State.fail (s : State) (error : ToolError) : State :=
  s.finish (.ok (.error (.ofError error)))

/-- A step of the worker into `next`, where the command is not cancelled. -/
def State.whilePending (s : State) (next : Worker) : State :=
  match s.gate.checkPending with
  | .ok () => { s with worker := next }
  | .error error => s.fail error

def workerStep (s : State) (act : WorkerAct) : Option State :=
  match s.worker, act with
  | .checking, .checkPending => some (s.whilePending .checking)
  | .checking, .refuse error => some (s.fail error)
  | .checking, .beginSpawn => some (s.whilePending .checked)
  | .checked, .claim =>
      match s.gate.exchange .Started with
      | (true, gate) => some { s with gate := gate, worker := .claimed }
      | (false, _) => some (s.fail SpawnGate.CANCELLED)
  | .claimed, .recheck => some (s.whilePending .creating)
  | .creating, .create (.error error) => some (s.fail error)
  | .creating, .create (.ok child) => some { s with worker := .created child, created := true }
  | .created child, .markLaunched =>
      some { s with
        gate := { s.gate with launched := true }, worker := .pending ⟨some child, none⟩ }
  | .pending spawn, .enroll (.ok processTree) =>
      -- `into_parts`: there is a child until a cleanup has reaped it.
      spawn.child.map fun child => s.finish (.ok (.ok ⟨some ⟨child, processTree⟩⟩))
  | .pending spawn, .enroll (.error error) => some { s with worker := .failing error spawn }
  | .failing error spawn, .cleanup attempt =>
      some { s.cleanup spawn attempt with
        worker := .dropping (.ok (.error ⟨error, (spawn.cleanup attempt).1⟩))
          (spawn.cleanup attempt).2 }
  | .dropping output spawn, .retry attempt =>
      match (spawn.cleanup attempt).1 with
      | .ok () => some ((s.cleanup spawn attempt).finish output)
      | .error _ => some { s with worker := .dropping output (spawn.cleanup attempt).2 }
  | .checking, .panic message => some (s.finish (.error message))
  | .checked, .panic message => some (s.finish (.error message))
  | .claimed, .panic message => some (s.finish (.error message))
  | .creating, .panic message => some (s.finish (.error message))
  | .pending spawn, .panic message => some { s with worker := .dropping (.error message) spawn }
  | _, _ => none

/-! ## Steps of the future -/

inductive WaiterAct where
  | stop (stop : Stop)
  | receive
  | storeCancelled
  | exchangeCancelled
  | await
  | teardown (attempt : Attempt)
  | report
  | collect (status : Except String Int)
  | drop

/-- The worker branch of the select. -/
def received : Output → Except ToolError SpawnWait
  | .error error => .error (.Execution ("exec spawn worker failed: " ++ error))
  | .ok (.error failure) => .error failure.intoToolError
  | .ok (.ok program) => .ok (.Spawned program)

/-- `cleanup_started_spawn`, behind the `await` of the worker. -/
def joined (stop : Stop) : Output → Waiter
  | .ok (.ok program) => .cleaning stop program
  | .ok (.error failure) => .reporting stop failure.teardown
  | .error error => .reporting stop (.error ("exec spawn worker failed during cleanup: " ++ error))

def reported (gate : SpawnGate) (teardown : IoResult) : Stop → SpawnWait
  | .cancelled => .Cancelled teardown
  | .deadline => .Timeout gate.launched teardown

def Exit.waiter : Exit → Waiter
  | .returns result => .returned result
  | .dropped => .dropped

/-- Behind the exchange of `cancel`. -/
def exchanged (won : Bool) : Then → Waiter
  | .stop stop => if won then .reporting stop (.ok ()) else .joining stop
  | .leave exit => exit.waiter

def Stop.kind : Stop → TeardownKind
  | .cancelled => .Cancelled
  | .deadline => .Timeout

def TeardownKind.outcome (teardown : IoResult) : TeardownKind → RunOutcome
  | .Timeout => .Timeout teardown true
  | .Cancelled => .Cancelled teardown
  | .Failed error => .CollectFailed error teardown

def waiterStep (s : State) (act : WaiterAct) : Option State :=
  match s.waiter, act with
  | .selecting, .stop stop => some { s with waiter := .storing (.stop stop) }
  | .selecting, .receive =>
      match s.join with
      | .ready output =>
          some { s with join := .taken, waiter := .storing (.leave (.returns (received output))) }
      | _ => none
  | .selecting, .drop => some { s.detach with waiter := .storing (.leave .dropped) }
  | .storing next, .storeCancelled =>
      some { s with gate := { s.gate with cancelled := true }, waiter := .exchanging next }
  | .exchanging next, .exchangeCancelled =>
      let (won, gate) := s.gate.exchange .Cancelled
      some { s with
        gate := gate, cancelWon := s.cancelWon || won, waiter := exchanged won next }
  | .joining stop, .await =>
      match s.join with
      | .ready output => some { s with join := .taken, waiter := joined stop output }
      | _ => none
  | .joining _, .drop => some { s.detach with waiter := .storing (.leave .dropped) }
  | .cleaning stop program, .teardown attempt =>
      some { s.teardown program attempt with
        waiter := .reporting stop (program.teardown attempt).1 }
  | .cleaning _ program, .drop =>
      some { s.supervise program with waiter := .storing (.leave .dropped) }
  | .reporting stop teardown, .report =>
      some { s with
        waiter := .storing (.leave (.returns (.ok (reported s.gate teardown stop)))) }
  | .returned (.ok (.Spawned _)), .collect (.ok status) =>
      some { s with exited := true, waiter := .done (.Done status) }
  | .returned (.ok (.Spawned program)), .collect (.error error) =>
      some { s with waiter := .tearing (.Failed error) program }
  | .returned (.ok (.Spawned program)), .stop stop =>
      some { s with waiter := .tearing stop.kind program }
  | .returned (.ok (.Spawned program)), .drop =>
      some { s.supervise program with waiter := .dropped }
  | .tearing kind program, .teardown attempt =>
      some { s.teardown program attempt with
        waiter := .done (kind.outcome (program.teardown attempt).1) }
  | .tearing _ program, .drop => some { s.supervise program with waiter := .dropped }
  | _, _ => none

/-! ## Steps of the cleanup threads -/

inductive CleanerAct where
  | take (index : Nat)
  | retry (index : Nat) (attempt : Attempt)

def cleanerStep (s : State) (act : CleanerAct) : Option State :=
  match act with
  | .take index =>
      match s.cleaners[index]? with
      | some (.handed live) => some { s with cleaners := s.cleaners.set index (.looping live) }
      | _ => none
  | .retry index attempt =>
      match s.cleaners[index]? with
      | some (.looping _) =>
          match teardownLive attempt with
          | .ok () => some { s with cleaners := s.cleaners.eraseIdx index, torn := true }
          | .error _ => some s
      | _ => none

inductive Act where
  | worker (act : WorkerAct)
  | waiter (act : WaiterAct)
  | cleaner (act : CleanerAct)

def step (s : State) : Act → Option State
  | .worker act => workerStep s act
  | .waiter act => waiterStep s act
  | .cleaner act => cleanerStep s act

end MCode.Exec.Spawn
