import MCode.Lib.Machine

/-!
# The generation fence

`mcode-plugin-host/src/generation.rs`: one fence gates the activities of one
generation by a word that packs a phase and a count, by the publication epoch
that it shares with its publisher, and by a mutex for commits.

A call of a method is a program point, `Call`; `advance` performs its next
atomic operation, and `step` lets any call of a system do so.  Each load,
store, exchange, `notify_one`, and each acquire and release of the mutex is a
step of its own, so every interleaving is a run.  The fence has one
`mark_current` call; the others start at will.
-/

namespace MCode.Generations

/-! ## The packed word -/

/-- `usize`. -/
abbrev Word := BitVec 64

def PUBLICATION_CLOSED : Word := BitVec.allOnes 64

def GENERATION_PHASE_MASK : Word := 0b11
def GENERATION_PREPARING : Word := 0
def GENERATION_CURRENT : Word := 1
def GENERATION_RETIRED : Word := 2
def GENERATION_ACTIVITY_INCREMENT : Word := GENERATION_PHASE_MASK + 1
def MAX_GENERATION_ACTIVITIES : Word := BitVec.allOnes 64 >>> 2

def generationPhase (state : Word) : Word := state &&& GENERATION_PHASE_MASK

def generationActivityCount (state : Word) : Word := state >>> 2

/-- The word that `mark_retired` stores. -/
def retiredWord (state : Word) : Word :=
  (state &&& ~~~GENERATION_PHASE_MASK) ||| GENERATION_RETIRED

/-- `u64::is_multiple_of(2)`. -/
def isEven (epoch : Word) : Bool := epoch.toNat % 2 == 0

/-! ## The fence -/

/-- `tokio::sync::Notify`: `notify_one` wakes the first waiter, or leaves one
permit. -/
structure Notify where
  permit : Bool
  waiters : List Nat
  deriving DecidableEq

def Notify.notifyOne (self : Notify) : Notify :=
  match self.waiters with
  | [] => { self with permit := true }
  | _ :: waiters => { self with waiters := waiters }

/-- `GenerationFence`, with the call that holds the mutex `commit`. -/
structure Fence where
  publicationState : Word
  state : Word
  drained : Notify
  commit : Option Nat
  poisoned : Bool
  deriving DecidableEq

def Fence.new (publicationState : Word) : Fence :=
  ⟨publicationState, GENERATION_PREPARING, ⟨false, []⟩, none, false⟩

/-! ## Calls -/

/-- A call at the point before its next atomic operation. -/
inductive Call where
  /-- `enter`, before it loads the publication epoch. -/
  | enter
  /-- Before it loads the word. -/
  | enterLoading (epoch : Word)
  /-- In the loop, with the word that it saw last. -/
  | enterTrying (epoch state : Word)
  /-- Behind the exchange, before it loads the epoch again. -/
  | enterReserved (epoch : Word)
  /-- Behind a changed epoch, before `release`. -/
  | enterRollback
  /-- In `release`, before `notify_one`. -/
  | enterNotifying
  /-- Returned `None`. -/
  | enterRefused
  /-- Returned an activity that is alive. -/
  | activity (epoch : Word)
  /-- In the `release` of a dropped activity, before `notify_one`. -/
  | activityNotifying
  | activityDropped
  /-- `begin_commit`, before it locks the mutex. -/
  | beginCommit (activity : Nat)
  /-- Holds the mutex, before it loads the epoch. -/
  | commitLocked (activity : Nat)
  /-- Holds the mutex, before it loads the word. -/
  | commitLoading (activity : Nat)
  /-- Holds the mutex, about to return `Stale`. -/
  | commitStale (activity : Nat)
  /-- Holds the mutex, which is poisoned. -/
  | commitUnavailable (activity : Nat)
  /-- Returned a commit that is open. -/
  | commitOpen (activity : Nat)
  | commitReturned
  | markCurrent
  | markedCurrent
  /-- `mark_retired`, before it locks the mutex. -/
  | markRetired
  /-- Holds the mutex, before it loads the word. -/
  | retireLocked
  /-- In the loop, with the word that it saw last. -/
  | retireTrying (state : Word)
  /-- Holds the mutex, about to return. -/
  | retireDone
  | retireReturned
  | closePublication
  | closedPublication
  /-- `wait_drained`, before it loads the word, with a new `notified`. -/
  | waitDrained
  /-- Before it polls `notified`. -/
  | waitPolling
  /-- Until it is notified. -/
  | waitBlocked
  | waitReturned
  | panicked
  deriving DecidableEq

/-- The calls that start at will. -/
inductive Start where
  | enter
  | beginCommit (activity : Nat)
  | markRetired
  | closePublication
  | waitDrained

def Start.call : Start → Call
  | .enter => .enter
  | .beginCommit activity => .beginCommit activity
  | .markRetired => .markRetired
  | .closePublication => .closePublication
  | .waitDrained => .waitDrained

/-- `release`: the count goes down, and the last one notifies. -/
def release (fence : Fence) (notifying done : Call) : Fence × Call :=
  if generationActivityCount fence.state = 0 then (fence, .panicked)
  else
    ({ fence with state := fence.state - GENERATION_ACTIVITY_INCREMENT },
      if generationActivityCount fence.state = 1 then notifying else done)

def unlock (fence : Fence) : Fence := { fence with commit := none }

/-- The next atomic operation of call `i`; `none` where it has to wait or has
returned.  The flag makes a weak exchange fail for no reason, and drops the
commit of a panicking task. -/
def advance (fence : Fence) (i : Nat) (flag : Bool) : Call → Option (Fence × Call)
  | .enter =>
      if fence.publicationState = PUBLICATION_CLOSED || !isEven fence.publicationState then
        some (fence, .enterRefused)
      else some (fence, .enterLoading fence.publicationState)
  | .enterLoading epoch => some (fence, .enterTrying epoch fence.state)
  | .enterTrying epoch state =>
      if generationPhase state ≠ GENERATION_CURRENT
          || generationActivityCount state = MAX_GENERATION_ACTIVITIES then
        some (fence, .enterRefused)
      else if fence.state = state ∧ flag = false then
        some ({ fence with state := state + GENERATION_ACTIVITY_INCREMENT }, .enterReserved epoch)
      else some (fence, .enterTrying epoch fence.state)
  | .enterReserved epoch =>
      if fence.publicationState ≠ epoch then some (fence, .enterRollback)
      else some (fence, .activity epoch)
  | .enterRollback => some (release fence .enterNotifying .enterRefused)
  | .enterNotifying =>
      some ({ fence with drained := fence.drained.notifyOne }, .enterRefused)
  | .enterRefused => none
  | .activity _ => some (release fence .activityNotifying .activityDropped)
  | .activityNotifying =>
      some ({ fence with drained := fence.drained.notifyOne }, .activityDropped)
  | .activityDropped => none
  | .beginCommit activity =>
      if fence.commit = none then
        some ({ fence with commit := some i },
          if fence.poisoned then .commitUnavailable activity else .commitLocked activity)
      else none
  | .commitLocked activity =>
      if fence.publicationState = PUBLICATION_CLOSED then some (fence, .commitStale activity)
      else some (fence, .commitLoading activity)
  | .commitLoading activity =>
      if generationPhase fence.state ≠ GENERATION_CURRENT then
        some (fence, .commitStale activity)
      else some (fence, .commitOpen activity)
  | .commitStale _ => some (unlock fence, .commitReturned)
  | .commitUnavailable _ => some (unlock fence, .commitReturned)
  | .commitOpen _ =>
      some ({ unlock fence with poisoned := fence.poisoned || flag }, .commitReturned)
  | .commitReturned => none
  | .markCurrent =>
      if fence.state = GENERATION_PREPARING then
        some ({ fence with state := GENERATION_CURRENT }, .markedCurrent)
      else some (fence, .panicked)
  | .markedCurrent => none
  | .markRetired =>
      if fence.commit = none then some ({ fence with commit := some i }, .retireLocked)
      else none
  | .retireLocked => some (fence, .retireTrying fence.state)
  | .retireTrying state =>
      if generationPhase state = GENERATION_RETIRED then some (unlock fence, .retireReturned)
      else if generationPhase state ≠ GENERATION_PREPARING
          && generationPhase state ≠ GENERATION_CURRENT then
        some ({ unlock fence with poisoned := true }, .panicked)
      else if fence.state = state ∧ flag = false then
        some ({ fence with state := retiredWord state }, .retireDone)
      else some (fence, .retireTrying fence.state)
  | .retireDone => some (unlock fence, .retireReturned)
  | .retireReturned => none
  | .closePublication =>
      some ({ fence with publicationState := PUBLICATION_CLOSED }, .closedPublication)
  | .closedPublication => none
  | .waitDrained =>
      if generationActivityCount fence.state = 0 then some (fence, .waitReturned)
      else some (fence, .waitPolling)
  | .waitPolling =>
      if fence.drained.permit then
        some ({ fence with drained := { fence.drained with permit := false } }, .waitDrained)
      else
        some ({ fence with
          drained := { fence.drained with waiters := fence.drained.waiters ++ [i] } }, .waitBlocked)
  | .waitBlocked => if i ∈ fence.drained.waiters then none else some (fence, .waitDrained)
  | .waitReturned => none
  | .panicked => none

/-! ## Systems -/

structure System where
  fence : Fence
  calls : List Call
  deriving DecidableEq

/-- The activity that a commit in progress borrows. -/
def Call.borrows : Call → Option Nat
  | .beginCommit owner | .commitLocked owner | .commitLoading owner
  | .commitStale owner | .commitUnavailable owner | .commitOpen owner => some owner
  | _ => none

inductive Label where
  | start (start : Start)
  | tick (call : Nat) (flag : Bool)
  /-- The publisher moves the epoch. -/
  | publish (epoch : Word)

def Call.isActivity : Call → Bool
  | .activity _ => true
  | _ => false

/-- A commit starts on an activity that is alive. -/
def Start.allowed (calls : List Call) : Start → Bool
  | .beginCommit activity => calls[activity]?.any Call.isActivity
  | _ => true

/-- An activity that is borrowed is not dropped. -/
def borrowed (calls : List Call) (i : Nat) : Bool :=
  calls.any fun call => call.borrows == some i

/-- One step.  The publisher only raises the epoch. -/
def step (s : System) : Label → Option System
  | .start start =>
      if start.allowed s.calls then some { s with calls := s.calls ++ [start.call] } else none
  | .tick i flag =>
      match s.calls[i]? with
      | none => none
      | some call =>
          if call.isActivity && borrowed s.calls i then none
          else
            (advance s.fence i flag call).map fun result =>
              ⟨result.1, s.calls.set i result.2⟩
  | .publish epoch =>
      if s.fence.publicationState < epoch then
        some { s with fence := { s.fence with publicationState := epoch } }
      else none

/-- A new fence, with its `mark_current` call to come. -/
def init (publicationState : Word) : System := ⟨Fence.new publicationState, [.markCurrent]⟩

end MCode.Generations
