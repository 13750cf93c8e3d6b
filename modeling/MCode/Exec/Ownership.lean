import MCode.Exec.Spawn

/-!
# Launches are reported truthfully and processes have one owner

The gate moves away from `Pending` once, by the worker or by a call of
`cancel`.  If `cancel` moves it, the worker never creates a process; if the
worker does, `cancel` fails and the future waits until the worker is finished.
So when a stop is reported the worker is finished or barred, and nothing
launches the program any more.

Each step moves the owner of the process from one holder to another, or drops it
behind a teardown that succeeded or the end of the program.
-/

namespace MCode.Exec.Spawn

open MCode.Lib MCode.Lib.Machine
open MCode.Tools

/-! ## Holders -/

def SpawnedProgram.owners (self : SpawnedProgram) : Nat := if self.live.isSome then 1 else 0

def Output.owners : Output → Nat
  | .ok (.ok program) => program.owners
  | _ => 0

/-- The worker's pending owner, as long as the worker itself works with it. -/
def Worker.pendingOwners : Worker → Nat
  | .created _ => 1
  | .pending _ => 1
  | .failing _ _ => 1
  | _ => 0

/-- The loop at the end of a pending owner. -/
def Worker.loops : Worker → Nat
  | .dropping _ _ => 1
  | _ => 0

def Join.owners : Join → Nat
  | .ready output => output.owners
  | _ => 0

def SpawnWait.owners : SpawnWait → Nat
  | .Spawned program => program.owners
  | _ => 0

def Exit.owners : Exit → Nat
  | .returns (.ok wait) => wait.owners
  | _ => 0

def Then.owners : Then → Nat
  | .stop _ => 0
  | .leave exit => exit.owners

def Waiter.owners : Waiter → Nat
  | .storing next => next.owners
  | .exchanging next => next.owners
  | .cleaning _ program => program.owners
  | .returned (.ok wait) => wait.owners
  | .tearing _ program => program.owners
  | _ => 0

/-- Owners that are pending in the worker. -/
def State.pendingSpawns (s : State) : Nat := s.worker.pendingOwners

/-- Owners in a program that the worker has returned. -/
def State.returnedPrograms (s : State) : Nat := s.join.owners + s.waiter.owners

/-- Owners in a loop that retries the teardown. -/
def State.cleanupLoops (s : State) : Nat := s.worker.loops + s.cleaners.length

def State.owners (s : State) : Nat := s.pendingSpawns + s.returnedPrograms + s.cleanupLoops

/-! ## Moves of the worker -/

def Worker.free : Worker → Prop
  | .checking => True
  | .checked => True
  | .claimed => True
  | .creating => True
  | _ => False

/-- What a step of the worker can do. -/
inductive WorkerMove (s : State) : State → Prop
  | advance (next : Worker) (hfree : s.worker.free) (hnext : next.free)
      (hclaimed : next = .creating → s.worker = .claimed)
      (hclaim : next ≠ .claimed) :
      WorkerMove s { s with worker := next }
  | claim (hfree : s.worker.free) (hpending : s.gate.state = .Pending) :
      WorkerMove s { s with gate := { s.gate with state := .Started }, worker := .claimed }
  | refused (output : Output) (hfree : s.worker.free) (hnone : output.owners = 0) :
      WorkerMove s (s.finish output)
  | create (child : Nat) (hworker : s.worker = .creating) :
      WorkerMove s { s with worker := .created child, created := true }
  | launch (child : Nat) (hworker : s.worker = .created child) :
      WorkerMove s { s with
        gate := { s.gate with launched := true }, worker := .pending ⟨some child, none⟩ }
  | spawned (spawn : PendingLinuxSpawn) (live : LiveSpawn) (hworker : s.worker = .pending spawn) :
      WorkerMove s (s.finish (.ok (.ok ⟨some live⟩)))
  | failed (error : ToolError) (spawn : PendingLinuxSpawn) (hworker : s.worker = .pending spawn) :
      WorkerMove s { s with worker := .failing error spawn }
  | panicked (message : String) (spawn : PendingLinuxSpawn) (hworker : s.worker = .pending spawn) :
      WorkerMove s { s with worker := .dropping (.error message) spawn }
  | cleaned (error : ToolError) (spawn : PendingLinuxSpawn) (attempt : Attempt)
      (hworker : s.worker = .failing error spawn) :
      WorkerMove s { s.cleanup spawn attempt with
        worker := .dropping (.ok (.error ⟨error, (spawn.cleanup attempt).1⟩))
          (spawn.cleanup attempt).2 }
  | retried (output : Output) (spawn : PendingLinuxSpawn) (attempt : Attempt) (error : String)
      (hworker : s.worker = .dropping output spawn)
      (hfailed : (spawn.cleanup attempt).1 = .error error) :
      WorkerMove s { s with worker := .dropping output (spawn.cleanup attempt).2 }
  | reaped (output : Output) (spawn : PendingLinuxSpawn) (attempt : Attempt)
      (hworker : s.worker = .dropping output spawn) (hok : (spawn.cleanup attempt).1 = .ok ()) :
      WorkerMove s ((s.cleanup spawn attempt).finish output)

/-- A step that is refused once the command is cancelled. -/
theorem whilePending_move {s : State} {next : Worker} (hfree : s.worker.free) (hnext : next.free)
    (hclaimed : next = .creating → s.worker = .claimed) (hclaim : next ≠ .claimed) :
    WorkerMove s (s.whilePending next) := by
  unfold State.whilePending
  split
  · exact .advance next hfree hnext hclaimed hclaim
  · exact .refused _ hfree rfl

theorem workerStep_move {s s' : State} {act : WorkerAct} (h : workerStep s act = some s') :
    WorkerMove s s' := by
  unfold workerStep at h
  split at h
  · rename_i hworker
    cases h
    exact whilePending_move (by rw [hworker]; trivial) trivial nofun nofun
  · rename_i hworker
    cases h
    exact .refused _ (by rw [hworker]; trivial) rfl
  · rename_i hworker
    cases h
    exact whilePending_move (by rw [hworker]; trivial) trivial nofun nofun
  · rename_i hworker
    have hfree : s.worker.free := by rw [hworker]; trivial
    unfold SpawnGate.exchange at h
    by_cases hpending : s.gate.state = .Pending
    · rw [if_pos hpending] at h
      cases h
      exact .claim hfree hpending
    · rw [if_neg hpending] at h
      cases h
      exact .refused _ hfree rfl
  · rename_i hworker
    cases h
    exact whilePending_move (by rw [hworker]; trivial) trivial (fun _ => hworker) nofun
  · rename_i hworker
    cases h
    exact .refused _ (by rw [hworker]; trivial) rfl
  · rename_i child hworker
    cases h
    exact .create child hworker
  · rename_i child hworker
    cases h
    exact .launch child hworker
  · rename_i spawn processTree hworker
    obtain ⟨child, -, rfl⟩ := Option.map_eq_some_iff.1 h
    exact .spawned spawn _ hworker
  · rename_i spawn error hworker
    cases h
    exact .failed error spawn hworker
  · rename_i error spawn attempt hworker
    cases h
    exact .cleaned error spawn attempt hworker
  · rename_i output spawn attempt hworker
    split at h
    · rename_i hok
      cases h
      exact .reaped output spawn attempt hworker hok
    · rename_i error hfailed
      cases h
      exact .retried output spawn attempt error hworker hfailed
  · rename_i message hworker
    cases h
    exact .refused _ (by rw [hworker]; trivial) rfl
  · rename_i message hworker
    cases h
    exact .refused _ (by rw [hworker]; trivial) rfl
  · rename_i message hworker
    cases h
    exact .refused _ (by rw [hworker]; trivial) rfl
  · rename_i message hworker
    cases h
    exact .refused _ (by rw [hworker]; trivial) rfl
  · rename_i spawn message hworker
    cases h
    exact .panicked message spawn hworker
  · cases h

/-! ## The invariant -/

/-- Nothing launches the program any more: the worker is finished, or barred from starting. -/
def State.Settled (s : State) : Prop := s.worker = .finished ∨ s.cancelWon = true

/-- What the worker's place says of the process. -/
def State.Fits (s : State) : Worker → Prop
  | .checking => s.created = false ∧ s.gate.launched = false
  | .checked => s.created = false ∧ s.gate.launched = false
  | .claimed => s.created = false ∧ s.gate.launched = false ∧ s.gate.state = .Started
  | .creating => s.created = false ∧ s.gate.launched = false ∧ s.gate.state = .Started
  | .created _ => s.created = true ∧ s.gate.launched = false
  | .pending spawn => s.created = true ∧ s.gate.launched = true ∧ spawn.child.isSome = true
  | .failing _ spawn => s.created = true ∧ s.gate.launched = true ∧ spawn.child.isSome = true
  | .dropping output spawn => s.created = true ∧ s.gate.launched = true ∧ output.owners = 0 ∧
      (spawn.child = none → s.torn = true)
  | .finished => s.created = s.gate.launched

/-- What is said of a stop. -/
def State.Truthful (s : State) : SpawnWait → Prop
  | .Spawned _ => True
  | .Timeout started _ => s.Settled ∧ started = s.gate.launched
  | .Cancelled _ => s.Settled

def State.Leaves (s : State) : Exit → Prop
  | .returns (.ok wait) => s.Truthful wait
  | _ => True

def State.Awaits (s : State) : Waiter → Prop
  | .storing (.leave exit) => s.Leaves exit
  | .exchanging (.leave exit) => s.Leaves exit
  | .cleaning _ _ => s.worker = .finished
  | .reporting _ _ => s.Settled
  | .returned (.ok wait) => s.Truthful wait
  | _ => True

/-- The output is at the handle, or was taken. -/
def Join.delivered : Join → Prop
  | .ready _ => True
  | .taken => True
  | _ => False

/-- The process has one owner until it was torn down or ended. -/
def State.Owned (s : State) : Prop :=
  if s.created then s.owners = 1 ∨ s.owners = 0 ∧ (s.torn = true ∨ s.exited = true)
  else s.owners = 0

structure Inv (s : State) : Prop where
  started : s.created = true → s.gate.state = .Started
  won : s.cancelWon = true → s.gate.state = .Cancelled
  worker : s.Fits s.worker
  join : s.join.delivered → s.worker = .finished
  waiter : s.Awaits s.waiter
  owned : s.Owned

theorem Inv.start : Inv State.start where
  started := nofun
  won := nofun
  worker := ⟨rfl, rfl⟩
  join := nofun
  waiter := trivial
  owned := rfl

/-- What was said of a stop stays true while the flags stay and the future is settled. -/
theorem Truthful.mono {s s' : State} {wait : SpawnWait} (h : s.Truthful wait)
    (hsettled : s.Settled → s'.Settled ∧ s'.gate.launched = s.gate.launched) :
    s'.Truthful wait := by
  cases wait with
  | Spawned program => trivial
  | Timeout started teardown =>
      obtain ⟨hs, hlaunched⟩ := hsettled h.1
      exact ⟨hs, h.2.trans hlaunched.symm⟩
  | Cancelled teardown => exact (hsettled h).1

theorem Leaves.mono {s s' : State} {exit : Exit} (h : s.Leaves exit)
    (hsettled : s.Settled → s'.Settled ∧ s'.gate.launched = s.gate.launched) :
    s'.Leaves exit := by
  cases exit with
  | returns result =>
      cases result with
      | ok wait => exact Truthful.mono h hsettled
      | error error => trivial
  | dropped => trivial

/-- A step of another party. -/
theorem Awaits.mono {s s' : State} {waiter : Waiter} (h : s.Awaits waiter)
    (hfinished : s.worker = .finished → s'.worker = .finished)
    (hsettled : s.Settled → s'.Settled ∧ s'.gate.launched = s.gate.launched) :
    s'.Awaits waiter := by
  unfold State.Awaits at h ⊢
  split at h
  · exact Leaves.mono h hsettled
  · exact Leaves.mono h hsettled
  · exact hfinished h
  · exact (hsettled h).1
  · exact Truthful.mono h hsettled
  · trivial

/-! ## Handing over -/

theorem supervise_length (program : SpawnedProgram) :
    program.supervise.length = program.owners := by
  unfold SpawnedProgram.supervise SpawnedProgram.owners
  cases program.live <;> rfl

theorem discard_length (output : Output) : output.discard.length = output.owners := by
  cases output with
  | error message => rfl
  | ok result =>
      cases result with
      | error failure => rfl
      | ok program => exact supervise_length program

/-- A teardown keeps the owner, unless it succeeds. -/
theorem teardown_length (program : SpawnedProgram) (attempt : Attempt) :
    (program.teardown attempt).2.length = program.owners ∨
      (program.teardown attempt).2.length = 0 ∧ program.reaps attempt = true := by
  unfold SpawnedProgram.teardown SpawnedProgram.reaps
  cases hlive : program.live with
  | none =>
      left
      unfold SpawnedProgram.owners
      rw [hlive]
      rfl
  | some live =>
      dsimp only
      cases teardownLive attempt with
      | ok done => exact Or.inr ⟨rfl, rfl⟩
      | error error => exact Or.inl (supervise_length program)

/-- A cleanup of a pending owner fails and keeps the child, or reaps it. -/
theorem cleanup_child (spawn : PendingLinuxSpawn) (attempt : Attempt) :
    (∃ error, (spawn.cleanup attempt).1 = .error error ∧
        (spawn.cleanup attempt).2.child = spawn.child) ∨
      (spawn.cleanup attempt).1 = .ok () ∧
        (spawn.child.isSome = true → spawn.reaps attempt = true) := by
  unfold PendingLinuxSpawn.reaps PendingLinuxSpawn.cleanup
  cases hchild : spawn.child with
  | none => exact Or.inr ⟨rfl, nofun⟩
  | some child =>
      dsimp only
      split
      · exact Or.inl ⟨_, rfl, hchild⟩
      · split
        · exact Or.inl ⟨_, rfl, rfl⟩
        · split
          · exact Or.inl ⟨_, rfl, rfl⟩
          · exact Or.inr ⟨rfl, fun _ => rfl⟩

theorem join_owners {join : Join} (h : ¬join.delivered) : join.owners = 0 := by
  cases join with
  | running => rfl
  | ready output => exact absurd trivial h
  | taken => rfl
  | detached => rfl

/-- The output goes to the handle, or is dropped. -/
theorem finish_owners {s : State} (output : Output) (h : ¬s.join.delivered) :
    (s.finish output).owners + s.worker.pendingOwners + s.worker.loops =
      s.owners + output.owners := by
  have hnone := join_owners h
  have hdiscard := discard_length output
  unfold State.owners State.pendingSpawns State.returnedPrograms State.cleanupLoops State.finish
  dsimp only [Worker.pendingOwners, Worker.loops]
  cases hjoin : s.join with
  | running =>
      rw [hjoin] at hnone
      dsimp only [Join.finish, Join.owners]
      rw [List.length_append, List.length_nil]
      omega
  | ready other =>
      rw [hjoin] at h
      exact absurd trivial h
  | taken =>
      rw [hjoin] at h
      exact absurd trivial h
  | detached =>
      dsimp only [Join.finish, Join.owners]
      rw [List.length_append]
      omega

theorem detach_owners (s : State) : s.detach.owners = s.owners := by
  unfold State.owners State.pendingSpawns State.returnedPrograms State.cleanupLoops State.detach
  dsimp only
  cases hjoin : s.join with
  | ready output =>
      have hdiscard := discard_length output
      dsimp only [Join.detach, Join.owners]
      rw [List.length_append]
      omega
  | running =>
      dsimp only [Join.detach, Join.owners]
      rw [List.append_nil]
  | taken =>
      dsimp only [Join.detach, Join.owners]
      rw [List.append_nil]
  | detached =>
      dsimp only [Join.detach, Join.owners]
      rw [List.append_nil]

/-! ## Each step keeps the invariant -/

theorem free_none {worker : Worker} (h : worker.free) :
    worker.pendingOwners = 0 ∧ worker.loops = 0 ∧ worker ≠ .finished := by
  cases worker with
  | checking => exact ⟨rfl, rfl, nofun⟩
  | checked => exact ⟨rfl, rfl, nofun⟩
  | claimed => exact ⟨rfl, rfl, nofun⟩
  | creating => exact ⟨rfl, rfl, nofun⟩
  | created child => exact h.elim
  | pending spawn => exact h.elim
  | failing error spawn => exact h.elim
  | dropping output spawn => exact h.elim
  | finished => exact h.elim

theorem Inv.free {s : State} (h : Inv s) (hfree : s.worker.free) :
    s.created = false ∧ s.gate.launched = false := by
  have hfits := h.worker
  cases hworker : s.worker with
  | checking =>
      rw [hworker] at hfits
      exact hfits
  | checked =>
      rw [hworker] at hfits
      exact hfits
  | claimed =>
      rw [hworker] at hfits
      exact ⟨hfits.1, hfits.2.1⟩
  | creating =>
      rw [hworker] at hfits
      exact ⟨hfits.1, hfits.2.1⟩
  | created child => exact (hworker ▸ hfree : Worker.free (.created child)).elim
  | pending spawn => exact (hworker ▸ hfree : Worker.free (.pending spawn)).elim
  | failing error spawn => exact (hworker ▸ hfree : Worker.free (.failing error spawn)).elim
  | dropping output spawn => exact (hworker ▸ hfree : Worker.free (.dropping output spawn)).elim
  | finished => exact (hworker ▸ hfree : Worker.free .finished).elim

/-- A worker that still works, and a step that leaves the flags alone. -/
theorem settled_of_working {s s' : State} (hworker : s.worker ≠ .finished)
    (hwon : s'.cancelWon = s.cancelWon) (hlaunched : s'.gate.launched = s.gate.launched) :
    s.Settled → s'.Settled ∧ s'.gate.launched = s.gate.launched := by
  rintro (hfinished | hcancel)
  · exact absurd hfinished hworker
  · exact ⟨Or.inr (hwon.trans hcancel), hlaunched⟩

theorem Inv.undelivered {s : State} (h : Inv s) (hworker : s.worker ≠ .finished) :
    ¬s.join.delivered := fun hdelivered => hworker (h.join hdelivered)

theorem Inv.unowned {s : State} (h : Inv s) (hcreated : s.created = false) : s.owners = 0 := by
  have howned := h.owned
  unfold State.Owned at howned
  rw [hcreated] at howned
  exact howned

theorem Inv.owned_cases {s : State} (h : Inv s) (hcreated : s.created = true) :
    s.owners = 1 ∨ s.owners = 0 ∧ (s.torn = true ∨ s.exited = true) := by
  have howned := h.owned
  unfold State.Owned at howned
  rw [hcreated] at howned
  exact howned

theorem Owned.of_created {s : State} (hcreated : s.created = true)
    (h : s.owners = 1 ∨ s.owners = 0 ∧ (s.torn = true ∨ s.exited = true)) : s.Owned := by
  unfold State.Owned
  rw [hcreated]
  exact h

theorem owners_eq (s : State) :
    s.owners = s.worker.pendingOwners + (s.join.owners + s.waiter.owners) +
      (s.worker.loops + s.cleaners.length) := rfl

/-- What the step of another party leaves of the process. -/
theorem Owned.of_le {s s' : State} (h : s.Owned) (hcreated : s'.created = s.created)
    (hle : s'.owners ≤ s.owners) (htorn : s.torn = true → s'.torn = true)
    (hexited : s.exited = true → s'.exited = true)
    (hlost : s'.owners < s.owners → s'.torn = true ∨ s'.exited = true) : s'.Owned := by
  unfold State.Owned at h ⊢
  rw [hcreated]
  cases hmade : s.created with
  | false =>
      rw [hmade] at h
      exact Nat.le_zero.1 (hle.trans (Nat.le_of_eq h))
  | true =>
      rw [hmade] at h
      rcases h with hone | ⟨hzero, hended⟩
      · by_cases hlt : s'.owners < s.owners
        · exact Or.inr ⟨by omega, hlost hlt⟩
        · exact Or.inl (by omega)
      · exact Or.inr ⟨by omega, hended.imp htorn hexited⟩

theorem Owned.same {s s' : State} (h : s.Owned) (hcreated : s'.created = s.created)
    (howners : s'.owners = s.owners) (htorn : s.torn = true → s'.torn = true)
    (hexited : s.exited = true → s'.exited = true) : s'.Owned :=
  Owned.of_le h hcreated (Nat.le_of_eq howners) htorn hexited fun hlt => absurd hlt (by omega)

/-- A step of the worker that leaves the gate and the output alone. -/
theorem Inv.working {s s' : State} (h : Inv s) (hworking : s.worker ≠ .finished)
    (hgate : s'.gate.state = s.gate.state) (hlaunched : s'.gate.launched = s.gate.launched)
    (hwon : s'.cancelWon = s.cancelWon) (hcreated : s'.created = s.created)
    (hjoin : s'.join = s.join) (hwaiter : s'.waiter = s.waiter) (hfits : s'.Fits s'.worker)
    (howned : s'.Owned) : Inv s' where
  started hmade := hgate.trans (h.started (hcreated.symm.trans hmade))
  won hcancel := hgate.trans (h.won (hwon.symm.trans hcancel))
  worker := hfits
  join hdelivered := absurd (hjoin ▸ hdelivered) (h.undelivered hworking)
  waiter := hwaiter ▸ Awaits.mono h.waiter (fun hf => absurd hf hworking)
    (settled_of_working hworking hwon hlaunched)
  owned := howned

/-- Where the worker is, and that it still works there. -/
theorem Inv.at_worker {s : State} {worker : Worker} (h : Inv s) (hworker : s.worker = worker)
    (hne : worker ≠ .finished) : s.Fits worker ∧ s.worker ≠ .finished :=
  hworker ▸ ⟨h.worker, hworker ▸ hne⟩

theorem WorkerMove.inv {s s' : State} (h : Inv s) (hmove : WorkerMove s s') : Inv s' := by
  cases hmove with
  | advance next hfree hnext hclaimed hclaim =>
      obtain ⟨hcreated, hlaunched⟩ := h.free hfree
      obtain ⟨hpending, hloops, hworking⟩ := free_none hfree
      obtain ⟨hpending', hloops', -⟩ := free_none hnext
      refine h.working hworking rfl rfl rfl rfl rfl rfl ?_ (Owned.same h.owned rfl ?_ id id)
      · cases next with
        | checking => exact ⟨hcreated, hlaunched⟩
        | checked => exact ⟨hcreated, hlaunched⟩
        | claimed => exact absurd rfl hclaim
        | creating =>
            have hfits := h.worker
            rw [hclaimed rfl] at hfits
            exact hfits
        | created child => exact hnext.elim
        | pending spawn => exact hnext.elim
        | failing error spawn => exact hnext.elim
        | dropping output spawn => exact hnext.elim
        | finished => exact hnext.elim
      · rw [owners_eq, owners_eq, hpending, hloops]
        dsimp only
        rw [hpending', hloops']
  | claim hfree hpending =>
      obtain ⟨hcreated, hlaunched⟩ := h.free hfree
      obtain ⟨hnopending, hloops, hworking⟩ := free_none hfree
      refine ⟨fun _ => rfl, fun hwon => ?_, ⟨hcreated, hlaunched, rfl⟩,
        fun hd => absurd hd (h.undelivered hworking),
        Awaits.mono h.waiter (fun hf => absurd hf hworking) (settled_of_working hworking rfl rfl),
        Owned.same h.owned rfl ?_ id id⟩
      · rw [h.won hwon] at hpending
        cases hpending
      · rw [owners_eq, owners_eq, hnopending, hloops]
        rfl
  | refused output hfree hnone =>
      obtain ⟨hcreated, hlaunched⟩ := h.free hfree
      obtain ⟨hpending, hloops, hworking⟩ := free_none hfree
      have howners := finish_owners output (h.undelivered hworking)
      exact ⟨h.started, h.won, hcreated.trans hlaunched.symm, fun _ => rfl,
        Awaits.mono h.waiter (fun hf => absurd hf hworking) (settled_of_working hworking rfl rfl),
        Owned.same h.owned rfl (by omega) id id⟩
  | create child hworker =>
      obtain ⟨hfits, hworking⟩ := h.at_worker hworker nofun
      obtain ⟨hcreated, hlaunched, hstarted⟩ := hfits
      have hnone := h.unowned hcreated
      rw [owners_eq, hworker] at hnone
      refine ⟨fun _ => hstarted, h.won, ⟨rfl, hlaunched⟩,
        fun hd => absurd hd (h.undelivered hworking),
        Awaits.mono h.waiter (fun hf => absurd hf hworking) (settled_of_working hworking rfl rfl),
        Owned.of_created rfl (Or.inl ?_)⟩
      rw [owners_eq]
      dsimp only [Worker.pendingOwners, Worker.loops] at hnone ⊢
      omega
  | launch child hworker =>
      obtain ⟨hfits, hworking⟩ := h.at_worker hworker nofun
      refine ⟨h.started, h.won, ⟨hfits.1, rfl, rfl⟩,
        fun hd => absurd hd (h.undelivered hworking),
        Awaits.mono h.waiter (fun hf => absurd hf hworking) ?_, Owned.same h.owned rfl ?_ id id⟩
      · rintro (hfinished | hcancel)
        · exact absurd hfinished hworking
        · have hstate := h.started hfits.1
          rw [h.won hcancel] at hstate
          cases hstate
      · rw [owners_eq, owners_eq, hworker]
        rfl
  | spawned spawn live hworker =>
      obtain ⟨⟨hcreated, hlaunched, -⟩, hworking⟩ := h.at_worker hworker nofun
      have howners := finish_owners (.ok (.ok ⟨some live⟩)) (h.undelivered hworking)
      rw [hworker] at howners
      have hone : Output.owners (.ok (.ok ⟨some live⟩)) = 1 := rfl
      dsimp only [Worker.pendingOwners, Worker.loops] at howners
      exact ⟨h.started, h.won, hcreated.trans hlaunched.symm, fun _ => rfl,
        Awaits.mono h.waiter (fun hf => absurd hf hworking) (settled_of_working hworking rfl rfl),
        Owned.same h.owned rfl (by omega) id id⟩
  | failed error spawn hworker =>
      obtain ⟨hfits, hworking⟩ := h.at_worker hworker nofun
      refine h.working hworking rfl rfl rfl rfl rfl rfl hfits (Owned.same h.owned rfl ?_ id id)
      rw [owners_eq, owners_eq, hworker]
      rfl
  | panicked message spawn hworker =>
      obtain ⟨⟨hcreated, hlaunched, hchild⟩, hworking⟩ := h.at_worker hworker nofun
      refine h.working hworking rfl rfl rfl rfl rfl rfl ⟨hcreated, hlaunched, rfl, ?_⟩
        (Owned.same h.owned rfl ?_ id id)
      · intro hnone
        rw [hnone] at hchild
        cases hchild
      · rw [owners_eq, owners_eq, hworker]
        dsimp only [Worker.pendingOwners, Worker.loops]
        omega
  | cleaned error spawn attempt hworker =>
      obtain ⟨⟨hcreated, hlaunched, hchild⟩, hworking⟩ := h.at_worker hworker nofun
      refine h.working hworking rfl rfl rfl rfl rfl rfl ⟨hcreated, hlaunched, rfl, ?_⟩
        (Owned.same h.owned rfl ?_ ?_ id)
      · intro hnone
        show (s.torn || spawn.reaps attempt) = true
        rcases cleanup_child spawn attempt with ⟨_, -, hsame⟩ | ⟨-, hreaps⟩
        · rw [hnone] at hsame
          rw [← hsame] at hchild
          cases hchild
        · rw [hreaps hchild, Bool.or_true]
      · rw [owners_eq, owners_eq, hworker]
        dsimp only [Worker.pendingOwners, Worker.loops, State.cleanup]
        omega
      · intro htorn
        show (s.torn || spawn.reaps attempt) = true
        rw [htorn, Bool.true_or]
  | retried output spawn attempt error hworker hfailed =>
      obtain ⟨⟨hcreated, hlaunched, hnone, htorn⟩, hworking⟩ := h.at_worker hworker nofun
      refine h.working hworking rfl rfl rfl rfl rfl rfl ⟨hcreated, hlaunched, hnone, ?_⟩
        (Owned.same h.owned rfl ?_ id id)
      · rcases cleanup_child spawn attempt with ⟨_, -, hsame⟩ | ⟨hok, -⟩
        · rw [hsame]
          exact htorn
        · rw [hok] at hfailed
          cases hfailed
      · rw [owners_eq, owners_eq, hworker]
        rfl
  | reaped output spawn attempt hworker hok =>
      obtain ⟨⟨hcreated, hlaunched, hnone, htorn⟩, hworking⟩ := h.at_worker hworker nofun
      have hundelivered : ¬(s.cleanup spawn attempt).join.delivered := h.undelivered hworking
      have howners := finish_owners output hundelivered
      have hsame : (s.cleanup spawn attempt).owners = s.owners := rfl
      have hloop : (s.cleanup spawn attempt).worker = .dropping output spawn := hworker
      rw [hsame, hloop] at howners
      dsimp only [Worker.pendingOwners, Worker.loops] at howners
      have howned := h.owned_cases hcreated
      refine ⟨h.started, h.won, hcreated.trans hlaunched.symm, fun _ => rfl,
        Awaits.mono h.waiter (fun hf => absurd hf hworking) (settled_of_working hworking rfl rfl),
        Owned.of_created hcreated (Or.inr ⟨by omega, Or.inl ?_⟩)⟩
      show (s.torn || spawn.reaps attempt) = true
      cases hchild : spawn.child with
      | none => rw [htorn hchild, Bool.true_or]
      | some child =>
          rcases cleanup_child spawn attempt with ⟨error, hfailed, -⟩ | ⟨-, hreaps⟩
          · rw [hok] at hfailed
            cases hfailed
          · rw [hreaps (by rw [hchild]; rfl), Bool.or_true]

/-! ## Moves of the future -/

/-- What a step of the future can do. -/
inductive WaiterMove (s : State) : State → Prop
  | go (next : Waiter) (hsame : next.owners = s.waiter.owners)
      (hawaits : s.Awaits s.waiter → s.Awaits next) :
      WaiterMove s { s with waiter := next }
  | take (output : Output) (next : Waiter) (hjoin : s.join = .ready output)
      (hnone : s.waiter.owners = 0) (hsame : next.owners = output.owners)
      (hawaits : s.worker = .finished → s.Awaits next) :
      WaiterMove s { s with join := .taken, waiter := next }
  | detach (hnone : s.waiter.owners = 0) :
      WaiterMove s { s.detach with waiter := .storing (.leave .dropped) }
  | store (next : Then) (hwaiter : s.waiter = .storing next) :
      WaiterMove s { s with
        gate := { s.gate with cancelled := true }, waiter := .exchanging next }
  | won (next : Then) (hwaiter : s.waiter = .exchanging next) (hpending : s.gate.state = .Pending) :
      WaiterMove s { s with
        gate := { s.gate with state := .Cancelled }, cancelWon := s.cancelWon || true,
        waiter := exchanged true next }
  | lost (next : Then) (hwaiter : s.waiter = .exchanging next) :
      WaiterMove s { s with cancelWon := s.cancelWon || false, waiter := exchanged false next }
  | teardown (program : SpawnedProgram) (attempt : Attempt) (next : Waiter)
      (hsame : s.waiter.owners = program.owners) (hnone : next.owners = 0)
      (hawaits : s.Awaits s.waiter → s.Awaits next) :
      WaiterMove s { s.teardown program attempt with waiter := next }
  | supervise (program : SpawnedProgram) (next : Waiter)
      (hsame : s.waiter.owners = program.owners) (hnone : next.owners = 0)
      (hawaits : s.Awaits next) :
      WaiterMove s { s.supervise program with waiter := next }
  | exit (status : Int) :
      WaiterMove s { s with exited := true, waiter := .done (.Done status) }

theorem received_owners (output : Output) :
    (Waiter.storing (.leave (.returns (received output)))).owners = output.owners := by
  unfold received
  split <;> rfl

theorem received_leaves (s : State) (output : Output) : s.Leaves (.returns (received output)) := by
  unfold received
  split <;> trivial

theorem joined_owners (stop : Stop) (output : Output) :
    (joined stop output).owners = output.owners := by
  unfold joined
  split <;> rfl

theorem joined_awaits {s : State} (stop : Stop) (output : Output) (h : s.worker = .finished) :
    s.Awaits (joined stop output) := by
  unfold joined
  split
  · exact h
  · exact Or.inl h
  · exact Or.inl h

theorem reported_truthful {s : State} (teardown : IoResult) (stop : Stop) (h : s.Settled) :
    s.Truthful (reported s.gate teardown stop) := by
  cases stop with
  | cancelled => exact h
  | deadline => exact ⟨h, rfl⟩

theorem waiterStep_move {s s' : State} {act : WaiterAct} (h : waiterStep s act = some s') :
    WaiterMove s s' := by
  unfold waiterStep at h
  split at h
  · rename_i stop hwaiter
    cases h
    exact .go _ (by rw [hwaiter]; rfl) fun _ => trivial
  · rename_i hwaiter
    split at h
    · rename_i output hjoin
      cases h
      exact .take output _ hjoin (by rw [hwaiter]; rfl) (received_owners output)
        fun _ => received_leaves s output
    · cases h
  · rename_i hwaiter
    cases h
    exact .detach (by rw [hwaiter]; rfl)
  · rename_i next hwaiter
    cases h
    exact .store next hwaiter
  · rename_i next hwaiter
    unfold SpawnGate.exchange at h
    by_cases hpending : s.gate.state = .Pending
    · rw [if_pos hpending] at h
      cases h
      exact .won next hwaiter hpending
    · rw [if_neg hpending] at h
      cases h
      exact .lost next hwaiter
  · rename_i stop hwaiter
    split at h
    · rename_i output hjoin
      cases h
      exact .take output _ hjoin (by rw [hwaiter]; rfl) (joined_owners stop output)
        (joined_awaits stop output)
    · cases h
  · rename_i hwaiter
    cases h
    exact .detach (by rw [hwaiter]; rfl)
  · rename_i stop program attempt hwaiter
    cases h
    refine .teardown program attempt _ (by rw [hwaiter]; rfl) rfl fun hawaits => ?_
    rw [hwaiter] at hawaits
    exact Or.inl hawaits
  · rename_i stop program hwaiter
    cases h
    exact .supervise program _ (by rw [hwaiter]; rfl) rfl trivial
  · rename_i stop teardown hwaiter
    cases h
    refine .go _ ?_ fun hawaits => ?_
    · rw [hwaiter]
      cases stop <;> rfl
    · rw [hwaiter] at hawaits
      exact reported_truthful teardown stop hawaits
  · cases h
    exact .exit _
  · rename_i program error hwaiter
    cases h
    exact .go _ (by rw [hwaiter]; rfl) fun _ => trivial
  · rename_i program stop hwaiter
    cases h
    exact .go _ (by rw [hwaiter]; rfl) fun _ => trivial
  · rename_i program hwaiter
    cases h
    exact .supervise program _ (by rw [hwaiter]; rfl) rfl trivial
  · rename_i kind program attempt hwaiter
    cases h
    exact .teardown program attempt _ (by rw [hwaiter]; rfl) rfl fun _ => trivial
  · rename_i kind program hwaiter
    cases h
    exact .supervise program _ (by rw [hwaiter]; rfl) rfl trivial
  · cases h

/-- The future moved, and the flags stay. -/
theorem Awaits.same {s s' : State} {waiter : Waiter} (h : s.Awaits waiter)
    (hworker : s'.worker = s.worker) (hwon : s.cancelWon = true → s'.cancelWon = true)
    (hlaunched : s'.gate.launched = s.gate.launched) : s'.Awaits waiter :=
  Awaits.mono h (fun hfinished => hworker.trans hfinished) fun hsettled =>
    ⟨hsettled.imp (fun hfinished => hworker.trans hfinished) hwon, hlaunched⟩

theorem Fits.mono {s s' : State} {worker : Worker} (h : s.Fits worker)
    (hcreated : s'.created = s.created) (hlaunched : s'.gate.launched = s.gate.launched)
    (hstate : s.gate.state = .Started → s'.gate.state = .Started)
    (htorn : s.torn = true → s'.torn = true) : s'.Fits worker := by
  unfold State.Fits at h ⊢
  rw [hcreated, hlaunched]
  cases worker with
  | checking => exact h
  | checked => exact h
  | claimed => exact ⟨h.1, h.2.1, hstate h.2.2⟩
  | creating => exact ⟨h.1, h.2.1, hstate h.2.2⟩
  | created child => exact h
  | pending spawn => exact h
  | failing error spawn => exact h
  | dropping output spawn => exact ⟨h.1, h.2.1, h.2.2.1, fun hnone => htorn (h.2.2.2 hnone)⟩
  | finished => exact h

theorem exchanged_owners (won : Bool) (next : Then) :
    (exchanged won next).owners = next.owners := by
  cases next with
  | stop stop => cases won <;> rfl
  | leave exit =>
      cases exit with
      | dropped => rfl
      | returns result => cases result <;> rfl

/-- Behind the exchange: a stop is reported at once only if the exchange won. -/
theorem exchanged_awaits {s : State} {won : Bool} {next : Then}
    (h : s.Awaits (.exchanging next)) (hwon : won = true → s.Settled) :
    s.Awaits (exchanged won next) := by
  cases next with
  | stop stop =>
      cases won with
      | false => trivial
      | true => exact hwon rfl
  | leave exit =>
      cases exit with
      | dropped => trivial
      | returns result =>
          cases result with
          | ok wait => exact h
          | error error => trivial

theorem detach_delivered {join : Join} (h : join.detach.1.delivered) : join.delivered := by
  cases join with
  | running => exact h
  | ready output => trivial
  | taken => trivial
  | detached => exact h

theorem WaiterMove.inv {s s' : State} (h : Inv s) (hmove : WaiterMove s s') : Inv s' := by
  cases hmove with
  | go next hsame hawaits =>
      refine ⟨h.started, h.won, h.worker, h.join, hawaits h.waiter,
        Owned.of_le h.owned rfl (Nat.le_of_eq ?_) id id fun hlt => absurd hlt (Nat.not_lt.2 ?_)⟩
      · rw [owners_eq, owners_eq, hsame]
      · rw [owners_eq, owners_eq, hsame]
  | take output next hjoin hnone hsame hawaits =>
      have hfinished : s.worker = .finished := h.join (by rw [hjoin]; trivial)
      have howners : { s with join := .taken, waiter := next }.owners = s.owners := by
        rw [owners_eq, owners_eq, hjoin, hnone, hsame]
        dsimp only [Join.owners]
        omega
      exact ⟨h.started, h.won, h.worker, fun _ => hfinished, hawaits hfinished,
        Owned.same h.owned rfl howners id id⟩
  | detach hnone =>
      have howners : { s.detach with waiter := .storing (.leave .dropped) }.owners = s.owners := by
        have hdetach := detach_owners s
        rw [owners_eq] at hdetach ⊢
        rw [show s.detach.waiter.owners = 0 from hnone] at hdetach
        exact hdetach
      exact ⟨h.started, h.won, h.worker, fun hd => h.join (detach_delivered hd), trivial,
        Owned.same h.owned rfl howners id id⟩
  | store next hwaiter =>
      have hawaits := h.waiter
      rw [hwaiter] at hawaits
      have howners : { s with
          gate := { s.gate with cancelled := true }, waiter := .exchanging next }.owners =
            s.owners := by
        rw [owners_eq, owners_eq, hwaiter]
        rfl
      refine ⟨h.started, h.won, Fits.mono h.worker rfl rfl id id, h.join, ?_,
        Owned.same h.owned rfl howners id id⟩
      cases next with
      | stop stop => trivial
      | leave exit => exact Awaits.same hawaits rfl id rfl
  | won next hwaiter hpending =>
      have hawaits := h.waiter
      rw [hwaiter] at hawaits
      have hnotStarted : s.gate.state ≠ .Started := by
        rw [hpending]
        nofun
      have howners : { s with
          gate := { s.gate with state := .Cancelled }, cancelWon := s.cancelWon || true,
          waiter := exchanged true next }.owners = s.owners := by
        rw [owners_eq, owners_eq, hwaiter, exchanged_owners]
        rfl
      exact ⟨fun hcreated => absurd (h.started hcreated) hnotStarted, fun _ => rfl,
        Fits.mono h.worker rfl rfl (fun hstarted => absurd hstarted hnotStarted) id, h.join,
        exchanged_awaits (Awaits.same hawaits rfl (fun _ => Bool.or_true _) rfl)
          fun _ => Or.inr (Bool.or_true _),
        Owned.same h.owned rfl howners id id⟩
  | lost next hwaiter =>
      have hawaits := h.waiter
      rw [hwaiter] at hawaits
      have howners : { s with
          cancelWon := s.cancelWon || false, waiter := exchanged false next }.owners =
            s.owners := by
        rw [owners_eq, owners_eq, hwaiter, exchanged_owners]
        rfl
      refine ⟨h.started, fun hwon => h.won ?_, h.worker, h.join,
        exchanged_awaits (Awaits.same hawaits rfl (fun hwon => ?_) rfl) nofun,
        Owned.same h.owned rfl howners id id⟩
      · exact (Bool.or_false _).symm.trans hwon
      · exact (Bool.or_false _).trans hwon
  | teardown program attempt next hsame hnone hawaits =>
      have htorn (hbefore : s.torn = true) : (s.torn || program.reaps attempt) = true := by
        rw [hbefore, Bool.true_or]
      have howners : { s.teardown program attempt with waiter := next }.owners +
          program.owners = s.owners + (program.teardown attempt).2.length := by
        rw [owners_eq, owners_eq, hsame, hnone]
        dsimp only [State.teardown]
        rw [List.length_append]
        omega
      refine ⟨h.started, h.won, Fits.mono h.worker rfl rfl id htorn, h.join,
        Awaits.same (hawaits h.waiter) rfl id rfl, ?_⟩
      rcases teardown_length program attempt with hkept | ⟨hzero, hreaps⟩
      · exact Owned.of_le h.owned rfl (by omega) htorn id fun hlt => absurd hlt (by omega)
      · exact Owned.of_le h.owned rfl (by omega) htorn id fun _ =>
          Or.inl (show (s.torn || program.reaps attempt) = true by rw [hreaps, Bool.or_true])
  | supervise program next hsame hnone hawaits =>
      have howners : { s.supervise program with waiter := next }.owners = s.owners := by
        rw [owners_eq, owners_eq, hsame, hnone]
        dsimp only [State.supervise]
        rw [List.length_append, supervise_length]
        omega
      exact ⟨h.started, h.won, Fits.mono h.worker rfl rfl id id, h.join,
        Awaits.same hawaits rfl id rfl,
        Owned.same h.owned rfl howners id id⟩
  | exit status =>
      refine ⟨h.started, h.won, Fits.mono h.worker rfl rfl id id, h.join, trivial,
        Owned.of_le h.owned rfl ?_ id (fun _ => rfl) fun _ => Or.inr rfl⟩
      rw [owners_eq, owners_eq]
      dsimp only [Waiter.owners]
      omega

/-! ## Moves of the cleanup threads -/

theorem cleanerStep_inv {s s' : State} {act : CleanerAct} (h : Inv s)
    (hstep : cleanerStep s act = some s') : Inv s' := by
  unfold cleanerStep at hstep
  split at hstep
  · rename_i index
    split at hstep
    · rename_i live hat
      cases hstep
      have howners : { s with cleaners := s.cleaners.set index (.looping live) }.owners =
          s.owners := by
        rw [owners_eq, owners_eq]
        dsimp only
        rw [List.length_set]
      exact ⟨h.started, h.won, Fits.mono h.worker rfl rfl id id, h.join,
        Awaits.same h.waiter rfl id rfl,
        Owned.same h.owned rfl howners id id⟩
    · cases hstep
  · rename_i index attempt
    split at hstep
    · split at hstep
      · cases hstep
        have howners : { s with cleaners := s.cleaners.eraseIdx index, torn := true }.owners ≤
            s.owners := by
          rw [owners_eq, owners_eq]
          dsimp only
          have hlength := List.length_eraseIdx_le s.cleaners index
          omega
        exact ⟨h.started, h.won, Fits.mono h.worker rfl rfl id fun _ => rfl, h.join,
          Awaits.same h.waiter rfl id rfl,
          Owned.of_le h.owned rfl howners (fun _ => rfl) id fun _ => Or.inl rfl⟩
      · cases hstep
        exact h
    · cases hstep

/-! ## Runs -/

theorem step_inv {s s' : State} {act : Act} (h : Inv s) (hstep : step s act = some s') :
    Inv s' := by
  cases act with
  | worker act => exact (workerStep_move hstep).inv h
  | waiter act => exact (waiterStep_move hstep).inv h
  | cleaner act => exact cleanerStep_inv h hstep

theorem reaches_inv {s : State} (h : Reaches step .start s) : Inv s :=
  Reaches.preserves (fun _ _ _ hinv hstep => step_inv hinv hstep) h Inv.start

/-! ## What stays over a run -/

theorem WorkerMove.frame {s s' : State} (hmove : WorkerMove s s') :
    s'.waiter = s.waiter ∧ s'.cancelWon = s.cancelWon := by
  cases hmove <;> exact ⟨rfl, rfl⟩

theorem cleanerStep_frame {s s' : State} {act : CleanerAct}
    (hstep : cleanerStep s act = some s') :
    s'.waiter = s.waiter ∧ s'.cancelWon = s.cancelWon := by
  unfold cleanerStep at hstep
  split at hstep
  · split at hstep
    · cases hstep
      exact ⟨rfl, rfl⟩
    · cases hstep
  · split at hstep
    · split at hstep
      · cases hstep
        exact ⟨rfl, rfl⟩
      · cases hstep
        exact ⟨rfl, rfl⟩
    · cases hstep

/-- A call of `cancel` that won has won for good. -/
theorem step_won {s s' : State} {act : Act} (hwon : s.cancelWon = true)
    (hstep : step s act = some s') : s'.cancelWon = true := by
  cases act with
  | worker act => exact (workerStep_move hstep).frame.2.trans hwon
  | cleaner act => exact (cleanerStep_frame hstep).2.trans hwon
  | waiter act =>
      cases waiterStep_move hstep with
      | go next hsame hawaits => exact hwon
      | take output next hjoin hnone hsame hawaits => exact hwon
      | detach hnone => exact hwon
      | store next hwaiter => exact hwon
      | won next hwaiter hpending => exact Bool.or_true _
      | lost next hwaiter => exact (Bool.or_false _).trans hwon
      | teardown program attempt next hsame hnone hawaits => exact hwon
      | supervise program next hsame hnone hawaits => exact hwon
      | exit status => exact hwon

theorem reaches_won {s t : State} (h : Reaches step s t) (hwon : s.cancelWon = true) :
    t.cancelWon = true :=
  @Reaches.preserves _ _ step (fun s => s.cancelWon = true)
    (fun _ _ _ hwon hstep => step_won hwon hstep) _ _ h hwon

/-- A deadline that was returned is the last word of the future. -/
theorem step_timeout {s s' : State} {act : Act} {started : Bool} {teardown : IoResult}
    (hwaiter : s.waiter = .returned (.ok (.Timeout started teardown)))
    (hstep : step s act = some s') : s'.waiter = .returned (.ok (.Timeout started teardown)) := by
  cases act with
  | worker act => exact (workerStep_move hstep).frame.1.trans hwaiter
  | cleaner act => exact (cleanerStep_frame hstep).1.trans hwaiter
  | waiter act =>
      change waiterStep s act = some s' at hstep
      unfold waiterStep at hstep
      rw [hwaiter] at hstep
      cases act <;> cases hstep

theorem reaches_timeout {s t : State} {started : Bool} {teardown : IoResult}
    (h : Reaches step s t) (hwaiter : s.waiter = .returned (.ok (.Timeout started teardown))) :
    t.waiter = .returned (.ok (.Timeout started teardown)) :=
  @Reaches.preserves _ _ step
    (fun s => s.waiter = .returned (.ok (.Timeout started teardown)))
    (fun _ _ _ hwaiter hstep => step_timeout hwaiter hstep) _ _ h hwaiter

/-! ## The launch and the owner -/

/-- Where `cancel` won there is no process. -/
theorem Inv.barred {s : State} (h : Inv s) (hwon : s.cancelWon = true) : s.created = false := by
  cases hcreated : s.created with
  | false => rfl
  | true =>
      have hstarted := h.started hcreated
      rw [h.won hwon] at hstarted
      cases hstarted

/-- A process that was not created was not launched. -/
theorem Inv.unlaunched {s : State} (h : Inv s) (hcreated : s.created = false) :
    s.gate.launched = false := by
  have hfits := h.worker
  unfold State.Fits at hfits
  rw [hcreated] at hfits
  cases hworker : s.worker <;> rw [hworker] at hfits <;> simp_all

/-- Where nothing launches the program any more, it was launched if there is a process. -/
theorem Inv.launched {s : State} (h : Inv s) (hsettled : s.Settled) :
    s.gate.launched = s.created := by
  rcases hsettled with hfinished | hwon
  · have hfits := h.worker
    rw [hfinished] at hfits
    exact hfits.symm
  · have hcreated := h.barred hwon
    rw [hcreated]
    exact h.unlaunched hcreated

/-- In every interleaving, with every failure of the system: where `cancel` won no process is
ever created; a deadline says whether the program was launched, then and for good; a stop is
returned once the worker is finished or barred; and a process has one owner, until a teardown
succeeded or the program ended. -/
theorem spawn_truthful_owned {s : State} (h : Reaches step .start s) :
    (s.cancelWon = true → ∀ t, Reaches step s t → t.created = false) ∧
      (∀ started teardown, s.waiter = .returned (.ok (.Timeout started teardown)) →
        s.Settled ∧ ∀ t, Reaches step s t → t.gate.launched = started ∧ t.created = started) ∧
      (∀ teardown, s.waiter = .returned (.ok (.Cancelled teardown)) → s.Settled) ∧
      if s.created then
        s.pendingSpawns + s.returnedPrograms + s.cleanupLoops = 1 ∨
          s.pendingSpawns + s.returnedPrograms + s.cleanupLoops = 0 ∧
            (s.torn = true ∨ s.exited = true)
      else s.pendingSpawns + s.returnedPrograms + s.cleanupLoops = 0 := by
  have hinv := reaches_inv h
  refine ⟨fun hwon t hrun => ?_, fun started teardown hwaiter => ?_, fun teardown hwaiter => ?_,
    hinv.owned⟩
  · exact (reaches_inv (h.trans hrun)).barred (reaches_won hrun hwon)
  · have hawaits := hinv.waiter
    rw [hwaiter] at hawaits
    refine ⟨hawaits.1, fun t hrun => ?_⟩
    have hlater := reaches_inv (h.trans hrun)
    have hawaits := hlater.waiter
    rw [reaches_timeout hrun hwaiter] at hawaits
    obtain ⟨hsettled, hstarted⟩ := hawaits
    exact ⟨hstarted.symm, (hlater.launched hsettled).symm.trans hstarted.symm⟩
  · have hawaits := hinv.waiter
    rw [hwaiter] at hawaits
    exact hawaits

/-- The deadline passes while the process is created; the process group is not enrolled, and
its first teardown fails. -/
def lateDeadline : List Act :=
  [.worker .beginSpawn, .worker .claim, .worker .recheck, .worker (.create (.ok 7)),
    .waiter (.stop .deadline), .waiter .storeCancelled, .waiter .exchangeCancelled,
    .worker .markLaunched, .worker (.enroll (.error (.Execution "no group"))),
    .worker (.cleanup ⟨.error "busy", .ok (), .ok ()⟩),
    .worker (.retry ⟨.ok (), .ok (), .ok ()⟩),
    .waiter .await, .waiter .report, .waiter .storeCancelled, .waiter .exchangeCancelled]

/-- Where that run ends. -/
def lateState : State where
  gate := ⟨.Started, true, true⟩
  worker := .finished
  join := .taken
  waiter := .returned (.ok (.Timeout true (.error "busy")))
  cleaners := []
  cancelWon := false
  created := true
  torn := true
  exited := false

theorem spawn_truthful_owned_late :
    lateState.waiter = .returned (.ok (.Timeout true (.error "busy"))) ∧ lateState.Settled ∧
      ∀ t, Reaches step lateState t → t.gate.launched = true ∧ t.created = true := by
  have h : Reaches step .start lateState := ⟨lateDeadline, rfl⟩
  exact ⟨rfl, (spawn_truthful_owned h).2.1 true (.error "busy") rfl⟩

end MCode.Exec.Spawn
