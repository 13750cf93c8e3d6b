import MCode.Lib.Machine
import MCode.Tools.Stream

/-!
# Dispatch of one tool call

The part of `dispatch_tool_call` (`mcode-agent/src/turn.rs`) that runs the
tool: a biased select between the tool's `execute` and the receiver of its
stream, and the dispatcher's own claim of the terminal once `execute` is
done.  The tool may clone its `ToolStream`, send from any clone at any time,
and keep clones that outlive `execute`.

A step is one critical section of the stream or one arm of the select, so a
list of acts is one interleaving.  Between the completion of `execute` and
the dispatcher's claim other clones can still send: these are two acts.
-/

namespace MCode.Agent.ToolCalls

open MCode.Lib
open MCode.Lib.Terminal
open MCode.Core
open MCode.Tools

/-! ## What `execute` can end with -/

/-- A panic payload, as `owned_panic_message` tells them apart. -/
inductive PanicPayload where
  | string (text : String)
  | str (text : String)
  | other

def TOOL_PANIC_MESSAGE : String := "tool panicked"

def ownedPanicMessage : PanicPayload → String
  | .string text => text
  | .str text => text
  | .other => TOOL_PANIC_MESSAGE

/-- The poll of the inner future that ends it, and the panic of its
destructor, if there is one. -/
inductive Completion where
  | ready (output : Except ToolError ToolResult) (dropped : Option PanicPayload)
  | panicked (payload : PanicPayload) (dropped : Option PanicPayload)

/-- `CatchUnwind::poll` on that last poll.  A destructor panic replaces an
output, but not an earlier panic. -/
def CatchUnwind.poll :
    Completion → Except String (Except ToolError ToolResult)
  | .ready output none => .ok output
  | .ready _ (some payload) => .error (ownedPanicMessage payload)
  | .panicked payload _ => .error (ownedPanicMessage payload)

def panicToolResult (message : String) : ToolResult :=
  ToolResult.error (ToolError.PluginTrap message).toString

/-- The value the dispatcher derives from the outcome of `execute`. -/
def Completion.result (completion : Completion) : ToolResult :=
  match CatchUnwind.poll completion with
  | .ok (.ok value) => value
  | .ok (.error err) => ToolResult.error err.toString
  | .error message => panicToolResult message

/-! ## The dispatch loop -/

/-- Where the dispatcher is: in the select, in the body of its `execute` arm,
behind the loop, or done. -/
inductive Phase where
  | selecting
  | claiming (result : ToolResult)
  | leaving
  | finished (message : ToolResultMessage)

/-- The dispatcher's locals and the channel.  `producer` is the `ToolStream`
that lives inside the `execute` future, `clones` the others the tool has
made, `terminalPusher` the dispatcher's own. -/
structure Dispatch where
  stream : ToolStream
  producer : Bool
  clones : Nat
  terminalPusher : Bool
  execResult : Option ToolResult
  streamedTerminal : Option ToolResult
  phase : Phase

def Dispatch.start : Dispatch :=
  ⟨ToolStream.channel, true, 0, true, none, none, .selecting⟩

inductive Sender where
  | tool
  | dispatcher
  deriving DecidableEq

/-- What others see of a step: accepted items and emitted events. -/
structure Effect where
  accepted : List (Sender × ToolStreamItem)
  emitted : List AgentEvent

def Effect.none : Effect := ⟨[], []⟩

inductive Act where
  | clone
  | dropClone
  | send (item : ToolStreamItem)
  | execute (completion : Completion)
  | claim
  | recv
  | leave
  | complete

/-- The tool still has a producer to call or to clone. -/
def Dispatch.toolHolds (self : Dispatch) : Bool :=
  self.producer || 0 < self.clones

/-- `recv` returns `None` on an empty channel once this is false. -/
def Dispatch.hasSender (self : Dispatch) : Bool :=
  self.toolHolds || self.terminalPusher

def Dispatch.send (self : Dispatch) (sender : Sender) (item : ToolStreamItem) :
    Dispatch × Effect :=
  let sent := self.stream.send item
  ({ self with stream := sent.2 },
    ⟨if sent.1 then [(sender, item)] else [], []⟩)

/-- `if let Some(pusher) = terminal_pusher.take() { pusher.terminal(..) }`. -/
def Dispatch.push (self : Dispatch) (result : ToolResult) :
    Dispatch × Effect :=
  let pushed :=
    if self.terminalPusher then self.send .dispatcher (.Terminal result)
    else (self, Effect.none)
  ({ pushed.1 with terminalPusher := false }, pushed.2)

def messageOf (call : ToolCall) (result : ToolResult) : ToolResultMessage :=
  { toolCallId := call.id
    content := result.content
    isError := result.isError
    details := result.details }

/-- The result after the loop, before the `ToolResult` hook. -/
def Dispatch.result (self : Dispatch) : ToolResult :=
  (self.streamedTerminal.or self.execResult).getD
    (ToolResult.error "tool task ended without a result")

def Dispatch.step (call : ToolCall) (self : Dispatch) :
    Act → Option (Dispatch × Effect)
  | .clone =>
      if self.toolHolds then
        some ({ self with clones := self.clones + 1 }, Effect.none)
      else none
  | .dropClone =>
      if 0 < self.clones then
        some ({ self with clones := self.clones - 1 }, Effect.none)
      else none
  | .send item => if self.toolHolds then some (self.send .tool item) else none
  | .execute completion =>
      match self.phase with
      | .selecting =>
          if self.producer && self.execResult.isNone then
            some ({ self with
                producer := false
                phase := .claiming completion.result }, Effect.none)
          else none
      | _ => none
  | .claim =>
      match self.phase with
      | .claiming result =>
          let pushed := self.push result
          some ({ pushed.1 with execResult := some result, phase := .selecting },
            pushed.2)
      | _ => none
  | .recv =>
      match self.phase, self.stream.queue with
      | .selecting, item :: queue =>
          let received := { self with stream := { self.stream with queue } }
          match item with
          | .Progress progress =>
              some (received, ⟨[], [.ToolProgress call.id progress.message]⟩)
          | .Terminal result =>
              some ({ received with streamedTerminal := some result }, Effect.none)
      | _, _ => none
  | .leave =>
      match self.phase, self.stream.queue with
      | .selecting, [] =>
          if self.hasSender then none
          else some ({ self with phase := .leaving }, Effect.none)
      | _, _ => none
  | .complete =>
      match self.phase with
      | .leaving =>
          let message := messageOf call self.result
          some ({ self with
              stream := { self.stream with receiving := false }
              phase := .finished message },
            ⟨[], [.ToolCompleted call.id message]⟩)
      | _ => none

/-! ## Observed runs -/

/-- A dispatch with everything that was accepted and emitted so far. -/
structure Observed where
  dispatch : Dispatch
  accepted : List (Sender × ToolStreamItem)
  emitted : List AgentEvent

def Observed.start : Observed := ⟨Dispatch.start, [], []⟩

def Observed.after (self : Observed) (next : Dispatch × Effect) : Observed :=
  ⟨next.1, self.accepted ++ next.2.accepted, self.emitted ++ next.2.emitted⟩

def Observed.step (call : ToolCall) (self : Observed) (act : Act) :
    Option Observed :=
  (self.dispatch.step call act).map self.after

/-- The items accepted so far. -/
def Observed.items (self : Observed) : List ToolStreamItem :=
  self.accepted.map Prod.snd

/-- The messages of the progress items, in order. -/
def progressOf (items : List ToolStreamItem) : List String :=
  items.filterMap fun
    | .Progress progress => some progress.message
    | .Terminal _ => none

/-- The results of the terminal items, in order. -/
def terminalsOf (items : List ToolStreamItem) : List ToolResult :=
  items.filterMap fun
    | .Progress _ => none
    | .Terminal result => some result

def Act.completion? : Act → Option Completion
  | .execute completion => some completion
  | _ => none

@[simp] theorem progressOf_append (xs ys : List ToolStreamItem) :
    progressOf (xs ++ ys) = progressOf xs ++ progressOf ys :=
  List.filterMap_append

@[simp] theorem terminalsOf_append (xs ys : List ToolStreamItem) :
    terminalsOf (xs ++ ys) = terminalsOf xs ++ terminalsOf ys :=
  List.filterMap_append

theorem terminalsOf_length (items : List ToolStreamItem) :
    (terminalsOf items).length = items.countP ToolStreamItem.isTerminal := by
  induction items with
  | nil => rfl
  | cons item items ih =>
      cases item with
      | Progress progress =>
          simpa [terminalsOf, ToolStreamItem.isTerminal] using ih
      | Terminal result =>
          rw [List.countP_cons_of_pos (by rfl), ← ih]
          rfl

theorem terminalsOf_eq_nil_iff (items : List ToolStreamItem) :
    terminalsOf items = [] ↔ items.any ToolStreamItem.isTerminal = false := by
  rw [← List.length_eq_zero_iff, terminalsOf_length, List.countP_eq_zero,
    List.any_eq_false]

theorem mem_terminalsOf {items : List ToolStreamItem} {result : ToolResult} :
    result ∈ terminalsOf items ↔ ToolStreamItem.Terminal result ∈ items := by
  simp only [terminalsOf, List.mem_filterMap]
  constructor
  · rintro ⟨item, hitem, heq⟩
    cases item with
    | Progress progress => cases heq
    | Terminal r =>
        cases heq
        exact hitem
  · intro h
    exact ⟨_, h, rfl⟩

/-- What the dispatcher has emitted besides progress. -/
def Phase.completed (call : ToolCall) : Phase → List AgentEvent
  | .finished message => [.ToolCompleted call.id message]
  | _ => []

@[simp] theorem Observed.after_dispatch (o : Observed)
    (next : Dispatch × Effect) : (o.after next).dispatch = next.1 := rfl

@[simp] theorem Observed.after_emitted (o : Observed)
    (next : Dispatch × Effect) :
    (o.after next).emitted = o.emitted ++ next.2.emitted := rfl

@[simp] theorem Observed.after_accepted (o : Observed)
    (next : Dispatch × Effect) :
    (o.after next).accepted = o.accepted ++ next.2.accepted := rfl

@[simp] theorem Observed.after_items (o : Observed)
    (next : Dispatch × Effect) :
    (o.after next).items = o.items ++ next.2.accepted.map Prod.snd :=
  List.map_append

/-- After a terminal a send changes nothing. -/
theorem Dispatch.send_terminated {d : Dispatch}
    (h : d.stream.terminated = true) (sender : Sender) (item : ToolStreamItem) :
    d.send sender item = (d, Effect.none) := by
  simp [Dispatch.send, ToolStream.send, h, Effect.none]

/-- Before a terminal a send is accepted, and a terminal closes the stream. -/
theorem Dispatch.send_open {d : Dispatch}
    (hopen : d.stream.terminated = false)
    (hreceiving : d.stream.receiving = true) (sender : Sender)
    (item : ToolStreamItem) :
    d.send sender item =
      ({ d with stream := ⟨item.isTerminal, d.stream.queue ++ [item], true⟩ },
        ⟨[(sender, item)], []⟩) := by
  simp [Dispatch.send, ToolStream.send, hopen, hreceiving]

@[simp] theorem Dispatch.push_phase (d : Dispatch) (result : ToolResult) :
    (d.push result).1.phase = d.phase := by
  unfold Dispatch.push
  split <;> rfl

/-! ## What one step can do -/

/-- The enabled steps, with their guards. -/
inductive Next (call : ToolCall) (d : Dispatch) : Act → Dispatch × Effect → Prop
  | clone (holds : d.toolHolds = true) :
      Next call d .clone ({ d with clones := d.clones + 1 }, Effect.none)
  | dropClone (some : 0 < d.clones) :
      Next call d .dropClone ({ d with clones := d.clones - 1 }, Effect.none)
  | send (item : ToolStreamItem) (holds : d.toolHolds = true) :
      Next call d (.send item) (d.send .tool item)
  | execute (completion : Completion) (selecting : d.phase = .selecting)
      (producer : d.producer = true) (pending : d.execResult = none) :
      Next call d (.execute completion)
        ({ d with producer := false, phase := .claiming completion.result },
          Effect.none)
  | claim (result : ToolResult) (claiming : d.phase = .claiming result) :
      Next call d .claim
        ({ (d.push result).1 with
            execResult := some result, phase := .selecting },
          (d.push result).2)
  | recvProgress (progress : ToolProgress) (queue : List ToolStreamItem)
      (selecting : d.phase = .selecting)
      (head : d.stream.queue = .Progress progress :: queue) :
      Next call d .recv
        ({ d with stream := { d.stream with queue } },
          ⟨[], [.ToolProgress call.id progress.message]⟩)
  | recvTerminal (result : ToolResult) (queue : List ToolStreamItem)
      (selecting : d.phase = .selecting)
      (head : d.stream.queue = .Terminal result :: queue) :
      Next call d .recv
        ({ d with
            stream := { d.stream with queue }
            streamedTerminal := some result }, Effect.none)
  | leave (selecting : d.phase = .selecting) (empty : d.stream.queue = [])
      (dropped : d.hasSender = false) :
      Next call d .leave ({ d with phase := .leaving }, Effect.none)
  | complete (leaving : d.phase = .leaving) :
      Next call d .complete
        ({ d with
            stream := { d.stream with receiving := false }
            phase := .finished (messageOf call d.result) },
          ⟨[], [.ToolCompleted call.id (messageOf call d.result)]⟩)

theorem Dispatch.step_next {call : ToolCall} {d : Dispatch} {act : Act}
    {next : Dispatch × Effect} (h : d.step call act = some next) :
    Next call d act next := by
  cases act with
  | clone =>
      simp only [Dispatch.step, Option.ite_none_right_eq_some,
        Option.some.injEq] at h
      obtain ⟨hholds, rfl⟩ := h
      exact Next.clone hholds
  | dropClone =>
      simp only [Dispatch.step, Option.ite_none_right_eq_some,
        Option.some.injEq] at h
      obtain ⟨hsome, rfl⟩ := h
      exact Next.dropClone hsome
  | send item =>
      simp only [Dispatch.step, Option.ite_none_right_eq_some,
        Option.some.injEq] at h
      obtain ⟨hholds, rfl⟩ := h
      exact Next.send item hholds
  | execute completion =>
      simp only [Dispatch.step] at h
      split at h
      · rename_i hphase
        simp only [Option.ite_none_right_eq_some, Option.some.injEq,
          Bool.and_eq_true, Option.isNone_iff_eq_none] at h
        obtain ⟨⟨hproducer, hpending⟩, rfl⟩ := h
        exact Next.execute completion hphase hproducer hpending
      · cases h
  | claim =>
      simp only [Dispatch.step] at h
      split at h
      · rename_i result hphase
        cases h
        exact Next.claim result hphase
      · cases h
  | recv =>
      simp only [Dispatch.step] at h
      split at h
      · rename_i item queue hphase hqueue
        cases item with
        | Progress progress =>
            cases h
            exact Next.recvProgress progress queue hphase hqueue
        | Terminal result =>
            cases h
            exact Next.recvTerminal result queue hphase hqueue
      · cases h
  | leave =>
      simp only [Dispatch.step] at h
      split at h
      · rename_i hphase hqueue
        split at h
        · cases h
        · rename_i hsender
          cases h
          exact Next.leave hphase hqueue (by simpa using hsender)
      · cases h
  | complete =>
      simp only [Dispatch.step] at h
      split at h
      · rename_i hphase
        cases h
        exact Next.complete hphase
      · cases h

theorem Dispatch.hasSender_of_toolHolds {d : Dispatch}
    (h : d.toolHolds = true) : d.hasSender = true := by
  simp [Dispatch.hasSender, h]

/-! ## The stream of a dispatch

What is accepted goes to the consumer in order, and a terminal closes the
stream for every sender. -/

structure Consistent (call : ToolCall) (o : Observed) : Prop where
  terminated : o.dispatch.stream.terminated =
    o.items.any ToolStreamItem.isTerminal
  single : SingleTerminal ToolStreamItem.isTerminal o.items
  terminals : terminalsOf o.items =
    o.dispatch.streamedTerminal.toList ++ terminalsOf o.dispatch.stream.queue
  progress : ∃ shown,
    progressOf o.items = shown ++ progressOf o.dispatch.stream.queue ∧
      o.emitted = shown.map (AgentEvent.ToolProgress call.id) ++
        o.dispatch.phase.completed call
  receiving : o.dispatch.hasSender = true →
    o.dispatch.stream.receiving = true
  left : o.dispatch.phase = .leaving → o.dispatch.hasSender = false

theorem consistent_start (call : ToolCall) :
    Consistent call Observed.start := by
  exact
    { terminated := rfl
      single := SingleTerminal.nil
      terminals := rfl
      progress := ⟨[], rfl, rfl⟩
      receiving := fun _ => rfl
      left := fun h => by cases h }

namespace Consistent

variable {call : ToolCall} {o : Observed} (h : Consistent call o)
include h

theorem terminals_le_one : (terminalsOf o.items).length ≤ 1 := by
  rw [terminalsOf_length]
  exact h.single.countP_le_one

/-- A send of any holder of a producer. -/
theorem send (sender : Sender) (item : ToolStreamItem)
    (hholds : o.dispatch.hasSender = true) :
    Consistent call (o.after (o.dispatch.send sender item)) := by
  have hreceiving := h.receiving hholds
  cases hterminated : o.dispatch.stream.terminated with
  | true =>
      rw [Dispatch.send_terminated hterminated]
      simpa [Observed.after, Effect.none] using h
  | false =>
      have hopen : o.items.any ToolStreamItem.isTerminal = false := by
        rw [← h.terminated, hterminated]
      obtain ⟨shown, hshown, hemitted⟩ := h.progress
      rw [Dispatch.send_open hterminated hreceiving]
      exact
        { terminated := by simp [hopen]
          single := by simpa using SingleTerminal.concat hopen item
          terminals := by simp [h.terminals]
          progress := ⟨shown, by simp [hshown], by simpa using hemitted⟩
          receiving := fun _ => rfl
          left := fun hleft => absurd hholds (by simp [h.left hleft]) }

/-- A step of the locals: the stream stays, no sender appears, and nothing is
shown. -/
theorem local_step {d : Dispatch} (hstream : d.stream = o.dispatch.stream)
    (hstreamed : d.streamedTerminal = o.dispatch.streamedTerminal)
    (hcompleted : d.phase.completed call = o.dispatch.phase.completed call)
    (hsender : d.hasSender = true → o.dispatch.hasSender = true)
    (hleft : d.phase = .leaving → d.hasSender = false) :
    Consistent call (o.after (d, Effect.none)) := by
  obtain ⟨shown, hshown, hemitted⟩ := h.progress
  exact
    { terminated := by simpa [hstream, Effect.none] using h.terminated
      single := by simpa [Effect.none] using h.single
      terminals := by simpa [hstream, hstreamed, Effect.none] using h.terminals
      progress := ⟨shown, by simpa [hstream, Effect.none] using hshown,
        by simpa [hcompleted, Effect.none] using hemitted⟩
      receiving := fun hholds => hstream ▸ h.receiving (hsender hholds)
      left := hleft }

/-- The dispatcher's claim, whether or not it is the first terminal. -/
theorem push (result : ToolResult)
    (hphase : o.dispatch.phase ≠ .leaving) :
    Consistent call (o.after (o.dispatch.push result)) := by
  have hsent : Consistent call (o.after
      (if o.dispatch.terminalPusher then
        o.dispatch.send .dispatcher (.Terminal result)
      else (o.dispatch, Effect.none))) := by
    split
    · rename_i hpusher
      exact h.send .dispatcher (.Terminal result)
        (by simp [Dispatch.hasSender, hpusher])
    · simpa [Observed.after, Effect.none] using h
  have hlocal := hsent.local_step
    (d := (o.dispatch.push result).1) rfl rfl rfl
    (fun hholds => Dispatch.hasSender_of_toolHolds
      ((Bool.or_false _).symm.trans hholds))
    (fun hleft => absurd (Dispatch.push_phase _ _ ▸ hleft) hphase)
  simpa only [Observed.after, Effect.none, List.append_nil, Dispatch.push]
    using hlocal

/-- The step lemma: every act keeps the stream consistent. -/
theorem step {act : Act} {o' : Observed} (hstep : o.step call act = some o') :
    Consistent call o' := by
  obtain ⟨next, hnext, rfl⟩ := Option.map_eq_some_iff.1 hstep
  cases Dispatch.step_next hnext with
  | clone holds =>
      refine h.local_step rfl rfl rfl
        (fun _ => Dispatch.hasSender_of_toolHolds holds) ?_
      intro hleft
      have := h.left hleft
      rw [Dispatch.hasSender_of_toolHolds holds] at this
      cases this
  | dropClone some =>
      have hsender : ({ o.dispatch with clones := o.dispatch.clones - 1 } :
          Dispatch).hasSender = true → o.dispatch.hasSender = true := by
        simp only [Dispatch.hasSender, Dispatch.toolHolds, Bool.or_eq_true,
          decide_eq_true_eq]
        omega
      refine h.local_step rfl rfl rfl hsender ?_
      intro hleft
      have := h.left hleft
      by_contra hholds
      rw [hsender (by simpa using hholds)] at this
      cases this
  | send item holds =>
      exact h.send .tool item (Dispatch.hasSender_of_toolHolds holds)
  | execute completion selecting producer pending =>
      refine h.local_step rfl rfl ?_ ?_ ?_
      · rw [selecting]
        rfl
      · intro _
        exact Dispatch.hasSender_of_toolHolds
          (by simp [Dispatch.toolHolds, producer])
      · intro hleft
        cases hleft
  | claim result claiming =>
      have hpushed := h.push result (by simp [claiming])
      have hlocal := hpushed.local_step
        (d := { (o.dispatch.push result).1 with
          execResult := some result, phase := .selecting })
        rfl rfl (by rw [Observed.after_dispatch, Dispatch.push_phase, claiming]; rfl)
        id (fun hleft => by cases hleft)
      simpa only [Observed.after, Effect.none, List.append_nil] using hlocal
  | recvProgress progress queue selecting head =>
      obtain ⟨shown, hshown, hemitted⟩ := h.progress
      have hterminals := h.terminals
      rw [head] at hshown hterminals
      rw [selecting] at hemitted
      exact
        { terminated := by simpa using h.terminated
          single := by simpa using h.single
          terminals := by simpa [terminalsOf] using hterminals
          progress := by
            refine ⟨shown ++ [progress.message], ?_, ?_⟩
            · simpa [progressOf] using hshown
            · simp [hemitted, Phase.completed, selecting]
          receiving := h.receiving
          left := h.left }
  | recvTerminal result queue selecting head =>
      obtain ⟨shown, hshown, hemitted⟩ := h.progress
      have hterminals := h.terminals
      have hone := h.terminals_le_one
      rw [head] at hshown hterminals
      -- An earlier terminal would make this one the second.
      have hfirst : o.dispatch.streamedTerminal = none := by
        rw [hterminals] at hone
        cases hstreamed : o.dispatch.streamedTerminal with
        | none => rfl
        | some earlier => simp [hstreamed, terminalsOf] at hone
      exact
        { terminated := by simpa [Effect.none] using h.terminated
          single := by simpa [Effect.none] using h.single
          terminals := by
            simpa [terminalsOf, hfirst, Effect.none] using hterminals
          progress := by
            refine ⟨shown, ?_, ?_⟩
            · simpa [progressOf, Effect.none] using hshown
            · simpa [Effect.none] using hemitted
          receiving := h.receiving
          left := h.left }
  | leave selecting empty dropped =>
      refine h.local_step rfl rfl ?_ id (fun _ => dropped)
      rw [selecting]
      rfl
  | complete leaving =>
      obtain ⟨shown, hshown, hemitted⟩ := h.progress
      rw [leaving] at hemitted
      exact
        { terminated := by simpa using h.terminated
          single := by simpa using h.single
          terminals := by simpa using h.terminals
          progress := ⟨shown, by simpa using hshown,
            by simp [hemitted, Phase.completed]⟩
          receiving := by
            intro hholds
            have := h.left leaving
            rw [show o.dispatch.hasSender = true from hholds] at this
            cases this
          left := fun hleft => by cases hleft }

end Consistent

theorem consistent_run {call : ToolCall} {acts : List Act} {o : Observed}
    (h : Machine.run (Observed.step call) Observed.start acts = some o) :
    Consistent call o :=
  Machine.Reaches.preserves (fun _ _ _ hs hstep => hs.step hstep) ⟨acts, h⟩
    (consistent_start call)

/-! ## Who wins the terminal

Three stages: `execute` is running, the dispatcher is about to claim, the
dispatcher has claimed.  Before the claim every accepted item is the tool's;
at the claim the terminal is decided. -/

/-- The terminal that stands once the dispatcher has claimed in state `o`. -/
def Observed.winner (o : Observed) (completion : Completion) : ToolResult :=
  (terminalsOf o.items).head?.getD completion.result

inductive History (call : ToolCall) (acts : List Act) (o : Observed) : Prop
  | executing (phase : o.dispatch.phase = .selecting)
      (pending : o.dispatch.execResult = none)
      (pusher : o.dispatch.terminalPusher = true)
      (own : ∀ x ∈ o.accepted, x.1 = .tool)
      (completions : acts.filterMap Act.completion? = [])
  | claiming (completion : Completion)
      (phase : o.dispatch.phase = .claiming completion.result)
      (pusher : o.dispatch.terminalPusher = true)
      (producer : o.dispatch.producer = false)
      (own : ∀ x ∈ o.accepted, x.1 = .tool)
      (completions : acts.filterMap Act.completion? = [completion])
  | claimed (completion : Completion) (before after : List Act)
      (atClaim : Observed) (split : acts = before ++ .claim :: after)
      (run : Machine.run (Observed.step call) Observed.start before = some atClaim)
      (own : ∀ x ∈ atClaim.accepted, x.1 = .tool)
      (completions : acts.filterMap Act.completion? = [completion])
      (producer : o.dispatch.producer = false)
      (phase : (o.dispatch.phase = .selecting ∧ o.dispatch.execResult.isSome) ∨
        (o.dispatch.phase = .leaving ∧ o.dispatch.stream.queue = []) ∨
        (o.dispatch.phase =
            .finished (messageOf call (atClaim.winner completion)) ∧
          o.dispatch.stream.queue = []))
      (terminals : terminalsOf o.items = [atClaim.winner completion])

/-- The dispatcher's claim leaves exactly one terminal: the one that was
there, or else its own. -/
theorem Consistent.push_terminals {call : ToolCall} {o : Observed}
    (h : Consistent call o) (completion : Completion)
    (hpusher : o.dispatch.terminalPusher = true) :
    terminalsOf (o.after (o.dispatch.push completion.result)).items =
      [o.winner completion] := by
  have hreceiving := h.receiving (by simp [Dispatch.hasSender, hpusher])
  have hone := h.terminals_le_one
  unfold Observed.winner
  cases hterminated : o.dispatch.stream.terminated with
  | true =>
      have hsome : terminalsOf o.items ≠ [] := by
        rw [Ne, terminalsOf_eq_nil_iff, ← h.terminated, hterminated]
        simp
      simp only [Dispatch.push, hpusher, if_true,
        Dispatch.send_terminated hterminated, Observed.after_items, Effect.none,
        List.map_nil, List.append_nil]
      cases hterminals : terminalsOf o.items with
      | nil => exact absurd hterminals hsome
      | cons first rest =>
          rw [hterminals, List.length_cons] at hone
          have hrest : rest = [] := List.length_eq_zero_iff.1 (by omega)
          simp [hrest]
  | false =>
      have hnone : terminalsOf o.items = [] := by
        rw [terminalsOf_eq_nil_iff, ← h.terminated, hterminated]
      simp only [Dispatch.push, hpusher, if_true,
        Dispatch.send_open hterminated hreceiving, Observed.after_items,
        terminalsOf_append, hnone]
      rfl

/-- Once there is a terminal, a send changes nothing. -/
theorem Consistent.send_closed {call : ToolCall} {o : Observed}
    (h : Consistent call o) {result : ToolResult}
    (hterminals : terminalsOf o.items = [result]) (sender : Sender)
    (item : ToolStreamItem) :
    o.dispatch.send sender item = (o.dispatch, Effect.none) := by
  refine Dispatch.send_terminated ?_ sender item
  rw [h.terminated]
  by_contra hopen
  rw [Bool.not_eq_true, ← terminalsOf_eq_nil_iff, hterminals] at hopen
  cases hopen

/-- A send of the tool adds items of the tool only. -/
theorem Dispatch.send_own (d : Dispatch) (item : ToolStreamItem) :
    ∀ x ∈ (d.send .tool item).2.accepted, x.1 = .tool := by
  intro x hx
  unfold Dispatch.send at hx
  dsimp only at hx
  split at hx
  · rw [List.mem_singleton.1 hx]
  · cases hx

theorem History.step {call : ToolCall} {acts : List Act} {o o' : Observed}
    {act : Act} (hconsistent : Consistent call o)
    (hrun : Machine.run (Observed.step call) Observed.start acts = some o)
    (h : History call acts o) (hstep : o.step call act = some o') :
    History call (acts ++ [act]) o' := by
  obtain ⟨next, hnext, rfl⟩ := Option.map_eq_some_iff.1 hstep
  have hnext := Dispatch.step_next hnext
  cases h with
  | executing phase pending pusher own completions =>
      have hown : ∀ {extra : List (Sender × ToolStreamItem)},
          (∀ x ∈ extra, x.1 = .tool) →
          ∀ x ∈ o.accepted ++ extra, x.1 = .tool := by
        intro extra hextra x hx
        exact (List.mem_append.1 hx).elim (own x) (hextra x)
      cases hnext with
      | clone | dropClone | recvProgress | recvTerminal =>
          exact History.executing phase pending pusher (hown (by simp [Effect.none]))
            (by simp [completions, Act.completion?])
      | send item holds =>
          exact History.executing phase pending pusher
            (hown (o.dispatch.send_own item))
            (by simp [completions, Act.completion?])
      | execute completion =>
          exact History.claiming completion rfl pusher rfl
            (hown (by simp [Effect.none]))
            (by simp [completions, Act.completion?])
      | claim result claiming =>
          rw [phase] at claiming
          cases claiming
      | leave selecting empty dropped =>
          simp [Dispatch.hasSender, pusher] at dropped
      | complete leaving =>
          rw [phase] at leaving
          cases leaving
  | claiming completion phase pusher producer own completions =>
      have hown : ∀ {extra : List (Sender × ToolStreamItem)},
          (∀ x ∈ extra, x.1 = .tool) →
          ∀ x ∈ o.accepted ++ extra, x.1 = .tool := by
        intro extra hextra x hx
        exact (List.mem_append.1 hx).elim (own x) (hextra x)
      cases hnext with
      | clone | dropClone =>
          exact History.claiming completion phase pusher producer
            (hown (by simp [Effect.none]))
            (by simp [completions, Act.completion?])
      | send item holds =>
          exact History.claiming completion phase pusher producer
            (hown (o.dispatch.send_own item))
            (by simp [completions, Act.completion?])
      | claim result claiming =>
          rw [phase] at claiming
          cases claiming
          refine History.claimed completion acts [] o rfl hrun own
            (by simp [completions, Act.completion?]) ?_
            (Or.inl ⟨rfl, rfl⟩) (hconsistent.push_terminals completion pusher)
          unfold Dispatch.push
          split <;> exact producer
      | recvProgress progress queue selecting
      | recvTerminal progress queue selecting
      | leave selecting
      | execute completion selecting =>
          rw [phase] at selecting
          cases selecting
      | complete leaving =>
          rw [phase] at leaving
          cases leaving
  | claimed completion before after atClaim split run own completions producer
      phase terminals =>
      have hsplit : acts ++ [act] = before ++ .claim :: (after ++ [act]) := by
        simp [split]
      have hcompletions : act.completion? = none →
          (acts ++ [act]).filterMap Act.completion? = [completion] := by
        intro hnone
        simp [completions, hnone]
      cases hnext with
      | clone holds | dropClone some =>
          exact History.claimed completion before _ atClaim hsplit run own
            (hcompletions rfl) producer phase (by simpa [Effect.none] using terminals)
      | send item holds =>
          rw [hconsistent.send_closed terminals]
          exact History.claimed completion before _ atClaim hsplit run own
            (hcompletions rfl) producer phase (by simpa [Effect.none] using terminals)
      | execute c selecting running pending =>
          rw [producer] at running
          cases running
      | claim result claiming =>
          rcases phase with ⟨phase, -⟩ | ⟨phase, -⟩ | ⟨phase, -⟩ <;>
            · rw [phase] at claiming
              cases claiming
      | recvProgress progress queue selecting head
      | recvTerminal result queue selecting head =>
          rcases phase with phase | ⟨phase, -⟩ | ⟨phase, -⟩
          · exact History.claimed completion before _ atClaim hsplit run own
              (hcompletions rfl) producer (Or.inl phase)
              (by simpa [Effect.none] using terminals)
          · rw [phase] at selecting
            cases selecting
          · rw [phase] at selecting
            cases selecting
      | leave selecting empty dropped =>
          exact History.claimed completion before _ atClaim hsplit run own
            (hcompletions rfl) producer (Or.inr (Or.inl ⟨rfl, empty⟩))
            (by simpa [Effect.none] using terminals)
      | complete leaving =>
          rcases phase with ⟨phase, -⟩ | ⟨-, empty⟩ | ⟨phase, -⟩
          · rw [phase] at leaving
            cases leaving
          · have hstreamed := hconsistent.terminals
            rw [terminals, empty] at hstreamed
            have hresult : o.dispatch.result = atClaim.winner completion := by
              cases hterminal : o.dispatch.streamedTerminal with
              | none => simp [hterminal, terminalsOf] at hstreamed
              | some result =>
                  simp only [hterminal, terminalsOf, Option.toList_some,
                    List.filterMap_nil, List.append_nil, List.cons.injEq,
                    and_true] at hstreamed
                  simp [Dispatch.result, hterminal, hstreamed]
            exact History.claimed completion before _ atClaim hsplit run own
              (hcompletions rfl) producer
              (Or.inr (Or.inr ⟨by rw [Observed.after_dispatch, hresult], empty⟩))
              (by simpa using terminals)
          · rw [phase] at leaving
            cases leaving

theorem history_run {call : ToolCall} {acts : List Act} {o : Observed}
    (h : Machine.run (Observed.step call) Observed.start acts = some o) :
    History call acts o :=
  Machine.run_history
    (History.executing rfl rfl rfl (by simp [Observed.start]) rfl)
    (fun _ _ _ _ hrun hs hstep => hs.step (consistent_run hrun) hrun hstep) h

/-- The tool's own terminal among the accepted items. -/
theorem winner_cases {o : Observed} (own : ∀ x ∈ o.accepted, x.1 = .tool)
    (completion : Completion) :
    (Sender.tool, ToolStreamItem.Terminal (o.winner completion)) ∈ o.accepted ∨
      (∀ result, (Sender.tool, ToolStreamItem.Terminal result) ∉ o.accepted) ∧
        o.winner completion = completion.result := by
  unfold Observed.winner
  cases hterminals : terminalsOf o.items with
  | nil =>
      refine Or.inr ⟨fun result hmem => ?_, rfl⟩
      have : result ∈ terminalsOf o.items :=
        mem_terminalsOf.2 (List.mem_map.2 ⟨_, hmem, rfl⟩)
      rw [hterminals] at this
      cases this
  | cons first rest =>
      have hfirst : first ∈ terminalsOf o.items := by
        rw [hterminals]
        exact List.mem_cons_self
      obtain ⟨⟨sender, item⟩, hmem, hitem⟩ :=
        List.mem_map.1 (mem_terminalsOf.1 hfirst)
      have hsender : sender = .tool := own _ hmem
      dsimp only at hitem
      subst hsender hitem
      exact Or.inl hmem

/-- **First terminal wins.**  In every interleaving of the tool's clones,
`execute` and the dispatcher: nothing is accepted after a terminal; accepted
progress is shown in order, each item once, before the call completes; and
the result of a completed call is the tool's own terminal if one was accepted
before the dispatcher's claim, and otherwise what `execute` ended with. -/
theorem first_terminal_wins (call : ToolCall) (acts : List Act) (o : Observed)
    (h : Machine.run (Observed.step call) Observed.start acts = some o) :
    SingleTerminal ToolStreamItem.isTerminal o.items ∧
    (∃ shown,
      progressOf o.items = shown ++ progressOf o.dispatch.stream.queue ∧
      o.emitted = shown.map (AgentEvent.ToolProgress call.id) ++
        o.dispatch.phase.completed call) ∧
    ∀ message, o.dispatch.phase = .finished message →
      o.emitted = (progressOf o.items).map (AgentEvent.ToolProgress call.id) ++
        [.ToolCompleted call.id message] ∧
      ∃ completion before after atClaim,
        acts.filterMap Act.completion? = [completion] ∧
        acts = before ++ .claim :: after ∧
        Machine.run (Observed.step call) Observed.start before = some atClaim ∧
        ((∃ result,
            (Sender.tool, ToolStreamItem.Terminal result) ∈ atClaim.accepted ∧
            message = messageOf call result) ∨
          (∀ result,
            (Sender.tool, ToolStreamItem.Terminal result) ∉ atClaim.accepted) ∧
            message = messageOf call completion.result) := by
  have hconsistent := consistent_run h
  refine ⟨hconsistent.single, hconsistent.progress, ?_⟩
  intro message hmessage
  cases history_run h with
  | executing phase =>
      rw [phase] at hmessage
      cases hmessage
  | claiming completion phase =>
      rw [phase] at hmessage
      cases hmessage
  | claimed completion before after atClaim split run own completions producer
      phase terminals =>
      rcases phase with ⟨phase, -⟩ | ⟨phase, -⟩ | ⟨phase, empty⟩
      · rw [phase] at hmessage
        cases hmessage
      · rw [phase] at hmessage
        cases hmessage
      obtain ⟨shown, hshown, hemitted⟩ := hconsistent.progress
      rw [hmessage, Phase.completed] at hemitted
      rw [empty] at hshown
      have hall : progressOf o.items = shown := by simpa [progressOf] using hshown
      rw [phase] at hmessage
      cases hmessage
      refine ⟨by rw [hemitted, hall], completion, before, after, atClaim,
        completions, split, run, ?_⟩
      rcases winner_cases own completion with hown | ⟨hnone, hwinner⟩
      · exact Or.inl ⟨_, hown, rfl⟩
      · exact Or.inr ⟨hnone, by rw [hwinner]⟩

/-- A clone answers between the end of `execute` and the claim. -/
private def cloneAnswers : List Act :=
  [.clone, .send (.Progress ⟨"half"⟩),
    .execute (.ready (.ok ⟨[], false, none⟩) none),
    .send (.Terminal (ToolResult.error "late")), .dropClone,
    .claim, .recv, .recv, .leave, .complete]

theorem first_terminal_wins_clone :
    ∃ o, Machine.run (Observed.step ⟨"c1", "read", .null⟩) Observed.start
        cloneAnswers = some o ∧
      o.emitted = [.ToolProgress "c1" "half",
        .ToolCompleted "c1" ⟨"c1", [.Text ⟨"late"⟩], true, none⟩] :=
  ⟨_, rfl, ((first_terminal_wins ⟨"c1", "read", .null⟩ cloneAnswers _ rfl).2.2
    _ rfl).1⟩

end MCode.Agent.ToolCalls
