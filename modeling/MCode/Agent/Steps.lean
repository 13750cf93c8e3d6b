import MCode.Agent.Loop

/-!
# What one step of the loop can do

Every enabled step, with the place it starts from and the state it leads to.
The invariants of the loop are proved by cases on this relation and never
unfold `State.step`.
-/

namespace MCode.Agent.Loop

open MCode.Core
open MCode.Provider
open MCode.Agent.ToolCalls

/-- The checks at which a cancelled turn ends. -/
def Pc.checksToken : Pc → Bool
  | .injected => true
  | .requested _ => true
  | .validated _ => true
  | .streamEnded => true
  | _ => false

/-- The steps of the task that runs `prompt`, its call apart. -/
def Label.ofTurn : Label → Bool
  | .advance => true
  | .validate _ => true
  | .opened _ => true
  | .next _ => true
  | .bind _ => true
  | .tool _ => true
  | _ => false

inductive Next (serde : SerdeJson) (s : State) : Label → State → Prop
  | steer (message : Message) :
      Next serde s (.steer message) (s.enqueue .steer message)
  | followUp (message : Message) :
      Next serde s (.followUp message) (s.enqueue .followUp message)
  | clearSteer :
      Next serde s .clearSteer
        { s with
          steerQueue := []
          dropped := s.dropped ++ s.steerQueue
          clearing := s.clearing + 1 }
  | clearFollowup (clearing : 0 < s.clearing) :
      Next serde s .clearFollowup
        { s with
          followupQueue := []
          dropped := s.dropped ++ s.followupQueue
          clearing := s.clearing - 1 }
  | abort (cancelled : Bool) :
      Next serde s .abort { s with cancelled }
  | cancel (running : s.pc ≠ .idle) :
      Next serde s .cancel { s with cancelled := true }
  | setQueueMode (mode : QueueMode) (idle : s.pc = .idle) :
      Next serde s (.setQueueMode mode) { s with queueMode := mode }
  | prompt (message : Message) (cancelled : Bool) (idle : s.pc = .idle) :
      Next serde s (.prompt message cancelled) (s.prompt message cancelled)
  | start (message : Message) (here : s.pc = .starting message) :
      Next serde s .advance { s.push (.prompt message) with pc := .entry }
  | drainEntry (here : s.pc = .entry) :
      Next serde s .advance
        { s with
          steerQueue := (drainQueue s.queueMode s.steerQueue).2
          pending := (drainQueue s.queueMode s.steerQueue).1
          steered := !(drainQueue s.queueMode s.steerQueue).1.isEmpty
          pc := .injecting }
  | inject (q : Queued) (pending : List Queued) (here : s.pc = .injecting)
      (next : s.pending = q :: pending) :
      Next serde s .advance { s.push (.queued q) with pending }
  | injectEnd (here : s.pc = .injecting) (empty : s.pending = []) :
      Next serde s .advance { s with pc := .injected }
  | checkAbort (here : s.pc.checksToken = true) (cancelled : s.cancelled = true) :
      Next serde s .advance s.abortTurn
  | request (here : s.pc = .injected) :
      Next serde s .advance { s with pc := .requested ⟨s.messages⟩ }
  | requestChecked (request : Request) (here : s.pc = .requested request) :
      Next serde s .advance { s with pc := .validating request }
  | send (request : Request) (here : s.pc = .validated request) :
      Next serde s .advance
        { s with requests := s.requests ++ [request], pc := .opening }
  | fail (label : Label) (error : ProviderError)
      (here : s.pc = .streamEnded ∨ s.pc = .opening ∨ s.pc = .streaming ∨
        ∃ request, s.pc = .validating request)
      (response : ∀ message, label ≠ .next (some (.Done message)))
      (own : label.ofTurn = true) :
      Next serde s label (s.failTurn error)
  | truncatedEnd (here : s.pc = .truncating []) :
      Next serde s .advance { s with pc := .boundary true }
  | truncate (call : ToolCall) (calls : List ToolCall)
      (here : s.pc = .truncating (call :: calls)) :
      Next serde s .advance
        { s.failTruncatedCall call with pc := .truncating calls }
  | dispatchEnd (here : s.pc = .dispatching []) :
      Next serde s .advance { s with pc := .boundary true }
  | dispatchAbort (call : ToolCall) (calls : List ToolCall)
      (here : s.pc = .dispatching (call :: calls)) (cancelled : s.cancelled = true) :
      Next serde s .advance { s with pc := .cancelling (call :: calls) }
  | dispatch (call : ToolCall) (calls : List ToolCall)
      (here : s.pc = .dispatching (call :: calls)) (going : s.cancelled = false) :
      Next serde s .advance
        { s.emit (.ToolStarted call.id call.name) with pc := .binding call calls }
  | cancelEnd (here : s.pc = .cancelling []) :
      Next serde s .advance s.abortTurn
  | cancelCall (call : ToolCall) (calls : List ToolCall)
      (here : s.pc = .cancelling (call :: calls)) :
      Next serde s .advance
        { s.failCancelledCall call with pc := .cancelling calls }
  | answer (call : ToolCall) (message : ToolResultMessage) (calls : List ToolCall)
      (here : s.pc = .answered call message calls) :
      Next serde s .advance
        { s.push (.toolResult message) with pc := .dispatching calls }
  | drainBoundary (hasToolCalls : Bool) (here : s.pc = .boundary hasToolCalls) :
      Next serde s .advance
        { s with
          steerQueue := (drainQueue s.queueMode s.steerQueue).2
          pending := s.pending ++ (drainQueue s.queueMode s.steerQueue).1
          steered := s.steered || !(drainQueue s.queueMode s.steerQueue).1.isEmpty
          pc :=
            if hasToolCalls ||
              !(s.pending ++ (drainQueue s.queueMode s.steerQueue).1).isEmpty
            then .injecting else .wouldStop }
  | stop (here : s.pc = .wouldStop)
      (empty : (drainQueue s.queueMode s.followupQueue).1 = []) :
      Next serde s .advance
        { s with
          followupQueue := (drainQueue s.queueMode s.followupQueue).2
          pc := .returning (.ok (if s.steered then .Steered else .Completed)) }
  | drainFollowup (here : s.pc = .wouldStop)
      (some : (drainQueue s.queueMode s.followupQueue).1 ≠ []) :
      Next serde s .advance
        { s with
          followupQueue := (drainQueue s.queueMode s.followupQueue).2
          pending := s.pending ++ (drainQueue s.queueMode s.followupQueue).1
          pc := .injecting }
  | finish (result : Except McodeError TurnOutcome)
      (here : s.pc = .returning result) :
      Next serde s .advance
        { s.emit (.TurnEnded (endedWith result)) with
          isStreaming := false
          active := false
          returned := s.returned ++ [result]
          pc := .idle }
  | valid (encoded : Option Nat) (request : Request)
      (here : s.pc = .validating request) :
      Next serde s (.validate encoded) { s with pc := .validated request }
  | opened (here : s.pc = .opening) :
      Next serde s (.opened (.ok ())) { s with pc := .streaming }
  | providerAbort (label : Label) (here : s.pc = .opening ∨ s.pc = .streaming)
      (response : ∀ message, label ≠ .next (some (.Done message)))
      (own : label.ofTurn = true) :
      Next serde s label s.abortTurn
  | delta (event : StreamEvent) (delta : MessageDelta)
      (here : s.pc = .streaming)
      (response : ∀ message, event ≠ .Done message) :
      Next serde s (.next (some event)) (s.emit (.MessageDelta delta))
  | done (message : AssistantMessage) (here : s.pc = .streaming) :
      Next serde s (.next (some (.Done message)))
        { s.push (.response message) with pc := afterResponse message }
  | streamEnd (here : s.pc = .streaming) :
      Next serde s (.next none) { s with pc := .streamEnded }
  | bindFail (binding : Binding) (call : ToolCall) (calls : List ToolCall)
      (reason : String) (here : s.pc = .binding call calls) :
      Next serde s (.bind binding)
        { s.emit (.ToolCompleted call.id (completedError call reason)) with
          pc := .answered call (completedError call reason) calls }
  | bound (binding : Binding) (call : ToolCall) (calls : List ToolCall)
      (here : s.pc = .binding call calls) :
      Next serde s (.bind binding)
        { s with pc := .executing call calls Dispatch.start }
  | tool (act : Act) (call : ToolCall) (calls : List ToolCall)
      (dispatch : Dispatch) (next : Dispatch × Effect)
      (here : s.pc = .executing call calls dispatch)
      (taken : dispatch.step call act = some next) :
      Next serde s (.tool act) (s.tool call calls next)

/-- The steps of `prompt` that need no answer of the environment. -/
private theorem State.advance_next {serde : SerdeJson} {s s' : State}
    (h : s.advance serde = some s') : Next serde s .advance s' := by
  unfold State.advance at h
  split at h
  · rename_i message hpc
    cases h
    exact Next.start message hpc
  · rename_i hpc
    cases h
    exact Next.drainEntry hpc
  · rename_i hpc
    split at h
    · rename_i q pending hpending
      cases h
      exact Next.inject q pending hpc hpending
    · rename_i hpending
      cases h
      exact Next.injectEnd hpc hpending
  · rename_i hpc
    split at h
    · rename_i hcancelled
      cases h
      exact Next.checkAbort (by rw [hpc]; rfl) hcancelled
    · cases h
      exact Next.request hpc
  · rename_i request hpc
    split at h
    · rename_i hcancelled
      cases h
      exact Next.checkAbort (by rw [hpc]; rfl) hcancelled
    · cases h
      exact Next.requestChecked request hpc
  · rename_i request hpc
    split at h
    · rename_i hcancelled
      cases h
      exact Next.checkAbort (by rw [hpc]; rfl) hcancelled
    · cases h
      exact Next.send request hpc
  · rename_i hpc
    split at h
    · rename_i hcancelled
      cases h
      exact Next.checkAbort (by rw [hpc]; rfl) hcancelled
    · cases h
      exact Next.fail _ _ (Or.inl hpc) (by simp) rfl
  · rename_i hpc
    cases h
    exact Next.truncatedEnd hpc
  · rename_i call calls hpc
    cases h
    exact Next.truncate call calls hpc
  · rename_i hpc
    cases h
    exact Next.dispatchEnd hpc
  · rename_i call calls hpc
    split at h
    · rename_i hcancelled
      cases h
      exact Next.dispatchAbort call calls hpc hcancelled
    · rename_i hcancelled
      cases h
      exact Next.dispatch call calls hpc (by simpa using hcancelled)
  · rename_i hpc
    cases h
    exact Next.cancelEnd hpc
  · rename_i call calls hpc
    cases h
    exact Next.cancelCall call calls hpc
  · rename_i call message calls hpc
    cases h
    exact Next.answer call message calls hpc
  · rename_i hasToolCalls hpc
    cases h
    exact Next.drainBoundary hasToolCalls hpc
  · rename_i hpc
    dsimp only at h
    split at h
    · rename_i hempty
      cases h
      exact Next.stop hpc (List.isEmpty_iff.1 hempty)
    · rename_i hempty
      cases h
      exact Next.drainFollowup hpc (fun hnil => hempty (List.isEmpty_iff.2 hnil))
  · rename_i result hpc
    cases h
    exact Next.finish result hpc
  · cases h

theorem State.step_next {serde : SerdeJson} {s s' : State} {label : Label}
    (h : s.step serde label = some s') : Next serde s label s' := by
  cases label with
  | steer message =>
      cases h
      exact Next.steer message
  | followUp message =>
      cases h
      exact Next.followUp message
  | clearSteer =>
      cases h
      exact Next.clearSteer
  | clearFollowup =>
      simp only [State.step, Option.ite_none_right_eq_some, Option.some.injEq] at h
      obtain ⟨hclearing, rfl⟩ := h
      exact Next.clearFollowup hclearing
  | abort =>
      simp only [State.step, Option.some.injEq] at h
      split at h
      · cases h
        exact Next.abort true
      · cases h
        exact Next.abort s.cancelled
  | cancel =>
      simp only [State.step] at h
      split at h
      · cases h
      · rename_i hpc
        cases h
        exact Next.cancel hpc
  | setQueueMode mode =>
      simp only [State.step] at h
      split at h
      · rename_i hpc
        cases h
        exact Next.setQueueMode mode hpc
      · cases h
  | prompt message cancelled =>
      simp only [State.step] at h
      split at h
      · rename_i hpc
        cases h
        exact Next.prompt message cancelled hpc
      · cases h
  | advance => exact State.advance_next h
  | validate encoded =>
      simp only [State.step] at h
      split at h
      · rename_i request hpc
        split at h
        · cases h
          exact Next.valid encoded request hpc
        · cases h
          exact Next.fail _ _ (Or.inr (Or.inr (Or.inr ⟨request, hpc⟩)))
            (by simp) rfl
      · cases h
  | opened result =>
      simp only [State.step] at h
      split at h
      · rename_i hpc
        split at h
        · cases h
          exact Next.opened hpc
        · simp only [Option.some.injEq] at h
          split at h
          · cases h
            exact Next.providerAbort _ (Or.inl hpc) (by simp) rfl
          · cases h
            exact Next.fail _ _ (Or.inr (Or.inl hpc)) (by simp) rfl
      · cases h
  | next event =>
      simp only [State.step] at h
      split at h
      · rename_i hpc
        cases h
        unfold State.next
        split
        · exact Next.delta _ _ hpc (by simp)
        · exact Next.delta _ _ hpc (by simp)
        · exact Next.delta _ _ hpc (by simp)
        · exact Next.done _ hpc
        · split
          · exact Next.providerAbort _ (Or.inr hpc) (by simp) rfl
          · exact Next.fail _ _ (Or.inr (Or.inr (Or.inl hpc))) (by simp) rfl
        · exact Next.streamEnd hpc
      · cases h
  | bind binding =>
      simp only [State.step] at h
      split at h
      · rename_i call calls hpc
        cases h
        unfold State.bind
        split
        · exact Next.bindFail binding call calls _ hpc
        · exact Next.bound binding call calls hpc
      · cases h
  | tool act =>
      simp only [State.step] at h
      split at h
      · rename_i call calls dispatch hpc
        obtain ⟨next, hnext, rfl⟩ := Option.map_eq_some_iff.1 h
        exact Next.tool act call calls dispatch next hpc hnext
      · cases h

/-! ## Draining a queue -/

theorem drainQueue_append (mode : QueueMode) (queue : List Queued) :
    (drainQueue mode queue).1 ++ (drainQueue mode queue).2 = queue := by
  cases mode
  · exact List.append_nil queue
  · exact List.take_append_drop 1 queue

theorem mem_drainQueue {mode : QueueMode} {queue : List Queued} {q : Queued}
    (h : q ∈ (drainQueue mode queue).1 ∨ q ∈ (drainQueue mode queue).2) :
    q ∈ queue := by
  rw [← drainQueue_append mode queue]
  exact List.mem_append.2 h

theorem mem_drainQueue_head (mode : QueueMode) (q : Queued) (rest : List Queued) :
    q ∈ (drainQueue mode (q :: rest)).1 := by
  cases mode <;> simp [drainQueue]

/-! ## What a dispatch shows -/

/-- A dispatch that is not done shows progress of its call, or ends with the
`ToolCompleted` of its call. -/
theorem dispatch_shows {call : ToolCall} {dispatch : Dispatch} {act : Act}
    {next : Dispatch × Effect} (h : dispatch.step call act = some next)
    (hrunning : ∀ m, dispatch.phase ≠ .finished m) :
    (∃ m, next.1.phase = .finished m ∧ m.toolCallId = call.id ∧
      next.2.emitted = [.ToolCompleted call.id m]) ∨
    ((∀ m, next.1.phase ≠ .finished m) ∧ ∃ progress : List String,
      next.2.emitted = progress.map (AgentEvent.ToolProgress call.id)) := by
  cases Dispatch.step_next h with
  | complete leaving => exact Or.inl ⟨_, rfl, rfl, rfl⟩
  | execute | leave => exact Or.inr ⟨by simp, [], rfl⟩
  | claim =>
      refine Or.inr ⟨by simp, [], ?_⟩
      unfold Dispatch.push
      dsimp only
      split <;> rfl
  | recvProgress progress => exact Or.inr ⟨hrunning, [progress.message], rfl⟩
  | clone | dropClone | send | recvTerminal => exact Or.inr ⟨hrunning, [], rfl⟩

end MCode.Agent.Loop
