import MCode.Agent.Steps

/-!
# Every tool call of the history is answered

Providers require that an assistant message with tool calls is followed at
once by one result per call.  A history is paired when it splits into user
inputs and such exchanges; while the loop answers the calls of the last
response, the history is paired except for the calls that are still open.
-/

namespace MCode.Agent.Pairing

open MCode.Lib
open MCode.Core
open MCode.Provider
open MCode.Agent.ToolCalls
open MCode.Agent.Loop

/-! ## Paired histories -/

/-- What users and plugins author. -/
def isInput : Message → Bool
  | .User _ => true
  | .Custom _ => true
  | _ => false

/-- A response with exactly one result per call, in the order of the calls. -/
structure Exchange where
  response : AssistantMessage
  results : List ToolResultMessage
  answers : results.map (·.toolCallId) = response.toolCalls.map (·.id)

inductive Block where
  | input (message : Message) (authored : isInput message = true)
  | exchange (exchange : Exchange)

def Block.messages : Block → List Message
  | .input message _ => [message]
  | .exchange e => .Assistant e.response :: e.results.map .ToolResult

def Paired (messages : List Message) : Prop :=
  ∃ blocks : List Block, messages = blocks.flatMap Block.messages

/-- Paired, except that the last exchange still lacks the results of
`calls`. -/
def OpenFor (calls : List ToolCall) (messages : List Message) : Prop :=
  ∃ (blocks : List Block) (response : AssistantMessage)
    (results : List ToolResultMessage),
    messages = blocks.flatMap Block.messages ++
      .Assistant response :: results.map .ToolResult ∧
    results.map (·.toolCallId) ++ calls.map (·.id) =
      response.toolCalls.map (·.id)

theorem Paired.nil : Paired [] := ⟨[], rfl⟩

theorem Paired.input {messages : List Message} (h : Paired messages)
    {message : Message} (hinput : isInput message = true) :
    Paired (messages ++ [message]) := by
  obtain ⟨blocks, rfl⟩ := h
  exact ⟨blocks ++ [.input message hinput], by simp [Block.messages]⟩

/-- A response opens its calls. -/
theorem Paired.response {messages : List Message} (h : Paired messages)
    (message : AssistantMessage) :
    OpenFor message.toolCalls (messages ++ [.Assistant message]) := by
  obtain ⟨blocks, rfl⟩ := h
  exact ⟨blocks, message, [], rfl, rfl⟩

/-- A result with the id of the first open call closes that call. -/
theorem OpenFor.answer {messages : List Message} {call : ToolCall}
    {calls : List ToolCall} (h : OpenFor (call :: calls) messages)
    {result : ToolResultMessage} (hid : result.toolCallId = call.id) :
    OpenFor calls (messages ++ [.ToolResult result]) := by
  obtain ⟨blocks, response, results, rfl, hids⟩ := h
  refine ⟨blocks, response, results ++ [result], by simp, ?_⟩
  rw [← hids]
  simp [hid]

/-- An exchange without open calls is complete. -/
theorem OpenFor.close {messages : List Message} (h : OpenFor [] messages) :
    Paired messages := by
  obtain ⟨blocks, response, results, rfl, hids⟩ := h
  have hanswers : results.map (·.toolCallId) = response.toolCalls.map (·.id) := by
    simpa using hids
  exact ⟨blocks ++ [.exchange ⟨response, results, hanswers⟩], by
    simp [Block.messages]⟩

/-! ## The invariant of the loop -/

/-- What holds of the history at each place of the loop. -/
def AtPlace (messages : List Message) : Pc → Prop
  | .starting message => Paired messages ∧ isInput message = true
  | .requested request => Paired messages ∧ Paired request.messages
  | .validating request => Paired messages ∧ Paired request.messages
  | .validated request => Paired messages ∧ Paired request.messages
  | .truncating calls => OpenFor calls messages
  | .dispatching calls => OpenFor calls messages
  | .cancelling calls => OpenFor calls messages
  | .binding call calls => OpenFor (call :: calls) messages
  | .executing call calls dispatch =>
      OpenFor (call :: calls) messages ∧ ∀ m, dispatch.phase ≠ .finished m
  | .answered call message calls =>
      OpenFor (call :: calls) messages ∧ message.toolCallId = call.id
  | _ => Paired messages

structure Invariant (s : State) : Prop where
  inputs : ∀ q, q ∈ s.steerQueue ∨ q ∈ s.followupQueue ∨ q ∈ s.pending →
    isInput q.message = true
  place : AtPlace s.messages s.pc
  requests : ∀ request ∈ s.requests, Paired request.messages

/-- The messages that callers hand in are authored by users or plugins. -/
def InputLabel : Label → Prop
  | .steer message => isInput message = true
  | .followUp message => isInput message = true
  | .prompt message _ => isInput message = true
  | _ => True

theorem invariant_new : Invariant State.new where
  inputs := by simp [State.new]
  place := Paired.nil
  requests := by simp [State.new]

@[simp] theorem messages_push (s : State) (entry : Entry) :
    (s.push entry).messages = s.messages ++ [entry.message] := by
  simp [State.push, State.messages]

/-- A response leads to the place where its calls are answered. -/
theorem atPlace_afterResponse {messages : List Message}
    {message : AssistantMessage} (h : OpenFor message.toolCalls messages) :
    AtPlace messages (afterResponse message) := by
  unfold afterResponse
  split
  · rename_i hnone
    rw [List.isEmpty_iff.1 hnone] at h
    exact h.close
  · split
    · exact h
    · exact h

/-- No call is open where the token is checked before a request. -/
theorem paired_of_checksToken {messages : List Message} {pc : Pc}
    (hchecks : pc.checksToken = true) (h : AtPlace messages pc) :
    Paired messages := by
  cases pc with
  | injected | streamEnded => exact h
  | requested request | validated request => exact h.1
  | _ => cases hchecks

/-- A step that leaves queues and requests alone. -/
theorem Invariant.move {s s' : State} (h : Invariant s)
    (hsteer : s'.steerQueue = s.steerQueue)
    (hfollowup : s'.followupQueue = s.followupQueue)
    (hpending : s'.pending = s.pending) (hrequests : s'.requests = s.requests)
    (hplace : AtPlace s'.messages s'.pc) : Invariant s' where
  inputs := by
    rw [hsteer, hfollowup, hpending]
    exact h.inputs
  place := hplace
  requests := by
    rw [hrequests]
    exact h.requests

/-- An answered call, whoever answers it. -/
theorem atPlace_failCall {s : State} {call : ToolCall} {calls : List ToolCall}
    (h : OpenFor (call :: calls) s.messages) (reason : String) :
    OpenFor calls (s.failCall call reason).messages := by
  unfold State.failCall
  rw [messages_push]
  exact h.answer rfl

/-- The step lemma. -/
theorem Invariant.step {serde : SerdeJson} {s s' : State} {label : Label}
    (h : Invariant s) (hlabel : InputLabel label)
    (hstep : s.step serde label = some s') : Invariant s' := by
  have hinputs := h.inputs
  have hplace := h.place
  have hrequests := h.requests
  cases State.step_next hstep with
  | steer message =>
      refine { h with inputs := ?_ }
      intro q hq
      simp only [State.enqueue, List.mem_append, List.mem_singleton] at hq
      rcases hq with (hq | rfl) | hq | hq
      · exact hinputs q (Or.inl hq)
      · exact hlabel
      · exact hinputs q (Or.inr (Or.inl hq))
      · exact hinputs q (Or.inr (Or.inr hq))
  | followUp message =>
      refine { h with inputs := ?_ }
      intro q hq
      simp only [State.enqueue, List.mem_append, List.mem_singleton] at hq
      rcases hq with hq | (hq | rfl) | hq
      · exact hinputs q (Or.inl hq)
      · exact hinputs q (Or.inr (Or.inl hq))
      · exact hlabel
      · exact hinputs q (Or.inr (Or.inr hq))
  | clearSteer =>
      exact { h with inputs := fun q hq => hinputs q (Or.inr (by simpa using hq)) }
  | clearFollowup =>
      refine { h with inputs := fun q hq => hinputs q ?_ }
      simp only [List.not_mem_nil, false_or] at hq
      exact hq.imp_right Or.inr
  | abort | cancel | setQueueMode => exact { h with }
  | prompt message cancelled idle =>
      rw [idle] at hplace
      exact { h with place := ⟨hplace, hlabel⟩ }
  | start message here =>
      rw [here] at hplace
      refine h.move rfl rfl rfl rfl ?_
      show AtPlace (s.push _).messages .entry
      rw [messages_push]
      exact hplace.1.input hplace.2
  | drainEntry here =>
      rw [here] at hplace
      refine { h with place := hplace, inputs := fun q hq => ?_ }
      rcases hq with hq | hq | hq
      · exact hinputs q (Or.inl (mem_drainQueue (Or.inr hq)))
      · exact hinputs q (Or.inr (Or.inl hq))
      · exact hinputs q (Or.inl (mem_drainQueue (Or.inl hq)))
  | inject q pending here next =>
      rw [here] at hplace
      refine { inputs := fun p hp => ?_, place := ?_, requests := hrequests }
      · refine hinputs p (hp.imp_right (Or.imp_right fun hp => ?_))
        rw [next]
        exact List.mem_cons_of_mem q hp
      · show AtPlace (s.push _).messages s.pc
        rw [messages_push, here]
        exact hplace.input (hinputs q (Or.inr (Or.inr (by simp [next]))))
  | injectEnd here | opened here | streamEnd here =>
      rw [here] at hplace
      exact h.move rfl rfl rfl rfl hplace
  | checkAbort here =>
      refine h.move rfl rfl rfl rfl ?_
      exact paired_of_checksToken here hplace
  | request here =>
      rw [here] at hplace
      exact h.move rfl rfl rfl rfl ⟨hplace, hplace⟩
  | requestChecked request here | valid encoded request here =>
      rw [here] at hplace
      exact h.move rfl rfl rfl rfl hplace
  | send request here =>
      rw [here] at hplace
      refine { h with place := hplace.1, requests := fun r hr => ?_ }
      rcases List.mem_append.1 hr with hr | hr
      · exact hrequests r hr
      · rw [List.mem_singleton.1 hr]
        exact hplace.2
  | fail label error here =>
      refine h.move rfl rfl rfl rfl ?_
      show Paired s.messages
      rcases here with here | here | here | ⟨request, here⟩ <;> rw [here] at hplace
      · exact hplace
      · exact hplace
      · exact hplace
      · exact hplace.1
  | truncatedEnd here | dispatchEnd here =>
      rw [here] at hplace
      exact h.move rfl rfl rfl rfl (OpenFor.close hplace)
  | cancelEnd here =>
      rw [here] at hplace
      exact h.move rfl rfl rfl rfl (OpenFor.close hplace)
  | truncate call calls here =>
      rw [here] at hplace
      exact h.move rfl rfl rfl rfl (atPlace_failCall hplace _)
  | cancelCall call calls here =>
      rw [here] at hplace
      exact h.move rfl rfl rfl rfl (atPlace_failCall hplace _)
  | dispatchAbort call calls here | dispatch call calls here =>
      rw [here] at hplace
      exact h.move rfl rfl rfl rfl hplace
  | answer call message calls here =>
      rw [here] at hplace
      refine h.move rfl rfl rfl rfl ?_
      show AtPlace (s.push _).messages (.dispatching calls)
      rw [messages_push]
      exact hplace.1.answer hplace.2
  | drainBoundary hasToolCalls here =>
      rw [here] at hplace
      refine { inputs := fun q hq => ?_, place := ?_, requests := hrequests }
      · simp only [List.mem_append] at hq
        rcases hq with hq | hq | hq | hq
        · exact hinputs q (Or.inl (mem_drainQueue (Or.inr hq)))
        · exact hinputs q (Or.inr (Or.inl hq))
        · exact hinputs q (Or.inr (Or.inr hq))
        · exact hinputs q (Or.inl (mem_drainQueue (Or.inl hq)))
      · show AtPlace s.messages (ite _ _ _)
        split
        · exact hplace
        · exact hplace
  | stop here =>
      rw [here] at hplace
      refine { h with place := hplace, inputs := fun q hq => ?_ }
      exact hinputs q (hq.imp_right (Or.imp_left (fun hq =>
        mem_drainQueue (Or.inr hq))))
  | drainFollowup here =>
      rw [here] at hplace
      refine { h with place := hplace, inputs := fun q hq => ?_ }
      simp only [List.mem_append] at hq
      rcases hq with hq | hq | hq | hq
      · exact hinputs q (Or.inl hq)
      · exact hinputs q (Or.inr (Or.inl (mem_drainQueue (Or.inr hq))))
      · exact hinputs q (Or.inr (Or.inr hq))
      · exact hinputs q (Or.inr (Or.inl (mem_drainQueue (Or.inl hq))))
  | finish result here =>
      rw [here] at hplace
      exact h.move rfl rfl rfl rfl hplace
  | providerAbort label here =>
      refine h.move rfl rfl rfl rfl ?_
      show Paired s.messages
      rcases here with here | here <;> rw [here] at hplace
      · exact hplace
      · exact hplace
  | delta event delta here =>
      exact h.move rfl rfl rfl rfl hplace
  | done message here =>
      rw [here] at hplace
      refine h.move rfl rfl rfl rfl ?_
      show AtPlace (s.push _).messages (afterResponse message)
      rw [messages_push]
      exact atPlace_afterResponse (hplace.response message)
  | bindFail binding call calls reason here =>
      rw [here] at hplace
      exact h.move rfl rfl rfl rfl ⟨hplace, rfl⟩
  | bound binding call calls here =>
      rw [here] at hplace
      exact h.move rfl rfl rfl rfl ⟨hplace, fun m => by simp [Dispatch.start]⟩
  | tool act call calls dispatch next here taken =>
      rw [here] at hplace
      refine h.move rfl rfl rfl rfl ?_
      show AtPlace s.messages (s.tool call calls next).pc
      unfold State.tool
      dsimp only
      split
      · rename_i m hfinished
        rcases dispatch_shows taken hplace.2 with ⟨m', hm', hid, -⟩ | ⟨hrunning, -⟩
        · rw [hfinished] at hm'
          cases hm'
          exact ⟨hplace.1, hid⟩
        · exact absurd hfinished (hrunning m)
      · rename_i hrunning
        exact ⟨hplace.1, fun m hm => hrunning m hm⟩

/-- **Every tool call is answered.**  Over every sequence of `prompt` runs
from an empty history, whatever the provider, the tools and the token do:
each request handed to the provider is paired, and so is the history
whenever no `prompt` runs. -/
theorem tool_calls_paired (serde : SerdeJson) (labels : List Label) (s : State)
    (hlabels : ∀ label ∈ labels, InputLabel label)
    (h : Machine.run (State.step serde) State.new labels = some s) :
    (∀ request ∈ s.requests, Paired request.messages) ∧
      (s.pc = .idle → Paired s.messages) := by
  have hinv : Invariant s :=
    Machine.run_preserves (fun _ _ _ hs hlabel hstep => hs.step hlabel hstep)
      hlabels invariant_new h
  refine ⟨hinv.requests, fun hidle => ?_⟩
  have hplace := hinv.place
  rw [hidle] at hplace
  exact hplace

/-- Two calls, the second one cancelled, and then an error of the provider. -/
private def cancelledCall : List Label :=
  let input := Message.User ⟨[.Text ⟨"go"⟩]⟩
  let call id := ContentBlock.ToolCall ⟨id, "read", .null⟩
  [.prompt input false, .advance, .advance, .advance, .advance, .advance,
    .validate (some 2), .advance, .opened (.ok ()),
    .next (some (.Done ⟨[call "c1", call "c2"], none, .ToolUse⟩)),
    .advance, .cancel, .bind .unknownTool, .advance, .advance, .advance,
    .advance, .advance]

theorem tool_calls_paired_cancelled :
    ∃ s, Machine.run (State.step ⟨fun _ => none, fun _ => ""⟩) State.new
        cancelledCall = some s ∧
      s.messages.length = 4 ∧ s.returned = [.ok .Aborted] ∧ Paired s.messages :=
  ⟨_, rfl, rfl, rfl, (tool_calls_paired ⟨fun _ => none, fun _ => ""⟩
    cancelledCall _ (by simp [cancelledCall, InputLabel, isInput]) rfl).2 rfl⟩

end MCode.Agent.Pairing
