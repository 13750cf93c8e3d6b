import MCode.Agent.Steps

/-!
# The event log of a turn

Observers rebuild the state of the agent from its events.  What one `prompt`
run emits is a sequence of segments, single events and whole tool calls,
between `TurnStarted` and `TurnEnded`, and it announces exactly the messages
the run appends.
-/

namespace MCode.Agent.EventLog

open MCode.Lib
open MCode.Core
open MCode.Provider
open MCode.Agent.ToolCalls
open MCode.Agent.Loop

/-! ## Segments -/

/-- The events that may stand outside of a tool call. -/
def isPlain : AgentEvent → Bool
  | .MessageDelta _ => true
  | .MessageAdded _ => true
  | .Error _ => true
  | _ => false

def isError : AgentEvent → Bool
  | .Error _ => true
  | _ => false

/-- A single event, or a tool call with its progress and the result that is
appended to the history. -/
inductive Segment where
  | plain (event : AgentEvent) (h : isPlain event = true)
  | call (callId : CallId) (name : String) (progress : List String)
      (result : ToolResultMessage)

def Segment.events : Segment → List AgentEvent
  | .plain event _ => [event]
  | .call callId name progress result =>
      .ToolStarted callId name :: progress.map (.ToolProgress callId) ++
        [.ToolCompleted callId result, .MessageAdded (.ToolResult result)]

/-- The payloads of `MessageAdded`. -/
def messagesAdded (events : List AgentEvent) : List Message :=
  events.filterMap fun
    | .MessageAdded message => some message
    | _ => none

/-- The responses among the entries of a history. -/
def responses (entries : List Entry) : List AssistantMessage :=
  entries.filterMap fun
    | .response message => some message
    | _ => none

/-- The response with which a provider stream was done. -/
def done? : Label → Option AssistantMessage
  | .next (some (.Done message)) => some message
  | _ => none

/-! ## What a turn leaves behind -/

/-- The log of a turn so far: its entries and its segments, and the events of
a tool call that has not ended. -/
structure Log (before s : State) (labels : List Label) (added : List Entry)
    (body : List Segment) (opened : List AgentEvent) : Prop where
  history : s.history = before.history ++ added
  events : s.events = before.events ++
    .TurnStarted :: (body.flatMap Segment.events ++ opened)
  announced : messagesAdded (body.flatMap Segment.events) =
    added.map Entry.message
  responses : responses added = labels.filterMap done?
  returned : s.returned = before.returned

/-- How the errors among the segments go with the result. -/
def ErrorsOf (body : List Segment) : Except McodeError TurnOutcome → Prop
  | .ok _ => (body.flatMap Segment.events).any isError = false
  | .error error =>
      ∃ first, body = first ++ [.plain (.Error error) rfl] ∧
        (first.flatMap Segment.events).any isError = false

/-- A finished turn: `after` mirrors the run of `labels` from `before`. -/
def Mirrors (before after : State) (labels : List Label) : Prop :=
  ∃ added body result,
    after.history = before.history ++ added ∧
    after.events = before.events ++ .TurnStarted ::
      (body.flatMap Segment.events ++ [.TurnEnded (endedWith result)]) ∧
    after.returned = before.returned ++ [result] ∧
    messagesAdded (body.flatMap Segment.events) = added.map Entry.message ∧
    responses added = labels.filterMap done? ∧
    ErrorsOf body result

/-- The events of the tool call that is open at a place. -/
def OpenAt (opened : List AgentEvent) : Pc → Prop
  | .binding call _ => opened = [.ToolStarted call.id call.name]
  | .executing call _ dispatch =>
      (∀ m, dispatch.phase ≠ .finished m) ∧ ∃ progress : List String,
        opened = .ToolStarted call.id call.name ::
          progress.map (.ToolProgress call.id)
  | .answered call message _ =>
      ∃ progress : List String,
        opened = .ToolStarted call.id call.name ::
          progress.map (.ToolProgress call.id) ++ [.ToolCompleted call.id message]
  | _ => opened = []

/-- The errors that a place has behind it. -/
def ErrorsAt (body : List Segment) : Pc → Prop
  | .returning result => ErrorsOf body result
  | _ => (body.flatMap Segment.events).any isError = false

/-- The invariant of a turn that began in `before`. -/
def Inside (before : State) (labels : List Label) (s : State) : Prop :=
  (s.pc = .idle ∧ Mirrors before s labels) ∨
    (s.pc ≠ .idle ∧ ∃ added body opened, Log before s labels added body opened ∧
      OpenAt opened s.pc ∧ ErrorsAt body s.pc)

@[simp] theorem messagesAdded_append (xs ys : List AgentEvent) :
    messagesAdded (xs ++ ys) = messagesAdded xs ++ messagesAdded ys :=
  List.filterMap_append

/-- A call announces its result and nothing else. -/
@[simp] theorem messagesAdded_call (callId : CallId) (name : String)
    (progress : List String) (result : ToolResultMessage) :
    messagesAdded (Segment.call callId name progress result).events =
      [.ToolResult result] := by
  have hprogress : messagesAdded (progress.map (.ToolProgress callId)) = [] := by
    simp [messagesAdded]
  have hstarted : messagesAdded [AgentEvent.ToolStarted callId name] = [] := rfl
  rw [Segment.events, ← List.singleton_append, List.append_assoc,
    messagesAdded_append, messagesAdded_append, hstarted, hprogress]
  rfl

/-- A call shows no error of the turn. -/
@[simp] theorem any_isError_call (callId : CallId) (name : String)
    (progress : List String) (result : ToolResultMessage) :
    (Segment.call callId name progress result).events.any isError = false := by
  simp [Segment.events, isError]

namespace Log

variable {before s s' : State} {labels : List Label} {label : Label}
  {added : List Entry} {body : List Segment} {opened : List AgentEvent}

/-- A step that emits and appends nothing. -/
theorem quiet (h : Log before s labels added body opened)
    (hlabel : done? label = none) (hhistory : s'.history = s.history)
    (hevents : s'.events = s.events) (hreturned : s'.returned = s.returned) :
    Log before s' (labels ++ [label]) added body opened where
  history := hhistory.trans h.history
  events := hevents.trans h.events
  announced := h.announced
  responses := by simp [h.responses, hlabel]
  returned := hreturned.trans h.returned

/-- A single event that announces no message. -/
theorem plain (h : Log before s labels added body [])
    (hlabel : done? label = none) {event : AgentEvent}
    (hplain : isPlain event = true) (hmessage : messagesAdded [event] = [])
    (hhistory : s'.history = s.history) (hevents : s'.events = s.events ++ [event])
    (hreturned : s'.returned = s.returned) :
    Log before s' (labels ++ [label]) added (body ++ [.plain event hplain]) [] where
  history := hhistory.trans h.history
  events := by simp [hevents, h.events, Segment.events]
  announced := by simp [Segment.events, hmessage, h.announced]
  responses := by simp [h.responses, hlabel]
  returned := hreturned.trans h.returned

/-- An appended message with its announcement. -/
theorem push (h : Log before s labels added body []) {entry : Entry}
    (hlabel : EventLog.responses [entry] = (done? label).toList)
    (hhistory : s'.history = s.history ++ [entry])
    (hevents : s'.events = s.events ++ [.MessageAdded entry.message])
    (hreturned : s'.returned = s.returned) :
    Log before s' (labels ++ [label]) (added ++ [entry])
      (body ++ [.plain (.MessageAdded entry.message) rfl]) [] where
  history := by simp [hhistory, h.history]
  events := by simp [hevents, h.events, Segment.events]
  announced := by
    simp only [List.flatMap_append, messagesAdded_append, h.announced,
      List.map_append]
    rfl
  responses := by
    have happend : EventLog.responses (added ++ [entry]) =
        EventLog.responses added ++ EventLog.responses [entry] :=
      List.filterMap_append
    rw [happend, h.responses, hlabel, List.filterMap_append]
    cases hdone : done? label <;> simp [hdone]
  returned := hreturned.trans h.returned

/-- More events of the open call. -/
theorem openMore (h : Log before s labels added body opened)
    (hlabel : done? label = none) {more : List AgentEvent}
    (hhistory : s'.history = s.history) (hevents : s'.events = s.events ++ more)
    (hreturned : s'.returned = s.returned) :
    Log before s' (labels ++ [label]) added body (opened ++ more) where
  history := hhistory.trans h.history
  events := by simp [hevents, h.events]
  announced := h.announced
  responses := by simp [h.responses, hlabel]
  returned := hreturned.trans h.returned

/-- The result of a call is appended: the call is a segment. -/
theorem closeCall (h : Log before s labels added body opened)
    (callId : CallId) (name : String) (progress : List String)
    (result : ToolResultMessage) (more : List AgentEvent)
    (hopened : opened ++ more = .ToolStarted callId name ::
      progress.map (.ToolProgress callId) ++ [.ToolCompleted callId result])
    (hlabel : done? label = none)
    (hhistory : s'.history = s.history ++ [.toolResult result])
    (hevents : s'.events =
      s.events ++ more ++ [.MessageAdded (.ToolResult result)])
    (hreturned : s'.returned = s.returned) :
    Log before s' (labels ++ [label]) (added ++ [.toolResult result])
      (body ++ [.call callId name progress result]) [] where
  history := by simp [hhistory, h.history]
  events := by
    have hall : opened ++ more ++ [.MessageAdded (.ToolResult result)] =
        (Segment.call callId name progress result).events := by
      simp [hopened, Segment.events]
    rw [hevents, h.events]
    simp [← hall]
  announced := by
    simp [h.announced, Entry.message]
  responses := by
    have happend : EventLog.responses (added ++ [.toolResult result]) =
        EventLog.responses added := by simp [EventLog.responses]
    simp [happend, h.responses, hlabel]
  returned := hreturned.trans h.returned

end Log

/-! ## The steps of a turn -/

/-- Outside of a turn only other tasks take steps. -/
private theorem idle_step {serde : SerdeJson} {s s' : State} {label : Label}
    (hidle : s.pc = .idle) (hlabel : ∀ m c, label ≠ .prompt m c)
    (hstep : s.step serde label = some s') :
    s'.pc = .idle ∧ s'.history = s.history ∧ s'.events = s.events ∧
      s'.returned = s.returned ∧ done? label = none := by
  cases label with
  | steer | followUp | clearSteer =>
      cases hstep
      exact ⟨hidle, rfl, rfl, rfl, rfl⟩
  | clearFollowup =>
      simp only [State.step, Option.ite_none_right_eq_some, Option.some.injEq]
        at hstep
      obtain ⟨-, rfl⟩ := hstep
      exact ⟨hidle, rfl, rfl, rfl, rfl⟩
  | abort =>
      simp only [State.step, Option.some.injEq] at hstep
      subst hstep
      split <;> exact ⟨hidle, rfl, rfl, rfl, rfl⟩
  | setQueueMode mode =>
      simp only [State.step, hidle, Option.some.injEq] at hstep
      subst hstep
      exact ⟨rfl, rfl, rfl, rfl, rfl⟩
  | prompt message cancelled => exact absurd rfl (hlabel message cancelled)
  | cancel | advance | validate | opened | next | bind | tool =>
      simp [State.step, State.advance, hidle] at hstep

private theorem done?_eq_none {label : Label}
    (h : ∀ message, label ≠ .next (some (.Done message))) :
    done? label = none := by
  unfold done?
  split
  · exact absurd rfl (h _)
  · rfl

/-- A place without an open tool call and without an error behind it. -/
def calm : Pc → Bool
  | .idle => false
  | .binding _ _ => false
  | .executing _ _ _ => false
  | .answered _ _ _ => false
  | .returning (.error _) => false
  | _ => true

theorem openAt_calm {pc : Pc} (hcalm : calm pc = true)
    {opened : List AgentEvent} : OpenAt opened pc ↔ opened = [] := by
  cases pc <;> first
    | exact Iff.rfl
    | cases hcalm

theorem errorsAt_calm {pc : Pc} (hcalm : calm pc = true)
    {body : List Segment} :
    ErrorsAt body pc ↔ (body.flatMap Segment.events).any isError = false := by
  cases pc with
  | returning result =>
      cases result with
      | ok outcome => exact Iff.rfl
      | error error => cases hcalm
  | _ => exact Iff.rfl

/-- The invariant at a calm place. -/
def Calm (before s : State) (labels : List Label) : Prop :=
  ∃ added body, Log before s labels added body [] ∧
    (body.flatMap Segment.events).any isError = false

theorem inside_calm {before s : State} {labels : List Label}
    (hcalm : calm s.pc = true) :
    Inside before labels s ↔ Calm before s labels := by
  constructor
  · rintro (⟨hidle, -⟩ | ⟨-, added, body, opened, hlog, hopen, herrors⟩)
    · rw [hidle] at hcalm
      cases hcalm
    · rw [openAt_calm hcalm] at hopen
      subst hopen
      exact ⟨added, body, hlog, (errorsAt_calm hcalm).1 herrors⟩
  · rintro ⟨added, body, hlog, herrors⟩
    refine Or.inr ⟨fun hidle => ?_, added, body, [], hlog,
      (openAt_calm hcalm).2 rfl, (errorsAt_calm hcalm).2 herrors⟩
    rw [hidle] at hcalm
    cases hcalm

namespace Calm

variable {before s s' : State} {labels : List Label} {label : Label}
  (h : Calm before s labels)
include h

theorem quiet (hlabel : done? label = none) (hhistory : s'.history = s.history)
    (hevents : s'.events = s.events) (hreturned : s'.returned = s.returned) :
    Calm before s' (labels ++ [label]) := by
  obtain ⟨added, body, hlog, herrors⟩ := h
  exact ⟨added, body, hlog.quiet hlabel hhistory hevents hreturned, herrors⟩

theorem push (entry : Entry)
    (hlabel : responses [entry] = (done? label).toList)
    (hhistory : s'.history = s.history ++ [entry])
    (hevents : s'.events = s.events ++ [.MessageAdded entry.message])
    (hreturned : s'.returned = s.returned) :
    Calm before s' (labels ++ [label]) := by
  obtain ⟨added, body, hlog, herrors⟩ := h
  exact ⟨_, _, hlog.push hlabel hhistory hevents hreturned, by
    simp [herrors, Segment.events, isError]⟩

theorem delta (hlabel : done? label = none) {delta : MessageDelta}
    (hhistory : s'.history = s.history)
    (hevents : s'.events = s.events ++ [.MessageDelta delta])
    (hreturned : s'.returned = s.returned) :
    Calm before s' (labels ++ [label]) := by
  obtain ⟨added, body, hlog, herrors⟩ := h
  exact ⟨_, _, hlog.plain hlabel rfl rfl hhistory hevents hreturned, by
    simp [herrors, Segment.events, isError]⟩

/-- A call that is answered at once. -/
theorem failCall (hlabel : done? label = none) {call : ToolCall}
    {reason : String} {pc : Pc}
    (hs' : s' = { s.failCall call reason with pc }) :
    Calm before s' (labels ++ [label]) := by
  obtain ⟨added, body, hlog, herrors⟩ := h
  subst hs'
  refine ⟨_, _, hlog.closeCall call.id call.name []
    (completedError call reason)
    [.ToolStarted call.id call.name,
      .ToolCompleted call.id (completedError call reason)]
    rfl hlabel rfl ?_ rfl, ?_⟩
  · simp [State.failCall, State.emit, State.push, Entry.message]
  · simp [herrors]

end Calm

/-- The step lemma, inside of a turn. -/
theorem Inside.step {serde : SerdeJson} {before s s' : State}
    {labels : List Label} {label : Label} (h : Inside before labels s)
    (hlabel : ∀ m c, label ≠ .prompt m c)
    (hstep : s.step serde label = some s') :
    Inside before (labels ++ [label]) s' := by
  by_cases hidle : s.pc = .idle
  · rcases h with ⟨-, added, body, result, hmirrors⟩ | ⟨hrun, -⟩
    · obtain ⟨hpc, hhistory, hevents, hreturned, hdone⟩ :=
        idle_step hidle hlabel hstep
      refine Or.inl ⟨hpc, added, body, result, ?_⟩
      rw [hhistory, hevents, hreturned]
      simpa [hdone] using hmirrors
    · exact absurd hidle hrun
  -- From a calm place to a calm place, without and with a message.
  have quiet : ∀ {t : State}, calm s.pc = true → calm t.pc = true →
      done? label = none → t.history = s.history → t.events = s.events →
      t.returned = s.returned → Inside before (labels ++ [label]) t := by
    intro t hs ht hdone hhistory hevents hreturned
    exact (inside_calm ht).2
      (((inside_calm hs).1 h).quiet hdone hhistory hevents hreturned)
  cases State.step_next hstep with
  | steer | followUp | clearSteer | clearFollowup | abort | cancel =>
      rcases h with ⟨hpc, -⟩ | ⟨hrun, added, body, opened, hlog, hopen, herrors⟩
      · exact absurd hpc hidle
      · exact Or.inr ⟨hrun, added, body, opened, hlog.quiet rfl rfl rfl rfl,
          hopen, herrors⟩
  | setQueueMode mode idle => exact absurd idle hidle
  | prompt message cancelled => exact absurd rfl (hlabel message cancelled)
  | start message here =>
      refine (inside_calm rfl).2 ?_
      exact ((inside_calm (by rw [here]; rfl)).1 h).push
        (.prompt message) rfl rfl rfl rfl
  | inject q pending here next =>
      refine (inside_calm (by show calm s.pc = true; rw [here]; rfl)).2 ?_
      exact ((inside_calm (by rw [here]; rfl)).1 h).push
        (.queued q) rfl rfl rfl rfl
  | drainEntry here | injectEnd here | request here | requestChecked request here
  | send request here | truncatedEnd here | dispatchEnd here
  | dispatchAbort call calls here | cancelEnd here | stop here
  | drainFollowup here | valid encoded request here | opened here
  | streamEnd here =>
      exact quiet (by rw [here]; rfl) rfl rfl rfl rfl rfl
  | drainBoundary hasToolCalls here =>
      refine quiet (by rw [here]; rfl) ?_ rfl rfl rfl rfl
      show calm (ite _ _ _) = true
      split <;> rfl
  | checkAbort here =>
      refine quiet ?_ rfl rfl rfl rfl rfl
      cases hpc : s.pc <;> first
        | rfl
        | (rw [hpc] at here; cases here)
  | providerAbort label here response =>
      refine quiet ?_ rfl (done?_eq_none response) rfl rfl rfl
      rcases here with here | here <;> rw [here] <;> rfl
  | fail label error here response =>
      have hcalm : calm s.pc = true := by
        rcases here with here | here | here | ⟨request, here⟩ <;> rw [here] <;> rfl
      obtain ⟨added, body, hlog, herrors⟩ := (inside_calm hcalm).1 h
      exact Or.inr ⟨by simp [State.failTurn], added, _, [],
        hlog.plain (done?_eq_none response) rfl rfl rfl rfl rfl, rfl,
        ⟨body, rfl, herrors⟩⟩
  | truncate call calls here =>
      refine (inside_calm rfl).2 ?_
      exact ((inside_calm (by rw [here]; rfl)).1 h).failCall rfl rfl
  | cancelCall call calls here =>
      refine (inside_calm rfl).2 ?_
      exact ((inside_calm (by rw [here]; rfl)).1 h).failCall rfl rfl
  | dispatch call calls here =>
      obtain ⟨added, body, hlog, herrors⟩ := (inside_calm (by rw [here]; rfl)).1 h
      exact Or.inr ⟨by simp, added, body, _,
        hlog.openMore rfl rfl rfl rfl, rfl, herrors⟩
  | answer call message calls here =>
      rcases h with ⟨hpc, -⟩ | ⟨-, added, body, opened, hlog, hopen, herrors⟩
      · exact absurd hpc hidle
      rw [here] at hopen herrors
      obtain ⟨progress, rfl⟩ := hopen
      refine (inside_calm rfl).2 ⟨_, _, hlog.closeCall call.id call.name progress
        message [] (by simp) rfl rfl (by simp [State.push, Entry.message]) rfl, ?_⟩
      have hnone : (body.flatMap Segment.events).any isError = false := herrors
      simp [hnone]
  | delta event delta here response =>
      refine (inside_calm (by show calm s.pc = true; rw [here]; rfl)).2 ?_
      exact ((inside_calm (by rw [here]; rfl)).1 h).delta
        (done?_eq_none (by simpa using response)) rfl rfl rfl
  | done message here =>
      refine (inside_calm ?_).2 ?_
      · show calm (afterResponse message) = true
        unfold afterResponse
        split
        · rfl
        · split <;> rfl
      · exact ((inside_calm (by rw [here]; rfl)).1 h).push
          (.response message) rfl rfl rfl rfl
  | bindFail binding call calls reason here =>
      rcases h with ⟨hpc, -⟩ | ⟨-, added, body, opened, hlog, hopen, herrors⟩
      · exact absurd hpc hidle
      rw [here] at hopen herrors
      have hopened : opened = [.ToolStarted call.id call.name] := hopen
      subst hopened
      exact Or.inr ⟨by simp, added, body, _, hlog.openMore rfl rfl rfl rfl,
        ⟨[], rfl⟩, herrors⟩
  | bound binding call calls here =>
      rcases h with ⟨hpc, -⟩ | ⟨-, added, body, opened, hlog, hopen, herrors⟩
      · exact absurd hpc hidle
      rw [here] at hopen herrors
      exact Or.inr ⟨by simp, added, body, opened, hlog.quiet rfl rfl rfl rfl,
        ⟨by simp [Dispatch.start], [], hopen⟩, herrors⟩
  | tool act call calls dispatch next here taken =>
      rcases h with ⟨hpc, -⟩ | ⟨-, added, body, opened, hlog, hopen, herrors⟩
      · exact absurd hpc hidle
      rw [here] at hopen herrors
      obtain ⟨hrunning, progress, rfl⟩ := hopen
      rcases dispatch_shows taken hrunning with
        ⟨m, hfinished, -, hemitted⟩ | ⟨hgoing, more, hemitted⟩
      · have hpc : (s.tool call calls next).pc = .answered call m calls := by
          simp [State.tool, hfinished]
        refine Or.inr ⟨by simp [hpc], added, body, _,
          hlog.openMore rfl rfl rfl rfl, ?_, ?_⟩
        · rw [hpc, hemitted]
          exact ⟨progress, rfl⟩
        · rw [hpc]
          exact herrors
      · have hpc : (s.tool call calls next).pc = .executing call calls next.1 := by
          unfold State.tool
          dsimp only
          split
          · rename_i m hm
            exact absurd hm (hgoing m)
          · rfl
        refine Or.inr ⟨by simp [hpc], added, body, _,
          hlog.openMore rfl rfl rfl rfl, ?_, ?_⟩
        · rw [hpc, hemitted]
          exact ⟨hgoing, progress ++ more, by simp⟩
        · rw [hpc]
          exact herrors
  | finish result here =>
      rcases h with ⟨hpc, -⟩ | ⟨-, added, body, opened, hlog, hopen, herrors⟩
      · exact absurd hpc hidle
      rw [here] at hopen herrors
      have hopened : opened = [] := hopen
      subst hopened
      refine Or.inl ⟨rfl, added, body, result, hlog.history, ?_, ?_,
        hlog.announced, ?_, herrors⟩
      · simp [State.emit, hlog.events]
      · simp [hlog.returned]
      · simp [hlog.responses, done?]

/-- **The event log mirrors the turn.**  For one `prompt` run, from its call
until it has returned: the history is only appended to; the run emits
`TurnStarted`, then single events and whole tool calls, each with the result
that is appended next, and last `TurnEnded` with the outcome; `MessageAdded`
announces exactly what is appended, the responses are those of the streams
that were done, and an error is emitted once, at the end of a turn that
returns it. -/
theorem event_log_mirrors_turn (serde : SerdeJson) (before after : State)
    (message : Message) (cancelled : Bool) (labels : List Label)
    (hone : ∀ label ∈ labels, ∀ m c, label ≠ .prompt m c)
    (hrun : Machine.run (State.step serde) before
      (.prompt message cancelled :: labels) = some after)
    (hreturned : after.pc = .idle) : Mirrors before after labels := by
  obtain ⟨started, hstart, hrest⟩ := Machine.run_cons_some hrun
  have hidle : before.pc = .idle := by
    cases State.step_next hstart with
    | prompt message cancelled idle => exact idle
    | fail label error here response own => cases own
    | providerAbort label here response own => cases own
  have hstarted : Inside before [] started := by
    simp only [State.step, hidle, Option.some.injEq] at hstart
    subst hstart
    refine Or.inr ⟨by simp [State.prompt], [], [], [], ?_, rfl, rfl⟩
    exact
      { history := by simp [State.prompt, State.emit]
        events := by simp [State.prompt, State.emit]
        announced := rfl
        responses := rfl
        returned := by simp [State.prompt, State.emit] }
  have hinside : Inside before labels after := by
    refine Machine.run_history
      (I := fun history s =>
        (∀ label ∈ history, ∀ (m : Message) (c : Bool), label ≠ .prompt m c) →
        Inside before history s)
      (fun _ => hstarted) ?_ hrest hone
    intro history s label t _ hs hstep hall
    refine (hs fun l hl => ?_).step (hall label (by simp)) hstep
    exact hall l (List.mem_append_left _ hl)
  rcases hinside with ⟨-, hmirrors⟩ | ⟨hrunning, -⟩
  · exact hmirrors
  · exact absurd hreturned hrunning

/-- A tool call that shows progress, and then a natural stop. -/
private def progressTurn : List Label :=
  [.advance, .advance, .advance, .advance, .advance, .validate (some 2),
    .advance, .opened (.ok ()),
    .next (some (.Done ⟨[.ToolCall ⟨"c1", "read", .null⟩], none, .ToolUse⟩)),
    .advance, .bind .bound, .tool (.send (.Progress ⟨"half"⟩)),
    .tool (.execute (.ready (.ok ⟨[], false, none⟩) none)), .tool .claim,
    .tool .recv, .tool .recv, .tool .leave, .tool .complete, .advance, .advance,
    .advance, .advance, .advance, .advance, .validate (some 2), .advance,
    .opened (.ok ()), .next (some (.Done ⟨[], none, .Stop⟩)), .advance, .advance,
    .advance]

theorem event_log_mirrors_turn_progress :
    ∃ after, Machine.run (State.step ⟨fun _ => none, fun _ => ""⟩) State.new
        (.prompt (.User ⟨[.Text ⟨"go"⟩]⟩) false :: progressTurn) = some after ∧
      after.returned = [.ok .Completed] ∧
      Mirrors State.new after progressTurn :=
  ⟨_, rfl, rfl, event_log_mirrors_turn ⟨fun _ => none, fun _ => ""⟩ State.new _
    (.User ⟨[.Text ⟨"go"⟩]⟩) false progressTurn (by simp [progressTurn]) rfl rfl⟩

end MCode.Agent.EventLog
