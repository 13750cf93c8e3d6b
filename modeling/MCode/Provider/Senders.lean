import MCode.Lib.Terminal
import MCode.Provider.Stream

/-!
# The producer side of the event stream

The mutex serializes the calls of `send` from the check of `terminal_claimed`
to the send itself, so at most one terminal enters the channel and nothing
enters behind it.  For the consumer every step of the producer side looks the
same: the queue may grow at its end, and not once every sender is gone.
-/

namespace MCode.Provider.Stream

open MCode.Lib
open MCode.Lib.Terminal
open MCode.Core
open MCode.Provider

/-- The events that entered the channel, in order. -/
def Channel.events (self : Channel) : List StreamEvent :=
  self.accepted.map Accepted.event

/-- Every sender was dropped. -/
def Channel.Dead (self : Channel) : Prop := ∀ alive ∈ self.handles, alive = false

/-- With the lock. -/
def Stage.holds : Stage → Bool
  | .locked => true
  | .reserving _ => true
  | .permitted _ => true
  | _ => false

/-- The event that a call is about to send. -/
def Stage.ready : Stage → Option StreamEvent
  | .reserving event => some event
  | .permitted event => some event
  | _ => none

theorem Stage.holds_of_ready {stage : Stage} {event : StreamEvent}
    (h : stage.ready = some event) : stage.holds = true := by
  cases stage with
  | reserving event => rfl
  | permitted event => rfl
  | _ => cases h

/-- What the place of call `i` promises. -/
structure CallInv (serde : SerdeJson) (encode : StreamEvent → Option Nat)
    (s : Channel) (i : Nat) (call : Call) : Prop where
  live : call.stage.inFlight = true → s.handles[call.handle]? = some true
  locked : call.stage.holds = true → s.holder = some i
  ready : ∀ event, call.stage.ready = some event →
    s.terminalClaimed = false ∧ event = admitted serde encode call.sent
  entered : call.stage = .returned true → ∃ a ∈ s.accepted, a.call = i

/-- The invariant of the producer side. -/
structure SenderInv (serde : SerdeJson) (encode : StreamEvent → Option Nat)
    (s : Channel) : Prop where
  calls : ∀ i call, s.calls[i]? = some call → CallInv serde encode s i call
  claimed : s.terminalClaimed = s.events.any StreamEvent.isTerminal
  single : SingleTerminal StreamEvent.isTerminal s.events
  entered : ∀ a ∈ s.accepted, ∃ call, s.calls[a.call]? = some call ∧
    call.stage = .returned true ∧ a.event = admitted serde encode call.sent

/-- What a step of the producer side, or of the owner of the token, is for the
consumer. -/
structure Produces (s s' : Channel) : Prop where
  results : s'.results = s.results
  terminalSeen : s'.terminalSeen = s.terminalSeen
  consumer : s'.consumer = s.consumer
  cancelled : s.cancelled = true → s'.cancelled = true
  grows : ∃ more, s'.queue = s.queue ++ more ∧ s'.events = s.events ++ more ∧
    (s.Dead → s'.Dead ∧ more = [])

variable {serde : SerdeJson} {encode : StreamEvent → Option Nat}

theorem senderInv_channel (cancelled : Bool) :
    SenderInv serde encode (Channel.channel cancelled) where
  calls := by
    intro i call h
    simp [Channel.channel] at h
  claimed := rfl
  single := SingleTerminal.nil
  entered := by
    intro a ha
    cases ha

/-! ## One call of `send` moves -/

theorem getElem?_set_cases {calls : List Call} {i j : Nat} {new call : Call}
    (h : (calls.set i new)[j]? = some call) :
    (j = i ∧ call = new) ∨ (j ≠ i ∧ calls[j]? = some call) := by
  rw [List.getElem?_set] at h
  split at h
  · rename_i hij
    split at h
    · cases h
      exact Or.inl ⟨hij.symm, rfl⟩
    · cases h
  · rename_i hij
    exact Or.inr ⟨fun heq => hij heq.symm, h⟩

/-- A step that moves call `i` to `stage` and leaves alone what the other
calls rely on. -/
theorem SenderInv.moveCall {s s' : Channel} {i : Nat} {call : Call} {stage : Stage}
    (h : SenderInv serde encode s) (found : s.calls[i]? = some call)
    (hcalls : s'.calls = s.calls.set i { call with stage })
    (hhandles : s'.handles = s.handles)
    (hclaimed : s'.terminalClaimed = s.terminalClaimed)
    (haccepted : s'.accepted = s.accepted)
    (hrunning : call.stage ≠ .returned true)
    (hnew : CallInv serde encode s' i { call with stage })
    (hothers : ∀ j other, j ≠ i → s.calls[j]? = some other →
      other.stage.holds = true → s'.holder = some j) :
    SenderInv serde encode s' where
  calls := by
    intro j other hother
    rw [hcalls] at hother
    rcases getElem?_set_cases hother with ⟨rfl, rfl⟩ | ⟨hne, hold⟩
    · exact hnew
    · have hinv := h.calls j other hold
      exact
        { live := fun hlive => by rw [hhandles]; exact hinv.live hlive
          locked := hothers j other hne hold
          ready := fun event hready => by rw [hclaimed]; exact hinv.ready event hready
          entered := fun hreturned => by rw [haccepted]; exact hinv.entered hreturned }
  claimed := by
    unfold Channel.events
    rw [hclaimed, haccepted]
    exact h.claimed
  single := by
    unfold Channel.events
    rw [haccepted]
    exact h.single
  entered := by
    intro a ha
    rw [haccepted] at ha
    obtain ⟨other, hother, hstage, hevent⟩ := h.entered a ha
    have hne : a.call ≠ i := by
      intro heq
      rw [heq, found] at hother
      cases hother
      exact hrunning hstage
    refine ⟨other, ?_, hstage, hevent⟩
    rw [hcalls, List.getElem?_set_ne (fun heq => hne heq.symm)]
    exact hother

/-- Only one call has the lock. -/
theorem SenderInv.alone {s : Channel} {i j : Nat} {call other : Call}
    (h : SenderInv serde encode s) (found : s.calls[i]? = some call)
    (hholds : call.stage.holds = true) (hother : s.calls[j]? = some other)
    (hne : j ≠ i) : other.stage.holds = false := by
  by_contra hheld
  have hi := (h.calls i call found).locked hholds
  have hj := (h.calls j other hother).locked (by simpa using hheld)
  rw [hi] at hj
  exact hne (Option.some.inj hj).symm

theorem SenderInv.dead_not_inFlight {s : Channel} {i : Nat} {call : Call}
    (h : SenderInv serde encode s) (found : s.calls[i]? = some call)
    (hflight : call.stage.inFlight = true) : ¬ s.Dead := by
  intro hdead
  have hlive := (h.calls i call found).live hflight
  have halive := hdead true (List.mem_of_getElem? hlive)
  cases halive

/-! ## The steps of a call -/

/-- A call that leaves with the lock and without a send. -/
theorem SenderInv.release {s : Channel} {i : Nat} {call : Call} {stage : Stage}
    (h : SenderInv serde encode s) (found : s.calls[i]? = some call)
    (hholds : call.stage.holds = true) (hrunning : call.stage ≠ .returned true)
    (hflight : stage.inFlight = false) (hheld : stage.holds = false)
    (hready : stage.ready = none) (hreturned : stage ≠ .returned true) :
    SenderInv serde encode (s.release i call stage) := by
  refine h.moveCall found rfl rfl rfl rfl hrunning ?_ ?_
  · exact
      { live := fun hlive => by rw [hflight] at hlive; cases hlive
        locked := fun hlocked => by rw [hheld] at hlocked; cases hlocked
        ready := fun event hevent => by rw [hready] at hevent; cases hevent
        entered := fun hstage => absurd hstage hreturned }
  · intro j other hne hother hheld'
    rw [h.alone found hholds hother hne] at hheld'
    cases hheld'

/-- A call with the lock that keeps it. -/
theorem SenderInv.proceed {s : Channel} {i : Nat} {call : Call} {stage : Stage}
    (h : SenderInv serde encode s) (found : s.calls[i]? = some call)
    (hflight : call.stage.inFlight = true) (hholds : call.stage.holds = true)
    (hready : ∀ event, stage.ready = some event →
      s.terminalClaimed = false ∧ event = admitted serde encode call.sent)
    (hreturned : stage ≠ .returned true) :
    SenderInv serde encode (s.setStage i call stage) := by
  have hinv := h.calls i call found
  refine h.moveCall found rfl rfl rfl rfl ?_ ?_ ?_
  · intro hstage
    rw [hstage] at hflight
    cases hflight
  · exact
      { live := fun _ => hinv.live hflight
        locked := fun _ => hinv.locked hholds
        ready := hready
        entered := fun hstage => absurd hstage hreturned }
  · intro j other _ hother hheld
    exact (h.calls j other hother).locked hheld

/-- The claim and the send: the event enters behind no terminal. -/
theorem SenderInv.commit {s : Channel} {i : Nat} {call : Call} {event : StreamEvent}
    (h : SenderInv serde encode s) (found : s.calls[i]? = some call)
    (here : call.stage = .permitted event) :
    SenderInv serde encode
      { s.release i call (.returned true) with
        terminalClaimed := s.terminalClaimed || event.isTerminal
        queue := s.queue ++ [event]
        accepted := s.accepted ++ [⟨i, event⟩] } := by
  obtain ⟨hunclaimed, hevent⟩ :=
    (h.calls i call found).ready event (by rw [here]; rfl)
  have hopen : s.events.any StreamEvent.isTerminal = false := by
    rw [← h.claimed]
    exact hunclaimed
  have hevents : (s.accepted ++ [(⟨i, event⟩ : Accepted)]).map Accepted.event =
      s.events ++ [event] := List.map_append
  refine ⟨?_, ?_, ?_, ?_⟩
  · intro j other hother
    rcases getElem?_set_cases hother with ⟨rfl, rfl⟩ | ⟨hne, hold⟩
    · exact
        { live := fun hlive => by cases hlive
          locked := fun hlocked => by cases hlocked
          ready := fun _ hready => by cases hready
          entered := fun _ => ⟨⟨j, event⟩, by simp, rfl⟩ }
    · have hinv := h.calls j other hold
      have hheld := h.alone found (by rw [here]; rfl) hold hne
      exact
        { live := hinv.live
          locked := fun hlocked => by rw [hheld] at hlocked; cases hlocked
          ready := fun e hready => by
            rw [Stage.holds_of_ready hready] at hheld
            cases hheld
          entered := fun hreturned => by
            obtain ⟨a, ha, hcall⟩ := hinv.entered hreturned
            exact ⟨a, List.mem_append_left _ ha, hcall⟩ }
  · show (s.terminalClaimed || event.isTerminal) = List.any _ _
    unfold Channel.events
    rw [hevents, List.any_append, h.claimed]
    simp
  · unfold Channel.events
    rw [hevents]
    exact SingleTerminal.concat hopen event
  · intro a ha
    rcases List.mem_append.1 ha with ha | ha
    · obtain ⟨other, hother, hstage, hlogged⟩ := h.entered a ha
      have hne : i ≠ a.call := by
        rintro rfl
        rw [found] at hother
        cases hother
        rw [here] at hstage
        cases hstage
      exact ⟨other, by rw [← hother]; exact List.getElem?_set_ne hne, hstage, hlogged⟩
    · rw [List.mem_singleton] at ha
      subst ha
      have hlt : i < s.calls.length := (List.getElem?_eq_some_iff.1 found).1
      exact ⟨_, List.getElem?_set_self hlt, rfl, hevent⟩

theorem SenderInv.sendStep {s s' : Channel} {i : Nat} {call : Call}
    (h : SenderInv serde encode s) (found : s.calls[i]? = some call)
    (hstep : s.sendStep serde encode i call = some s') :
    SenderInv serde encode s' := by
  unfold Channel.sendStep at hstep
  split at hstep
  · rename_i hstage
    split at hstep
    · rename_i hfree
      cases hstep
      refine h.moveCall found rfl rfl rfl rfl (by rw [hstage]; nofun) ?_ ?_
      · exact
          { live := fun _ => (h.calls i call found).live (by rw [hstage]; rfl)
            locked := fun _ => rfl
            ready := fun _ hready => by cases hready
            entered := fun hreturned => by cases hreturned }
      · intro j other _ hother hheld
        have hholder := (h.calls j other hother).locked hheld
        rw [hfree] at hholder
        cases hholder
    · cases hstep
  · rename_i hstage
    split at hstep
    · cases hstep
      exact h.release found (by rw [hstage]; rfl) (by rw [hstage]; nofun) rfl rfl rfl
        nofun
    · rename_i hchecked
      cases hstep
      refine h.proceed found (by rw [hstage]; rfl) (by rw [hstage]; rfl) ?_ nofun
      intro event hevent
      cases hevent
      rw [Bool.not_eq_true, Bool.or_eq_false_iff] at hchecked
      exact ⟨hchecked.1, rfl⟩
  · rename_i event hstage
    split at hstep
    · cases hstep
      exact h.release found (by rw [hstage]; rfl) (by rw [hstage]; nofun) rfl rfl rfl
        nofun
    · split at hstep
      · cases hstep
        refine h.proceed found (by rw [hstage]; rfl) (by rw [hstage]; rfl) ?_ nofun
        intro e he
        exact (h.calls i call found).ready e (by rw [hstage]; exact he)
      · cases hstep
  · rename_i event hstage
    cases hstep
    exact h.commit found hstage
  · cases hstep
  · cases hstep

theorem SenderInv.dropSend {s s' : Channel} {i : Nat} {call : Call}
    (h : SenderInv serde encode s) (found : s.calls[i]? = some call)
    (hstep : s.dropSend i call = some s') : SenderInv serde encode s' := by
  unfold Channel.dropSend at hstep
  split at hstep
  · rename_i hstage
    cases hstep
    refine h.moveCall found rfl rfl rfl rfl (by rw [hstage]; nofun) ?_ ?_
    · exact
        { live := fun hlive => by cases hlive
          locked := fun hlocked => by cases hlocked
          ready := fun _ hready => by cases hready
          entered := fun hreturned => by cases hreturned }
    · intro j other _ hother hheld
      exact (h.calls j other hother).locked hheld
  · rename_i event hstage
    cases hstep
    exact h.release found (by rw [hstage]; rfl) (by rw [hstage]; nofun) rfl rfl rfl
      nofun
  · cases hstep

/-! ## All steps -/

/-- The steps of senders, and of the owner of the token. -/
def Label.ofProducer : Label → Bool
  | .clone _ => true
  | .dropSender _ => true
  | .send _ _ => true
  | .sendStep _ => true
  | .dropSend _ => true
  | .cancel => true
  | _ => false

theorem step_consume {s s' : Channel} {label : Label}
    (hlabel : label.ofProducer = false)
    (hstep : s.step serde encode label = some s') :
    s.consume serde s.consumer label = some s' := by
  cases label with
  | clone | dropSender | send | sendStep | dropSend | cancel => cases hlabel
  | _ => exact hstep

/-- The invariant reads only what the producer side writes. -/
theorem SenderInv.frame {s s' : Channel} (h : SenderInv serde encode s)
    (hcalls : s'.calls = s.calls) (hhandles : s'.handles = s.handles)
    (hclaimed : s'.terminalClaimed = s.terminalClaimed)
    (hholder : s'.holder = s.holder) (haccepted : s'.accepted = s.accepted) :
    SenderInv serde encode s' where
  calls := by
    intro i call hcall
    rw [hcalls] at hcall
    have hinv := h.calls i call hcall
    exact
      { live := fun hlive => by rw [hhandles]; exact hinv.live hlive
        locked := fun hlocked => by rw [hholder]; exact hinv.locked hlocked
        ready := fun event hready => by rw [hclaimed]; exact hinv.ready event hready
        entered := fun hreturned => by rw [haccepted]; exact hinv.entered hreturned }
  claimed := by
    unfold Channel.events
    rw [hclaimed, haccepted]
    exact h.claimed
  single := by
    unfold Channel.events
    rw [haccepted]
    exact h.single
  entered := by
    intro a ha
    rw [haccepted] at ha
    rw [hcalls]
    exact h.entered a ha

theorem accept_frame (s : Channel) (event : StreamEvent) (rest : List StreamEvent) :
    (s.accept event rest).calls = s.calls ∧
      (s.accept event rest).handles = s.handles ∧
      (s.accept event rest).terminalClaimed = s.terminalClaimed ∧
      (s.accept event rest).holder = s.holder ∧
      (s.accept event rest).accepted = s.accepted := by
  unfold Channel.accept
  split <;> exact ⟨rfl, rfl, rfl, rfl, rfl⟩

/-- A step of the consumer leaves the producer side alone. -/
theorem consume_frame {s s' : Channel} {place : Consumer} {label : Label}
    (h : s.consume serde place label = some s') :
    s'.calls = s.calls ∧ s'.handles = s.handles ∧
      s'.terminalClaimed = s.terminalClaimed ∧ s'.holder = s.holder ∧
      s'.accepted = s.accepted := by
  unfold Channel.consume at h
  split at h
  · split at h
    · cases h
      exact ⟨rfl, rfl, rfl, rfl, rfl⟩
    · split at h <;> cases h
      · exact accept_frame s _ _
      · exact ⟨rfl, rfl, rfl, rfl, rfl⟩
      · exact ⟨rfl, rfl, rfl, rfl, rfl⟩
  · split at h
    · cases h
      exact ⟨rfl, rfl, rfl, rfl, rfl⟩
    · split at h <;> cases h
      · exact accept_frame s _ _
      · exact ⟨rfl, rfl, rfl, rfl, rfl⟩
      · exact ⟨rfl, rfl, rfl, rfl, rfl⟩
  · cases h
    exact ⟨rfl, rfl, rfl, rfl, rfl⟩
  · split at h <;> cases h
    · exact accept_frame s _ _
    · exact ⟨rfl, rfl, rfl, rfl, rfl⟩
  all_goals
    cases h
    try exact ⟨rfl, rfl, rfl, rfl, rfl⟩

theorem SenderInv.step {s s' : Channel} {label : Label}
    (h : SenderInv serde encode s) (hstep : s.step serde encode label = some s') :
    SenderInv serde encode s' := by
  by_cases hlabel : label.ofProducer = true
  · cases label with
    | clone handle =>
        simp only [Channel.step, Option.ite_none_right_eq_some, Option.some.injEq] at hstep
        obtain ⟨-, rfl⟩ := hstep
        refine ⟨fun i call hcall => ?_, h.claimed, h.single, h.entered⟩
        have hinv := h.calls i call hcall
        exact { hinv with
          live := fun hlive => by
            have halive := hinv.live hlive
            have hlt := (List.getElem?_eq_some_iff.1 halive).1
            show (s.handles ++ [true])[call.handle]? = some true
            rw [List.getElem?_append_left hlt]
            exact halive }
    | dropSender handle =>
        simp only [Channel.step, Option.ite_none_right_eq_some, Option.some.injEq,
          List.all_eq_true] at hstep
        obtain ⟨⟨-, hfree⟩, rfl⟩ := hstep
        refine ⟨fun i call hcall => ?_, h.claimed, h.single, h.entered⟩
        have hinv := h.calls i call hcall
        exact { hinv with
          live := fun hlive => by
            have hfree := hfree call (List.mem_of_getElem? hcall)
            rw [hlive] at hfree
            have hne : handle ≠ call.handle := by
              intro heq
              simp [heq] at hfree
            show (s.handles.set handle false)[call.handle]? = some true
            rw [List.getElem?_set_ne hne]
            exact hinv.live hlive }
    | send handle event =>
        simp only [Channel.step, Option.ite_none_right_eq_some, Option.some.injEq] at hstep
        obtain ⟨halive, rfl⟩ := hstep
        refine ⟨fun i call hcall => ?_, h.claimed, h.single, fun a ha => ?_⟩
        · rcases Nat.lt_or_ge i s.calls.length with hlt | hge
          · rw [List.getElem?_append_left hlt] at hcall
            exact { h.calls i call hcall with }
          · rw [List.getElem?_append_right hge, List.getElem?_singleton] at hcall
            split at hcall
            · cases hcall
              exact
                { live := fun _ => halive
                  locked := fun hlocked => by cases hlocked
                  ready := fun _ hready => by cases hready
                  entered := fun hreturned => by cases hreturned }
            · cases hcall
        · obtain ⟨call, hcall, hrest⟩ := h.entered a ha
          have hlt := (List.getElem?_eq_some_iff.1 hcall).1
          exact ⟨call, by rw [List.getElem?_append_left hlt]; exact hcall, hrest⟩
    | sendStep i =>
        obtain ⟨call, hcall, hstep⟩ := Option.bind_eq_some_iff.1 hstep
        exact h.sendStep hcall hstep
    | dropSend i =>
        obtain ⟨call, hcall, hstep⟩ := Option.bind_eq_some_iff.1 hstep
        exact h.dropSend hcall hstep
    | cancel =>
        cases hstep
        exact h.frame rfl rfl rfl rfl rfl
    | _ => cases hlabel
  · obtain ⟨hcalls, hhandles, hclaimed, hholder, haccepted⟩ :=
      consume_frame (step_consume (by simpa using hlabel) hstep)
    exact h.frame hcalls hhandles hclaimed hholder haccepted

/-! ## What the consumer sees of the producer side -/

/-- A step that leaves queue and log as they are. -/
theorem Produces.still {s s' : Channel} (hresults : s'.results = s.results)
    (hseen : s'.terminalSeen = s.terminalSeen) (hconsumer : s'.consumer = s.consumer)
    (hcancelled : s.cancelled = true → s'.cancelled = true)
    (hqueue : s'.queue = s.queue) (haccepted : s'.accepted = s.accepted)
    (hdead : s.Dead → s'.Dead) : Produces s s' where
  results := hresults
  terminalSeen := hseen
  consumer := hconsumer
  cancelled := hcancelled
  grows := by
    refine ⟨[], by rw [hqueue, List.append_nil], ?_, fun h => ⟨hdead h, rfl⟩⟩
    unfold Channel.events
    rw [haccepted, List.append_nil]

theorem produces_sendStep {s s' : Channel} {i : Nat} {call : Call}
    (h : SenderInv serde encode s) (found : s.calls[i]? = some call)
    (hstep : s.sendStep serde encode i call = some s') : Produces s s' := by
  unfold Channel.sendStep at hstep
  split at hstep
  · split at hstep <;> cases hstep
    exact .still rfl rfl rfl id rfl rfl id
  · split at hstep <;> cases hstep
    · exact .still rfl rfl rfl id rfl rfl id
    · exact .still rfl rfl rfl id rfl rfl id
  · split at hstep
    · cases hstep
      exact .still rfl rfl rfl id rfl rfl id
    · split at hstep <;> cases hstep
      exact .still rfl rfl rfl id rfl rfl id
  · rename_i event hstage
    cases hstep
    have halive : ¬ s.Dead := h.dead_not_inFlight found (by rw [hstage]; rfl)
    exact
      { results := rfl
        terminalSeen := rfl
        consumer := rfl
        cancelled := id
        grows := ⟨[event], rfl, List.map_append, fun hdead => absurd hdead halive⟩ }
  · cases hstep
  · cases hstep

theorem producer_step {s s' : Channel} {label : Label}
    (h : SenderInv serde encode s) (hlabel : label.ofProducer = true)
    (hstep : s.step serde encode label = some s') : Produces s s' := by
  cases label with
  | clone handle =>
      simp only [Channel.step, Option.ite_none_right_eq_some, Option.some.injEq] at hstep
      obtain ⟨halive, rfl⟩ := hstep
      refine .still rfl rfl rfl id rfl rfl fun hdead => ?_
      have hfalse := hdead true (List.mem_of_getElem? halive)
      cases hfalse
  | dropSender handle =>
      simp only [Channel.step, Option.ite_none_right_eq_some, Option.some.injEq] at hstep
      obtain ⟨-, rfl⟩ := hstep
      refine .still rfl rfl rfl id rfl rfl fun hdead alive hmem => ?_
      rcases List.mem_or_eq_of_mem_set hmem with hold | hnew
      · exact hdead alive hold
      · exact hnew
  | send handle event =>
      simp only [Channel.step, Option.ite_none_right_eq_some, Option.some.injEq] at hstep
      obtain ⟨-, rfl⟩ := hstep
      exact .still rfl rfl rfl id rfl rfl id
  | sendStep i =>
      obtain ⟨call, hcall, hstep⟩ := Option.bind_eq_some_iff.1 hstep
      exact produces_sendStep h hcall hstep
  | dropSend i =>
      obtain ⟨call, -, hstep⟩ := Option.bind_eq_some_iff.1 hstep
      unfold Channel.dropSend at hstep
      split at hstep <;> cases hstep
      · exact .still rfl rfl rfl id rfl rfl id
      · exact .still rfl rfl rfl id rfl rfl id
  | cancel =>
      cases hstep
      exact .still rfl rfl rfl (fun _ => rfl) rfl rfl id
  | _ => cases hlabel

end MCode.Provider.Stream
