import MCode.Validation.Decoder

/-!
# What a call of the decoder reducer does

`Change` lists, once, what one call can do to the reducer and what it answers:
one constructor for each outcome, with the guard under which it comes about.
The invariants of the modules that follow are proved by cases on it, without
another look at the entry points.
-/

namespace MCode.Validation

/-! ## Batches -/

namespace EventReducer

/-- An event changes what was seen, never the policy. -/
theorem reportedModels_applyEvent {s t : EventReducer} {event : NormalizedEvent}
    (h : s.applyEvent event = .ok t) : t.reportedModels = s.reportedModels := by
  cases event with
  | TextDelta | ReasoningDelta =>
      simp only [applyEvent, selectContent] at h
      grind
  | ReasoningProof =>
      simp only [applyEvent, acceptProof] at h
      grind [bind_eq_ok]
  | ToolCallStart =>
      simp only [applyEvent, startTool] at h
      grind
  | ToolArgumentsDelta =>
      simp only [applyEvent, appendToolDelta] at h
      grind [bind_eq_ok]
  | ToolCallEnd =>
      simp only [applyEvent, endTool] at h
      grind [bind_eq_ok]
  | Completed | Failed =>
      simp only [applyEvent] at h
      grind [bind_eq_ok]

theorem reportedModels_acceptEvent {s t : EventReducer} {event : NormalizedEvent}
    (h : s.acceptEvent event = .ok t) : t.reportedModels = s.reportedModels := by
  unfold acceptEvent at h
  simp only [bind_eq_ok] at h
  obtain ⟨charge, -, eventCharge, -, h⟩ := h
  split at h
  · cases h
  · have hmodels := reportedModels_applyEvent h
    exact hmodels

/-- What is published depends on the policy alone. -/
theorem published_congr {s t : EventReducer} (h : t.reportedModels = s.reportedModels)
    (event : NormalizedEvent) : t.published event = s.published event := by
  unfold published
  rw [h]

/-- The loop splits off the terminals. -/
theorem reduceEvents_ok {s t : EventReducer} {events : List NormalizedEvent}
    {batch result : EventBatch} (h : s.reduceEvents events batch = .ok (result, t)) :
    t.reportedModels = s.reportedModels ∧
      result.accepted = batch.accepted ++ events.filter (!isTerminal ·) ∧
      result.terminal =
        (((events.filter isTerminal).getLast?).map s.published).or batch.terminal := by
  induction events generalizing s batch with
  | nil =>
      cases h
      simp
  | cons event events ih =>
      simp only [reduceEvents, bind_eq_ok] at h
      obtain ⟨next, hnext, h⟩ := h
      have hmodels := reportedModels_acceptEvent hnext
      obtain ⟨hrest, haccepted, hterminal⟩ := ih h
      have hpublished : next.published = s.published :=
        funext (published_congr hmodels)
      refine ⟨hrest.trans hmodels, ?_, ?_⟩
      · rw [haccepted]
        by_cases hevent : isTerminal event = true
        · simp [hevent]
        · simp [hevent]
      · rw [hterminal, hpublished]
        by_cases hevent : isTerminal event = true
        · rw [if_pos hevent, List.filter_cons_of_pos hevent, List.getLast?_cons]
          cases (events.filter isTerminal).getLast? with
          | none => rfl
          | some last => rfl
        · rw [if_neg hevent, List.filter_cons_of_neg hevent]

/-- A terminal stands at the end of its batch, behind the last frame. -/
theorem validateTerminalPosition_concat (s : EventReducer)
    (first : List NormalizedEvent) (last : NormalizedEvent) (afterEnd : Bool) :
    s.validateTerminalPosition (first ++ [last]) afterEnd = .ok () ↔
      s.terminalSeen = false ∧ (∀ event ∈ first, isTerminal event = false) ∧
        (isTerminal last = true → afterEnd = true) := by
  unfold validateTerminalPosition
  rw [List.dropLast_concat]
  by_cases hfirst : first.any isTerminal = true
  · obtain ⟨event, hevent, hterminal⟩ := List.any_eq_true.1 hfirst
    have hnot : ¬ ∀ event ∈ first, isTerminal event = false := by
      intro hall
      rw [hall event hevent] at hterminal
      cases hterminal
    simp only [hfirst, hnot, if_true]
    grind
  · have hall : ∀ event ∈ first, isTerminal event = false := by
      simpa using hfirst
    have hcount : first.countP isTerminal = 0 :=
      List.countP_eq_zero.2 fun event hevent => by rw [hall event hevent]; nofun
    have hone : ¬ (first ++ [last]).countP isTerminal > 1 := by
      rw [List.countP_append, hcount, List.countP_singleton]
      split <;> omega
    have hany : (first ++ [last]).any isTerminal = isTerminal last := by
      rw [List.any_append, Bool.eq_false_iff.2 hfirst]
      simp
    rw [hany]
    simp only [hone, hfirst, if_false]
    grind

/-- What a batch that is accepted adds to the queue, and its terminal. -/
structure Accepted (s : EventReducer) (events : List NormalizedEvent) (limit : Nat)
    (afterEnd : Bool) (batch : EventBatch) : Prop where
  nonempty : events ≠ []
  length_le : events.length ≤ limit
  split : (batch.terminal = none ∧ batch.accepted = events ∧
      ∀ event ∈ events, isTerminal event = false) ∨
    ∃ first last, afterEnd = true ∧ events = first ++ [last] ∧
      isTerminal last = true ∧ (∀ event ∈ first, isTerminal event = false) ∧
      batch.terminal = some (s.published last) ∧ batch.accepted = first

theorem Accepted.accepted_le {s : EventReducer} {events : List NormalizedEvent}
    {limit : Nat} {afterEnd : Bool} {batch : EventBatch}
    (h : Accepted s events limit afterEnd batch) :
    batch.accepted.length ≤ limit := by
  have hle := h.length_le
  rcases h.split with ⟨-, heq, -⟩ | ⟨first, last, -, hsplit, -, -, -, heq⟩
  · rw [heq]
    exact hle
  · rw [hsplit, List.length_append] at hle
    rw [heq]
    omega

theorem reduceBatch_accepted {s t : EventReducer} {events : List NormalizedEvent}
    {limit : Nat} {afterEnd successful : Bool} {batch : EventBatch}
    (h : s.reduceBatch events limit afterEnd successful = .ok (batch, t)) :
    Accepted s events limit afterEnd batch ∧ t.reportedModels = s.reportedModels := by
  unfold reduceBatch at h
  rw [bind_eq_ok] at h
  obtain ⟨valid, hbatch, h⟩ := h
  rw [bind_eq_ok] at h
  obtain ⟨placed, hposition, h⟩ := h
  have hbounds : events ≠ [] ∧ events.length ≤ limit := by
    unfold validateEventBatch at hbatch
    rw [bind_eq_ok] at hbatch
    obtain ⟨limited, -, hbatch⟩ := hbatch
    grind
  split at h
  · -- a response that failed: its one event is the failure
    unfold reduceErrorBatch at h
    split at h
    · rename_i error
      split at h
      · cases h
      · rename_i hend
        simp only [bind_eq_ok] at h
        obtain ⟨count, -, h⟩ := h
        split at h
        · cases h
        · simp only [bind_eq_ok] at h
          obtain ⟨charge, -, eventCharge, -, h⟩ := h
          split at h
          · cases h
          · cases h
            refine ⟨⟨hbounds.1, hbounds.2, Or.inr ?_⟩, rfl⟩
            exact ⟨[], .Failed error, by simpa using hend, rfl, rfl, by simp, rfl, rfl⟩
    · cases h
  · simp only [bind_eq_ok] at h
    obtain ⟨length, -, count, -, h⟩ := h
    split at h
    · cases h
    · obtain ⟨hmodels, haccepted, hterminal⟩ := reduceEvents_ok h
      refine ⟨⟨hbounds.1, hbounds.2, ?_⟩, hmodels⟩
      obtain ⟨first, last, rfl⟩ : ∃ first last, events = first ++ [last] :=
        ⟨events.dropLast, events.getLast hbounds.1, (List.dropLast_concat_getLast hbounds.1).symm⟩
      obtain ⟨-, hfirst, hend⟩ :=
        (validateTerminalPosition_concat s first last afterEnd).1 hposition
      have hkept : first.filter (!isTerminal ·) = first :=
        List.filter_eq_self.2 fun event hevent => by rw [hfirst event hevent]; rfl
      have hdropped : first.filter isTerminal = [] :=
        List.filter_eq_nil_iff.2 fun event hevent => by rw [hfirst event hevent]; nofun
      rw [List.filter_append, hkept] at haccepted
      rw [List.filter_append, hdropped] at hterminal
      by_cases hlast : isTerminal last = true
      · refine Or.inr ⟨first, last, hend hlast, rfl, hlast, hfirst, ?_, ?_⟩
        · rw [hterminal]
          simp [hlast, published]
        · rw [haccepted]
          simp [hlast]
      · refine Or.inl ⟨?_, ?_, ?_⟩
        · rw [hterminal]
          simp [hlast]
        · rw [haccepted]
          simp [hlast]
        · intro event hevent
          rcases List.mem_append.1 hevent with hevent | hevent
          · exact hfirst event hevent
          · rw [List.mem_singleton.1 hevent]
            simpa using hlast

end EventReducer

namespace DecoderReducer

/-! ## Changes -/

/-- The closed reducer, with its record. -/
def closed (self : DecoderReducer) (receipt : CloseReceipt) : DecoderReducer :=
  (self.finishClose receipt []).2

/-- The calls that bring a receipt. -/
def Call.isReceipt : Call → Bool
  | .pullReceipt _ | .transportReceipt _ | .pushReceipt _ | .closeExternal _ => true
  | _ => false

/-- The states in which the guest is asked for events. -/
def DrainsGuest (self : DecoderReducer) : Prop :=
  self.state = .InitialPull ∨ self.state = .DrainingBody ∨
    self.state = .DrainingAfterEnd

/-- The states in which the guest waits for a frame. -/
def NeedsFrame (self : DecoderReducer) : Prop :=
  self.state = .NeedHead ∨ self.state = .NeedBody

/-- The states in which the guest may return events, before the last frame or
behind it. -/
def DrainsBody (self : DecoderReducer) (afterEnd : Bool) : Prop :=
  self.state = if afterEnd then .DrainingAfterEnd else .DrainingBody

/-- The reducer behind an accepted batch. -/
def enqueued (self : DecoderReducer) (events : EventReducer) (batch : EventBatch) :
    DecoderReducer :=
  { self with
    inFlight := none
    events := events
    queueLen := self.queueLen + batch.accepted.length
    awaitingConsumer := !batch.accepted.isEmpty }

/-- What one call does. -/
inductive Change (s : DecoderReducer) : Call → Answer → DecoderReducer → Prop
  | wait (queued : s.queueLen ≠ 0) : Change s .nextAction (.action .WaitForConsumer) s
  | await (outstanding : s.inFlight.isSome) :
      Change s .nextAction (.action .AwaitReceipt) s
  | push (frame : ResponseFrame) (opened : s.state ≠ .Closed) (idle : s.inFlight = none)
      (pending : s.pendingFrame = some frame) :
      Change s .nextAction (.action (.PushFrame frame))
        { s with inFlight := some .PushFrame }
  | pull (draining : s.DrainsGuest) (idle : s.inFlight = none)
      (unread : s.pendingFrame = none)
      (consumed : s.awaitingConsumer = true → s.queueLen = 0)
      (free : s.freeCapacity ≠ 0) (left : s.pulls < MAX_PULLS) :
      Change s .nextAction (.action (.Pull s.freeCapacity))
        { s with pulls := s.pulls + 1, inFlight := some (.Pull s.freeCapacity) }
  | exhaustedWait (opened : s.state ≠ .Closed) (queued : s.queueLen ≠ 0) :
      Change s .nextAction (.action .WaitForConsumer)
        (s.closed ⟨.Limit, some (.Failed .Limit)⟩)
  | exhausted (opened : s.state ≠ .Closed) (empty : s.queueLen = 0)
      (unpublished : s.terminalPublished = false) :
      Change s .nextAction (.action (.PublishTerminal (.Failed .Limit)))
        { s.closed ⟨.Limit, some (.Failed .Limit)⟩ with inFlight := some .PublishTerminal }
  | exhaustedClosed (opened : s.state ≠ .Closed) (published : s.terminalPublished = true) :
      Change s .nextAction (.action .Closed) (s.closed ⟨.Limit, some (.Failed .Limit)⟩)
  | read (needed : s.NeedsFrame) (idle : s.inFlight = none)
      (unread : s.pendingFrame = none) (empty : s.queueLen = 0) :
      Change s .nextAction (.action .ReadFrame) { s with inFlight := some .ReadFrame }
  | publish (terminal : NormalizedEvent) (isClosed : s.state = .Closed)
      (empty : s.queueLen = 0) (idle : s.inFlight = none)
      (unpublished : s.terminalPublished = false)
      (stored : s.close.bind (·.terminal) = some terminal) :
      Change s .nextAction (.action (.PublishTerminal terminal))
        { s with inFlight := some .PublishTerminal }
  | done (isClosed : s.state = .Closed) : Change s .nextAction (.action .Closed) s
  | stable (call : Call) (isReceipt : call.isReceipt = true)
      (isClosed : s.state = .Closed) :
      Change s call (.receipt ⟨[], s.close, false⟩) s
  | close (call : Call) (receipt : CloseReceipt) (isReceipt : call.isReceipt = true)
      (opened : s.state ≠ .Closed) (cause : receipt.cause ≠ .GuestTerminal) :
      Change s call (.receipt ⟨[], some receipt, true⟩) (s.closed receipt)
  | enqueue (events : List NormalizedEvent) (limit : Nat) (afterEnd : Bool)
      (batch : EventBatch) (next : EventReducer) (draining : s.DrainsBody afterEnd)
      (outstanding : s.inFlight = some (.Pull limit))
      (accepted : EventReducer.Accepted s.events events limit afterEnd batch)
      (models : next.reportedModels = s.events.reportedModels)
      (running : batch.terminal = none) :
      Change s (.pullReceipt (.ok (.Events events)))
        (.receipt ⟨batch.accepted, none, true⟩) (s.enqueued next batch)
  | finish (events : List NormalizedEvent) (limit : Nat) (afterEnd : Bool)
      (batch : EventBatch) (next : EventReducer) (terminal : NormalizedEvent)
      (draining : s.DrainsBody afterEnd) (outstanding : s.inFlight = some (.Pull limit))
      (accepted : EventReducer.Accepted s.events events limit afterEnd batch)
      (models : next.reportedModels = s.events.reportedModels)
      (ended : batch.terminal = some terminal) :
      Change s (.pullReceipt (.ok (.Events events)))
        (.receipt ⟨batch.accepted, some ⟨.GuestTerminal, some terminal⟩, true⟩)
        ((s.enqueued next batch).closed ⟨.GuestTerminal, some terminal⟩)
  | needHead (limit : Nat) (initial : s.state = .InitialPull)
      (outstanding : s.inFlight = some (.Pull limit)) :
      Change s (.pullReceipt (.ok .NeedFrame)) (.receipt transitioned)
        { s with inFlight := none, state := .NeedHead }
  | needBody (limit : Nat) (draining : s.state = .DrainingBody)
      (outstanding : s.inFlight = some (.Pull limit)) :
      Change s (.pullReceipt (.ok .NeedFrame)) (.receipt transitioned)
        { s with inFlight := none, state := .NeedBody }
  | frame (frame : ResponseFrame) (opened : s.state ≠ .Closed)
      (outstanding : s.inFlight = some .ReadFrame)
      (valid : s.validatePendingFrame frame = .ok ()) :
      Change s (.transportReceipt (.Frame frame)) (.receipt transitioned)
        { s with inFlight := none, pendingFrame := some frame }
  | pushedHead (head : ResponseHead) (needed : s.state = .NeedHead)
      (outstanding : s.inFlight = some .PushFrame)
      (pending : s.pendingFrame = some (.Head head)) :
      Change s (.pushReceipt (.ok ())) (.receipt transitioned)
        { s with
          inFlight := none
          pendingFrame := none
          status := some head.status
          state := .DrainingBody }
  | pushedData (data : List UInt8) (needed : s.state = .NeedBody)
      (outstanding : s.inFlight = some .PushFrame)
      (pending : s.pendingFrame = some (.Data data)) :
      Change s (.pushReceipt (.ok ())) (.receipt transitioned)
        { s with
          inFlight := none
          pendingFrame := none
          dataFrames := s.dataFrames + 1
          dataBytes := s.dataBytes + data.length
          state := .DrainingBody }
  | pushedEnd (needed : s.state = .NeedBody) (outstanding : s.inFlight = some .PushFrame)
      (pending : s.pendingFrame = some .End) :
      Change s (.pushReceipt (.ok ())) (.receipt transitioned)
        { s with inFlight := none, pendingFrame := none, state := .DrainingAfterEnd }
  | refuse (count : Nat) :
      Change s (.consumerReceipt count) (.result (.error .InvalidArgument)) s
  | consume (count : Nat) (positive : 0 < count) (queued : count ≤ s.queueLen) :
      Change s (.consumerReceipt count) (.result (.ok ()))
        { s with queueLen := s.queueLen - count, awaitingConsumer := false }
  | unpublished (t : DecoderReducer)
      (unchanged : t = s ∨ s.state = .Closed ∧ s.inFlight ≠ some .PublishTerminal ∧
        t = { s with inFlight := none }) :
      Change s .terminalPublished (.result (.error .InvalidArgument)) t
  | published (isClosed : s.state = .Closed) (unpublished : s.terminalPublished = false)
      (outstanding : s.inFlight = some .PublishTerminal) :
      Change s .terminalPublished (.result (.ok ()))
        { s with inFlight := none, terminalPublished := true }

/-- The four ends of `closed_action`. -/
theorem closedAction_cases (s : DecoderReducer) :
    (s.queueLen ≠ 0 ∧ s.closedAction = (.WaitForConsumer, s)) ∨
    (s.inFlight.isSome ∧ s.closedAction = (.AwaitReceipt, s)) ∨
    (s.queueLen = 0 ∧ s.inFlight = none ∧ s.terminalPublished = false ∧
      ∃ terminal, s.close.bind (·.terminal) = some terminal ∧
        s.closedAction =
          (.PublishTerminal terminal, { s with inFlight := some .PublishTerminal })) ∨
    ((s.terminalPublished = true ∨ s.close.bind (·.terminal) = none) ∧
      s.closedAction = (.Closed, s)) := by
  unfold closedAction
  split
  · rename_i hqueue
    exact Or.inl ⟨by simpa using hqueue, rfl⟩
  · rename_i hqueue
    split
    · rename_i houtstanding
      exact Or.inr (Or.inl ⟨houtstanding, rfl⟩)
    · rename_i hidle
      split
      · rename_i terminal hpublished hstored
        refine Or.inr (Or.inr (Or.inl ⟨by simpa using hqueue, by simpa using hidle, hpublished,
          terminal, hstored, rfl⟩))
      · rename_i hnot
        refine Or.inr (Or.inr (Or.inr ⟨?_, rfl⟩))
        cases hpublished : s.terminalPublished with
        | true => exact Or.inl rfl
        | false =>
            cases hstored : s.close.bind (·.terminal) with
            | none => exact Or.inr rfl
            | some terminal => exact absurd hstored (hnot terminal hpublished)

/-- What `next_action` does once closed. -/
theorem closedAction_change {s : DecoderReducer} (h : s.state = .Closed) :
    Change s .nextAction (.action s.closedAction.1) s.closedAction.2 := by
  rcases s.closedAction_cases with ⟨hqueue, heq⟩ | ⟨houtstanding, heq⟩ |
    ⟨hqueue, hidle, hpublished, terminal, hstored, heq⟩ | ⟨-, heq⟩
  · rw [heq]
    exact .wait hqueue
  · rw [heq]
    exact .await houtstanding
  · rw [heq]
    exact .publish terminal h hqueue hidle hpublished hstored
  · rw [heq]
    exact .done h

/-- A pull, unless the queue is full or the pulls are used up. -/
theorem beginPull_change {s : DecoderReducer} (hdraining : s.DrainsGuest)
    (hidle : s.inFlight = none) (hunread : s.pendingFrame = none)
    (hconsumed : s.awaitingConsumer = true → s.queueLen = 0) :
    Change s .nextAction (.action s.beginPull.1) s.beginPull.2 := by
  have hopen : s.state ≠ .Closed := by
    rcases hdraining with h | h | h <;> rw [h] <;> nofun
  unfold beginPull
  by_cases hfree : s.freeCapacity = 0
  · have hqueue : s.queueLen ≠ 0 := by
      unfold freeCapacity QUEUE_CAPACITY at hfree
      omega
    simp only [hfree]
    exact .wait hqueue
  · have hne : (s.freeCapacity == 0) = false := by simpa using hfree
    by_cases hleft : s.pulls < MAX_PULLS
    · have hnot : ¬ s.pulls ≥ MAX_PULLS := by omega
      simp only [hne, hnot, if_false, Bool.false_eq_true]
      exact .pull hdraining hidle hunread hconsumed hfree hleft
    · have hover : s.pulls ≥ MAX_PULLS := by omega
      simp only [hne, hover, if_true, if_false, Bool.false_eq_true]
      rcases (s.closeSynthesized .Limit .Limit).2.closedAction_cases with
        ⟨hqueue, heq⟩ | ⟨houtstanding, -⟩ |
        ⟨hqueue, -, hpublished, terminal, hstored, heq⟩ | ⟨hpublished, heq⟩
      · rw [heq]
        exact .exhaustedWait hopen hqueue
      · cases houtstanding
      · rw [heq]
        cases hstored
        exact .exhausted hopen hqueue hpublished
      · rw [heq]
        rcases hpublished with hpublished | hnone
        · exact .exhaustedClosed hopen hpublished
        · cases hnone

theorem nextAction_change (s : DecoderReducer) :
    Change s .nextAction (.action s.nextAction.1) s.nextAction.2 := by
  unfold nextAction
  by_cases hclosed : s.state = .Closed
  · simp only [hclosed, beq_self_eq_true, if_true]
    exact closedAction_change hclosed
  · have hopen : (s.state == .Closed) = false := by simpa using hclosed
    simp only [hopen, Bool.false_eq_true, if_false]
    split
    · rename_i hawaiting
      simp only [Bool.and_eq_true, bne_iff_ne] at hawaiting
      exact .wait hawaiting.2
    · rename_i hawaiting
      have hconsumed : s.awaitingConsumer = true → s.queueLen = 0 := by
        simpa using hawaiting
      split
      · rename_i houtstanding
        exact .await houtstanding
      · rename_i hidle
        rw [Bool.not_eq_true, Option.isSome_eq_false_iff, Option.isNone_iff_eq_none] at hidle
        split
        · rename_i frame hpending
          split
          · rename_i hfull
            refine .wait ?_
            unfold freeCapacity QUEUE_CAPACITY at hfull
            simp only [beq_iff_eq] at hfull
            omega
          · exact .push frame hclosed hidle hpending
        · rename_i hpending
          have hread (hneeded : s.NeedsFrame) :
              Change s .nextAction
                (.action (if s.queueLen != 0 || s.freeCapacity == 0 then
                  (DecoderAction.WaitForConsumer, s)
                else (.ReadFrame, { s with inFlight := some .ReadFrame })).1)
                (if s.queueLen != 0 || s.freeCapacity == 0 then
                  (DecoderAction.WaitForConsumer, s)
                else (.ReadFrame, { s with inFlight := some .ReadFrame })).2 := by
            split
            · rename_i hqueued
              refine .wait ?_
              unfold freeCapacity QUEUE_CAPACITY at hqueued
              simp only [Bool.or_eq_true, bne_iff_ne, beq_iff_eq] at hqueued
              omega
            · rename_i hqueued
              simp only [Bool.or_eq_true, bne_iff_ne, not_or, not_not] at hqueued
              exact .read hneeded hidle hpending hqueued.1
          split
          · rename_i hstate
            exact beginPull_change (Or.inl hstate) hidle hpending hconsumed
          · rename_i hstate
            exact beginPull_change (Or.inr (Or.inl hstate)) hidle hpending hconsumed
          · rename_i hstate
            exact beginPull_change (Or.inr (Or.inr hstate)) hidle hpending hconsumed
          · rename_i hstate
            exact hread (Or.inl hstate)
          · rename_i hstate
            exact hread (Or.inr hstate)
          · rename_i hstate
            exact absurd hstate hclosed

/-! ## Receipts -/

theorem stable_change {s : DecoderReducer} {call : Call} (hreceipt : call.isReceipt = true)
    (h : s.state = .Closed) :
    Change s call (.receipt s.stableClosedReceipt.1) s.stableClosedReceipt.2 :=
  .stable call hreceipt h

/-- Closing forgets what a receipt has taken. -/
theorem validationClose_change {s : DecoderReducer} {call : Call}
    (hreceipt : call.isReceipt = true) (hopen : s.state ≠ .Closed)
    (error : ValidationError) :
    Change s call (.receipt ({ s with inFlight := none }.validationClose error).1)
      ({ s with inFlight := none }.validationClose error).2 := by
  cases error with
  | InvalidArgument => exact .close call _ hreceipt hopen nofun
  | Limit => exact .close call _ hreceipt hopen nofun

theorem acceptEvents_change {s : DecoderReducer} {limit : Nat} {afterEnd : Bool}
    (events : List NormalizedEvent) (hdraining : s.DrainsBody afterEnd)
    (houtstanding : s.inFlight = some (.Pull limit)) :
    Change s (.pullReceipt (.ok (.Events events)))
      (.receipt ({ s with inFlight := none }.acceptEvents events limit afterEnd).1)
      ({ s with inFlight := none }.acceptEvents events limit afterEnd).2 := by
  have hopen : s.state ≠ .Closed := by
    unfold DrainsBody at hdraining
    rw [hdraining]
    cases afterEnd <;> nofun
  unfold acceptEvents
  split
  · exact validationClose_change rfl hopen _
  · rename_i batch next hreduced
    obtain ⟨haccepted, hmodels⟩ := EventReducer.reduceBatch_accepted hreduced
    unfold enqueueAndMaybeClose
    dsimp only
    split
    · rename_i terminal hterminal
      exact .finish events limit afterEnd batch next terminal hdraining houtstanding
        haccepted hmodels hterminal
    · rename_i hterminal
      exact .enqueue events limit afterEnd batch next hdraining houtstanding haccepted
        hmodels hterminal

theorem pullReceipt_change (s : DecoderReducer) (result : Except ProviderError DecoderPull) :
    Change s (.pullReceipt result) (.receipt (s.pullReceipt result).1)
      (s.pullReceipt result).2 := by
  unfold pullReceipt
  split
  · rename_i hclosed
    exact stable_change rfl (by simpa using hclosed)
  · rename_i hclosed
    have hopen : s.state ≠ .Closed := by simpa using hclosed
    dsimp only
    split
    · rename_i limit houtstanding
      split
      · exact .close _ _ rfl hopen nofun
      · split
        · rename_i hstate
          exact .needHead limit hstate houtstanding
        · rename_i hstate
          exact .needBody limit hstate houtstanding
        · rename_i events hstate
          exact acceptEvents_change events hstate houtstanding
        · rename_i events hstate
          exact acceptEvents_change events hstate houtstanding
        · exact .close _ _ rfl hopen nofun
    · exact .close _ _ rfl hopen nofun

theorem transportReceipt_change (s : DecoderReducer) (receipt : TransportReceipt) :
    Change s (.transportReceipt receipt) (.receipt (s.transportReceipt receipt).1)
      (s.transportReceipt receipt).2 := by
  unfold transportReceipt
  split
  · rename_i hclosed
    exact stable_change rfl (by simpa using hclosed)
  · rename_i hclosed
    have hopen : s.state ≠ .Closed := by simpa using hclosed
    dsimp only
    split
    · exact .close _ _ rfl hopen nofun
    · rename_i houtstanding
      split
      · exact .close _ _ rfl hopen nofun
      · exact .close _ _ rfl hopen nofun
      · split
        · exact validationClose_change rfl hopen _
        · rename_i hvalid
          exact .frame _ hopen (by simpa using houtstanding) hvalid

theorem pushReceipt_change (s : DecoderReducer) (result : Except ProviderError Unit) :
    Change s (.pushReceipt result) (.receipt (s.pushReceipt result).1)
      (s.pushReceipt result).2 := by
  unfold pushReceipt
  split
  · rename_i hclosed
    exact stable_change rfl (by simpa using hclosed)
  · rename_i hclosed
    have hopen : s.state ≠ .Closed := by simpa using hclosed
    dsimp only
    split
    · exact .close _ _ rfl hopen nofun
    · rename_i houtstanding
      have hpush : s.inFlight = some .PushFrame := by simpa using houtstanding
      split
      · exact .close _ _ rfl hopen nofun
      · rename_i frame hpending
        split
        · exact .close _ _ rfl hopen nofun
        · split
          · rename_i head hstate
            exact .pushedHead head hstate hpush hpending
          · rename_i data hstate
            exact .pushedData data hstate hpush hpending
          · rename_i hstate
            exact .pushedEnd hstate hpush hpending
          · exact .close _ _ rfl hopen nofun

theorem consumerReceipt_change (s : DecoderReducer) (count : Nat) :
    Change s (.consumerReceipt count) (.result (s.consumerReceipt count).1)
      (s.consumerReceipt count).2 := by
  unfold consumerReceipt
  split
  · exact .refuse count
  · rename_i hcount
    simp only [Bool.or_eq_true, beq_iff_eq, decide_eq_true_eq, not_or] at hcount
    exact .consume count (by omega) (by omega)

theorem terminalPublished_change (s : DecoderReducer) :
    Change s .terminalPublished (.result s.terminalPublishedReceipt.1)
      s.terminalPublishedReceipt.2 := by
  unfold terminalPublishedReceipt
  split
  · exact .unpublished s (Or.inl rfl)
  · rename_i hready
    simp only [Bool.or_eq_true, bne_iff_ne, not_or, not_not, Bool.not_eq_true] at hready
    dsimp only
    split
    · rename_i hflight
      exact .unpublished _ (Or.inr ⟨hready.1.1.1, by simpa using hflight, rfl⟩)
    · rename_i hflight
      exact .published hready.1.1.1 hready.1.2 (by simpa using hflight)

/-- Every call is one of the changes. -/
theorem call_change (s : DecoderReducer) (c : Call) :
    Change s c (s.call c).1 (s.call c).2 := by
  cases c with
  | nextAction => exact s.nextAction_change
  | pullReceipt result => exact s.pullReceipt_change result
  | transportReceipt receipt => exact s.transportReceipt_change receipt
  | pushReceipt result => exact s.pushReceipt_change result
  | consumerReceipt count => exact s.consumerReceipt_change count
  | terminalPublished => exact s.terminalPublished_change
  | closeExternal cause =>
      show Change s _ (.receipt (s.closeExternal cause).1) (s.closeExternal cause).2
      unfold closeExternal
      split
      · rename_i hclosed
        exact stable_change rfl (by simpa using hclosed)
      · rename_i hclosed
        exact .close _ _ rfl (by simpa using hclosed) (by cases cause <;> nofun)

end DecoderReducer

end MCode.Validation
