import MCode.Validation.Protocol

/-!
# A decoder closes once

Over every sequence of calls: one transition into `Closed` is reported at
most, the record of the close never changes, a closed reducer asks for nothing
more and accepts no event, and its terminal is published once, after the queue
is empty.
-/

namespace MCode.Validation.Closing

open MCode.Lib
open MCode.Validation
open MCode.Validation.DecoderReducer

/-- The answer reports the transition into `Closed`. -/
def closes (entry : Entry) : Bool :=
  match entry.2 with
  | .receipt receipt => receipt.transitioned && receipt.close.isSome
  | _ => false

/-- The terminal is handed out. -/
def publishes (entry : Entry) : Bool :=
  match entry.2 with
  | .action (.PublishTerminal _) => true
  | _ => false

/-- The publication of the terminal is confirmed. -/
def confirms (entry : Entry) : Bool :=
  match entry with
  | (.terminalPublished, .result (.ok _)) => true
  | _ => false

/-- The answer asks the guest or the transport for something. -/
def asks (entry : Entry) : Bool :=
  match entry.2 with
  | .action (.Pull _) | .action .ReadFrame | .action (.PushFrame _) => true
  | _ => false

/-- The events that a receipt adds to the queue. -/
def added (entry : Entry) : List NormalizedEvent :=
  match entry.2 with
  | .receipt receipt => receipt.acceptedEvents
  | _ => []

/-- `terminal` is the last of the events that the guest returned, without a
model that the policy does not report. -/
def StoredFrom (policy : DecoderPolicy) (events : List NormalizedEvent)
    (terminal : NormalizedEvent) : Prop :=
  ∃ first last, events = first ++ [last] ∧ isTerminal last = true ∧
    terminal = (EventReducer.new policy).published last

/-- The record of a close by the terminal that the call brought. -/
def Stored (policy : DecoderPolicy) (call : Call) (record : CloseReceipt) : Prop :=
  ∃ events terminal, call = .pullReceipt (.ok (.Events events)) ∧
    record.terminal = some terminal ∧ StoredFrom policy events terminal

/-- What holds of a reducer behind any log. -/
structure Invariant (policy : DecoderPolicy) (log : List Entry) (s : DecoderReducer) :
    Prop where
  models : s.events.reportedModels = policy.reportedModels
  opened : s.state ≠ .Closed → log.countP closes = 0 ∧ s.close = none ∧
    s.terminalPublished = false ∧ s.inFlight ≠ some .PublishTerminal
  reported : log.countP closes ≤ 1
  closed : s.state = .Closed → s.inFlight = none ∨ s.inFlight = some .PublishTerminal
  announced : log.countP publishes =
    if s.terminalPublished || s.inFlight == some .PublishTerminal then 1 else 0
  confirmed : log.countP confirms = if s.terminalPublished then 1 else 0
  published : s.terminalPublished = true → s.inFlight = none
  recorded : ∀ call receipt, (call, .receipt receipt) ∈ log →
    receipt.transitioned = true → receipt.close.isSome = true → s.close = receipt.close
  stored : ∀ call receipt record, (call, .receipt receipt) ∈ log →
    receipt.transitioned = true → receipt.close = some record →
    record.cause = .GuestTerminal → Stored policy call record

theorem invariant_new (policy : DecoderPolicy) :
    Invariant policy [] (DecoderReducer.new policy) where
  models := rfl
  opened := fun _ => ⟨rfl, rfl, rfl, by simp [DecoderReducer.new]⟩
  reported := Nat.zero_le 1
  closed := by simp [DecoderReducer.new]
  announced := by simp [DecoderReducer.new]
  confirmed := by simp [DecoderReducer.new]
  published := by simp [DecoderReducer.new]
  recorded := by simp
  stored := by simp

/-- A change that neither closes nor publishes: what the invariant looks at
stays as it is. -/
structure Quiet (s t : DecoderReducer) (entry : Entry) : Prop where
  models : t.events.reportedModels = s.events.reportedModels
  state : t.state = .Closed ↔ s.state = .Closed
  close : t.close = s.close
  published : t.terminalPublished = s.terminalPublished
  flight : t.inFlight = some .PublishTerminal ↔ s.inFlight = some .PublishTerminal
  closedFlight : t.state = .Closed → t.inFlight = none ∨ t.inFlight = some .PublishTerminal
  notCloses : closes entry = false
  notPublishes : publishes entry = false
  notConfirms : confirms entry = false

theorem not_transition {call : Call} {receipt : DecoderReceipt}
    (h : closes (call, .receipt receipt) = false) (htransitioned : receipt.transitioned = true)
    (hclose : receipt.close.isSome = true) : False := by
  simp [closes, htransitioned, hclose] at h

theorem Invariant.quiet {policy : DecoderPolicy} {log : List Entry}
    {s t : DecoderReducer} {entry : Entry} (h : Invariant policy log s)
    (hq : Quiet s t entry) : Invariant policy (log ++ [entry]) t := by
  have hcloses : (log ++ [entry]).countP closes = log.countP closes := by
    simp [hq.notCloses]
  have hpublishes : (log ++ [entry]).countP publishes = log.countP publishes := by
    simp [hq.notPublishes]
  have hconfirms : (log ++ [entry]).countP confirms = log.countP confirms := by
    simp [hq.notConfirms]
  have hflight : (t.inFlight == some .PublishTerminal) =
      (s.inFlight == some .PublishTerminal) := by
    rw [Bool.eq_iff_iff, beq_iff_eq, beq_iff_eq]
    exact hq.flight
  refine ⟨hq.models.trans h.models, fun hopen => ?_, ?_, hq.closedFlight, ?_, ?_,
    fun hpublished => ?_, fun call receipt hmem htransitioned hclose => ?_,
    fun call receipt record hmem htransitioned hclose hcause => ?_⟩
  · obtain ⟨hcount, hclose, hpublished, hidle⟩ := h.opened (fun hc => hopen (hq.state.2 hc))
    exact ⟨hcloses.trans hcount, hq.close.trans hclose, hq.published.trans hpublished,
      fun hflying => hidle (hq.flight.1 hflying)⟩
  · rw [hcloses]
    exact h.reported
  · rw [hpublishes, hq.published, hflight]
    exact h.announced
  · rw [hconfirms, hq.published]
    exact h.confirmed
  · rw [hq.published] at hpublished
    have hidle := h.published hpublished
    have hclosed : s.state = .Closed := by
      by_contra hopen
      rw [(h.opened hopen).2.2.1] at hpublished
      cases hpublished
    rcases hq.closedFlight (hq.state.2 hclosed) with hnone | hflying
    · exact hnone
    · rw [hq.flight, hidle] at hflying
      cases hflying
  · rcases List.mem_append.1 hmem with hmem | hmem
    · exact hq.close.trans (h.recorded call receipt hmem htransitioned hclose)
    · have hentry := hq.notCloses
      rw [← List.mem_singleton.1 hmem] at hentry
      exact (not_transition hentry htransitioned hclose).elim
  · rcases List.mem_append.1 hmem with hmem | hmem
    · exact h.stored call receipt record hmem htransitioned hclose hcause
    · have hentry := hq.notCloses
      rw [← List.mem_singleton.1 hmem] at hentry
      exact (not_transition hentry htransitioned (by rw [hclose]; rfl)).elim

/-- A change that closes, reported or not; `announced` is the terminal that is
handed out at once. -/
structure Closes (s t : DecoderReducer) (entry : Entry) : Prop where
  opened : s.state ≠ .Closed
  models : t.events.reportedModels = s.events.reportedModels
  state : t.state = .Closed
  published : t.terminalPublished = s.terminalPublished
  flight : t.inFlight = none ∧ publishes entry = false ∨
    t.inFlight = some .PublishTerminal ∧ publishes entry = true
  notConfirms : confirms entry = false
  recorded : ∀ call receipt, entry = (call, .receipt receipt) → t.close = receipt.close

theorem Invariant.closing {policy : DecoderPolicy} {log : List Entry}
    {s t : DecoderReducer} {entry : Entry} (h : Invariant policy log s)
    (hc : Closes s t entry)
    (hstored : ∀ call receipt record, entry = (call, .receipt receipt) →
      receipt.close = some record → record.cause = .GuestTerminal →
      Stored policy call record) :
    Invariant policy (log ++ [entry]) t := by
  obtain ⟨hcount, hnone, hunpublished, hidle⟩ := h.opened hc.opened
  have hpublished : t.terminalPublished = false := hc.published.trans hunpublished
  have hannounced : log.countP publishes = 0 := by
    have hlog := h.announced
    simpa [hunpublished, hidle] using hlog
  have hquiet : ∀ call receipt, (call, .receipt receipt) ∈ log →
      receipt.transitioned = true → receipt.close.isSome = true → False := by
    intro call receipt hmem htransitioned hclose
    have hno := List.countP_eq_zero.1 hcount _ hmem
    exact not_transition (by simpa using hno) htransitioned hclose
  refine ⟨hc.models.trans h.models, fun hopen => absurd hc.state hopen, ?_, fun _ => ?_, ?_, ?_,
    fun hyes => ?_, fun call receipt hmem htransitioned hclose => ?_,
    fun call receipt record hmem htransitioned hclose hcause => ?_⟩
  · rw [List.countP_append, hcount, List.countP_singleton]
    split <;> omega
  · rcases hc.flight with ⟨hflight, -⟩ | ⟨hflight, -⟩
    · exact Or.inl hflight
    · exact Or.inr hflight
  · rw [List.countP_append, hannounced, List.countP_singleton, hpublished]
    rcases hc.flight with ⟨hflight, hentry⟩ | ⟨hflight, hentry⟩
    · simp [hflight, hentry]
    · simp [hflight, hentry]
  · rw [List.countP_append, h.confirmed, List.countP_singleton, hc.notConfirms, hpublished,
      hunpublished]
    rfl
  · rw [hpublished] at hyes
    cases hyes
  · rcases List.mem_append.1 hmem with hmem | hmem
    · exact (hquiet call receipt hmem htransitioned hclose).elim
    · exact hc.recorded call receipt (List.mem_singleton.1 hmem).symm
  · rcases List.mem_append.1 hmem with hmem | hmem
    · exact (hquiet _ receipt hmem htransitioned (by rw [hclose]; rfl)).elim
    · exact hstored call receipt record (List.mem_singleton.1 hmem).symm hclose hcause

/-- An action closes without a receipt. -/
theorem Invariant.closing_action {policy : DecoderPolicy} {log : List Entry}
    {s t : DecoderReducer} {action : DecoderAction} (h : Invariant policy log s)
    (opened : s.state ≠ .Closed)
    (models : t.events.reportedModels = s.events.reportedModels) (state : t.state = .Closed)
    (published : t.terminalPublished = s.terminalPublished)
    (flight : t.inFlight = none ∧ publishes (.nextAction, .action action) = false ∨
      t.inFlight = some .PublishTerminal ∧ publishes (.nextAction, .action action) = true) :
    Invariant policy (log ++ [(.nextAction, .action action)]) t := by
  refine h.closing ⟨opened, models, state, published, flight, rfl, ?_⟩ ?_
  · intro call receipt heq
    cases heq
  · intro call receipt record heq
    cases heq

/-- A change of an open reducer that leaves it open. -/
theorem quiet_open {s t : DecoderReducer} {entry : Entry} (hopen : s.state ≠ .Closed)
    (hs : s.inFlight ≠ some .PublishTerminal) (hstate : t.state ≠ .Closed)
    (ht : t.inFlight ≠ some .PublishTerminal)
    (hmodels : t.events.reportedModels = s.events.reportedModels)
    (hclose : t.close = s.close) (hpublished : t.terminalPublished = s.terminalPublished)
    (hentry : closes entry = false ∧ publishes entry = false ∧ confirms entry = false) :
    Quiet s t entry where
  models := hmodels
  state := ⟨fun hc => absurd hc hstate, fun hc => absurd hc hopen⟩
  close := hclose
  published := hpublished
  flight := ⟨fun hf => absurd hf ht, fun hf => absurd hf hs⟩
  closedFlight := fun hc => absurd hc hstate
  notCloses := hentry.1
  notPublishes := hentry.2.1
  notConfirms := hentry.2.2

/-- An answer that changes nothing. -/
theorem quiet_same {policy : DecoderPolicy} {log : List Entry} {s : DecoderReducer}
    {entry : Entry} (h : Invariant policy log s)
    (hentry : closes entry = false ∧ publishes entry = false ∧ confirms entry = false) :
    Quiet s s entry where
  models := rfl
  state := Iff.rfl
  close := rfl
  published := rfl
  flight := Iff.rfl
  closedFlight := h.closed
  notCloses := hentry.1
  notPublishes := hentry.2.1
  notConfirms := hentry.2.2

theorem drainsGuest_open {s : DecoderReducer} (h : s.DrainsGuest) : s.state ≠ .Closed := by
  rcases h with h | h | h <;> rw [h] <;> nofun

theorem needsFrame_open {s : DecoderReducer} (h : s.NeedsFrame) : s.state ≠ .Closed := by
  rcases h with h | h <;> rw [h] <;> nofun

theorem drainsBody_open {s : DecoderReducer} {afterEnd : Bool} (h : s.DrainsBody afterEnd) :
    s.state ≠ .Closed := by
  unfold DrainsBody at h
  rw [h]
  cases afterEnd <;> nofun

theorem open_of_outstanding {policy : DecoderPolicy} {log : List Entry}
    {s : DecoderReducer} {flight : InFlight} (h : Invariant policy log s)
    (hflight : s.inFlight = some flight) (hne : flight ≠ .PublishTerminal) :
    s.state ≠ .Closed := by
  intro hclosed
  rcases h.closed hclosed with hnone | hpublish
  · rw [hnone] at hflight
    cases hflight
  · rw [hpublish] at hflight
    exact hne (Option.some.inj hflight).symm

theorem Invariant.step {policy : DecoderPolicy} {log : List Entry} {s t : DecoderReducer}
    {c : Call} {answer : Answer} (h : Invariant policy log s) (hc : Change s c answer t) :
    Invariant policy (log ++ [(c, answer)]) t := by
  cases hc with
  | wait queued => exact h.quiet (quiet_same h ⟨rfl, rfl, rfl⟩)
  | await outstanding => exact h.quiet (quiet_same h ⟨rfl, rfl, rfl⟩)
  | done isClosed => exact h.quiet (quiet_same h ⟨rfl, rfl, rfl⟩)
  | refuse count => exact h.quiet (quiet_same h ⟨rfl, rfl, rfl⟩)
  | stable call isReceipt isClosed =>
      exact h.quiet (quiet_same h ⟨by simp [closes], by simp [publishes], by
        cases c <;> rfl⟩)
  | push frame opened idle pending =>
      refine h.quiet (quiet_open opened ?_ opened ?_ rfl rfl rfl ⟨rfl, rfl, rfl⟩)
      · rw [idle]
        nofun
      · nofun
  | pull draining idle unread consumed free left =>
      have opened := drainsGuest_open draining
      refine h.quiet (quiet_open opened ?_ opened ?_ rfl rfl rfl ⟨rfl, rfl, rfl⟩)
      · rw [idle]
        nofun
      · nofun
  | read needed idle unread empty =>
      have opened := needsFrame_open needed
      refine h.quiet (quiet_open opened ?_ opened ?_ rfl rfl rfl ⟨rfl, rfl, rfl⟩)
      · rw [idle]
        nofun
      · nofun
  | enqueue events limit afterEnd batch next draining outstanding accepted models running =>
      have opened := drainsBody_open draining
      refine h.quiet (quiet_open opened ?_ opened ?_ models rfl rfl ⟨rfl, rfl, rfl⟩)
      · rw [outstanding]
        nofun
      · nofun
  | needHead limit initial outstanding =>
      have opened := open_of_outstanding h outstanding (by nofun)
      refine h.quiet (quiet_open opened ?_ ?_ ?_ rfl rfl rfl ⟨rfl, rfl, rfl⟩)
      · rw [outstanding]
        nofun
      · nofun
      · nofun
  | needBody limit draining outstanding =>
      have opened := open_of_outstanding h outstanding (by nofun)
      refine h.quiet (quiet_open opened ?_ ?_ ?_ rfl rfl rfl ⟨rfl, rfl, rfl⟩)
      · rw [outstanding]
        nofun
      · nofun
      · nofun
  | frame frame opened outstanding valid =>
      refine h.quiet (quiet_open opened ?_ opened ?_ rfl rfl rfl ⟨rfl, rfl, rfl⟩)
      · rw [outstanding]
        nofun
      · nofun
  | pushedHead head needed outstanding pending =>
      have opened := open_of_outstanding h outstanding (by nofun)
      refine h.quiet (quiet_open opened ?_ ?_ ?_ rfl rfl rfl ⟨rfl, rfl, rfl⟩)
      · rw [outstanding]
        nofun
      · nofun
      · nofun
  | pushedData data needed outstanding pending =>
      have opened := open_of_outstanding h outstanding (by nofun)
      refine h.quiet (quiet_open opened ?_ ?_ ?_ rfl rfl rfl ⟨rfl, rfl, rfl⟩)
      · rw [outstanding]
        nofun
      · nofun
      · nofun
  | pushedEnd needed outstanding pending =>
      have opened := open_of_outstanding h outstanding (by nofun)
      refine h.quiet (quiet_open opened ?_ ?_ ?_ rfl rfl rfl ⟨rfl, rfl, rfl⟩)
      · rw [outstanding]
        nofun
      · nofun
      · nofun
  | consume count positive queued =>
      exact h.quiet ⟨rfl, Iff.rfl, rfl, rfl, Iff.rfl, h.closed, rfl, rfl, rfl⟩
  | unpublished t unchanged =>
      rcases unchanged with rfl | ⟨isClosed, idle, rfl⟩
      · exact h.quiet (quiet_same h ⟨rfl, rfl, rfl⟩)
      · refine h.quiet ⟨rfl, Iff.rfl, rfl, rfl, ⟨nofun, fun hf => absurd hf idle⟩,
          fun _ => Or.inl rfl, rfl, rfl, rfl⟩
  | exhaustedWait opened queued =>
      exact h.closing_action opened rfl rfl rfl (Or.inl ⟨rfl, rfl⟩)
  | exhausted opened empty unpublished =>
      exact h.closing_action opened rfl rfl rfl (Or.inr ⟨rfl, rfl⟩)
  | exhaustedClosed opened published =>
      exact h.closing_action opened rfl rfl rfl (Or.inl ⟨rfl, rfl⟩)
  | close call receipt isReceipt opened cause =>
      refine h.closing ⟨opened, rfl, rfl, rfl, Or.inl ⟨rfl, rfl⟩, ?_, ?_⟩ ?_
      · cases c <;> rfl
      · intro call other heq
        cases heq
        rfl
      · intro call other record heq hclose hcause
        cases heq
        cases hclose
        exact absurd hcause cause
  | finish events limit afterEnd batch next terminal draining outstanding accepted models
      ended =>
      refine h.closing ⟨drainsBody_open draining, models, rfl, rfl, Or.inl ⟨rfl, rfl⟩, rfl, ?_⟩ ?_
      · intro call other heq
        cases heq
        rfl
      · intro call receipt record heq hclose hcause
        cases heq
        cases hclose
        rcases accepted.split with ⟨hnone, -⟩ | ⟨first, last, -, hsplit, hlast, -, hterminal, -⟩
        · rw [hnone] at ended
          cases ended
        · refine ⟨events, terminal, rfl, rfl, first, last, hsplit, hlast, ?_⟩
          rw [hterminal] at ended
          rw [← Option.some.inj ended]
          exact EventReducer.published_congr (s := EventReducer.new policy) h.models last
  | publish terminal isClosed empty idle unpublished stored =>
      have hflight : ¬ (s.inFlight == some .PublishTerminal) = true := by
        rw [idle]
        nofun
      have hannounced := h.announced
      rw [unpublished, Bool.eq_false_iff.2 hflight] at hannounced
      refine ⟨h.models, fun hopen => absurd isClosed hopen, ?_, fun _ => Or.inr rfl, ?_, ?_, ?_,
        fun call receipt hmem => ?_, fun call receipt record hmem => ?_⟩
      · rw [List.countP_append]
        exact h.reported
      · rw [List.countP_append, hannounced]
        simp [publishes]
      · rw [List.countP_append, h.confirmed]
        rfl
      · intro hyes
        exact absurd hyes (by simp [unpublished])
      · rcases List.mem_append.1 hmem with hmem | hmem
        · exact h.recorded call receipt hmem
        · cases List.mem_singleton.1 hmem
      · rcases List.mem_append.1 hmem with hmem | hmem
        · exact h.stored call receipt record hmem
        · cases List.mem_singleton.1 hmem
  | published isClosed unpublished outstanding =>
      have hannounced := h.announced
      have hconfirmed := h.confirmed
      rw [unpublished, outstanding] at hannounced
      rw [unpublished] at hconfirmed
      refine ⟨h.models, fun hopen => absurd isClosed hopen, ?_, fun _ => Or.inl rfl, ?_, ?_,
        fun _ => rfl, fun call receipt hmem => ?_, fun call receipt record hmem => ?_⟩
      · rw [List.countP_append]
        exact h.reported
      · rw [List.countP_append, hannounced]
        rfl
      · rw [List.countP_append, hconfirmed]
        rfl
      · rcases List.mem_append.1 hmem with hmem | hmem
        · exact h.recorded call receipt hmem
        · cases List.mem_singleton.1 hmem
      · rcases List.mem_append.1 hmem with hmem | hmem
        · exact h.stored call receipt record hmem
        · cases List.mem_singleton.1 hmem

theorem invariant_reached (policy : DecoderPolicy) (calls : List Call) :
    Invariant policy (history policy calls) (reached policy calls) :=
  Mealy.log_induction (invariant_new policy)
    (fun _ s c h => h.step (s.call_change c)) calls

/-! ## Behind the close -/

/-- A closed reducer stays closed, asks for nothing and takes no event. -/
theorem closed_step {s t : DecoderReducer} {c : Call} {answer : Answer}
    (hclosed : s.state = .Closed) (hc : Change s c answer t) :
    t.state = .Closed ∧ t.close = s.close ∧ t.queueLen ≤ s.queueLen ∧
      asks (c, answer) = false ∧ added (c, answer) = [] := by
  cases hc with
  | wait | await | done | refuse | stable | publish | published =>
      exact ⟨hclosed, rfl, Nat.le_refl _, rfl, rfl⟩
  | consume count positive queued => exact ⟨hclosed, rfl, Nat.sub_le _ _, rfl, rfl⟩
  | unpublished t unchanged =>
      rcases unchanged with rfl | ⟨-, -, rfl⟩
      · exact ⟨hclosed, rfl, Nat.le_refl _, rfl, rfl⟩
      · exact ⟨hclosed, rfl, Nat.le_refl _, rfl, rfl⟩
  | push frame opened => exact absurd hclosed opened
  | exhaustedWait opened => exact absurd hclosed opened
  | exhausted opened => exact absurd hclosed opened
  | exhaustedClosed opened => exact absurd hclosed opened
  | close call receipt isReceipt opened => exact absurd hclosed opened
  | frame frame opened => exact absurd hclosed opened
  | pull draining => exact absurd hclosed (drainsGuest_open draining)
  | read needed => exact absurd hclosed (needsFrame_open needed)
  | enqueue events limit afterEnd batch next draining =>
      exact absurd hclosed (drainsBody_open draining)
  | finish events limit afterEnd batch next terminal draining =>
      exact absurd hclosed (drainsBody_open draining)
  | needHead limit state => exact absurd (hclosed.symm.trans state) nofun
  | needBody limit state => exact absurd (hclosed.symm.trans state) nofun
  | pushedHead head state => exact absurd (hclosed.symm.trans state) nofun
  | pushedData data state => exact absurd (hclosed.symm.trans state) nofun
  | pushedEnd state => exact absurd (hclosed.symm.trans state) nofun

/-- So it is behind any further calls. -/
theorem closed_run {s : DecoderReducer} (hclosed : s.state = .Closed) (later : List Call) :
    (Mealy.after call s later).state = .Closed ∧
      (Mealy.after call s later).close = s.close ∧
      (Mealy.after call s later).queueLen ≤ s.queueLen ∧
      ∀ entry ∈ Mealy.log call s later, asks entry = false ∧ added entry = [] := by
  refine Mealy.log_induction
    (I := fun log (t : DecoderReducer) => t.state = .Closed ∧ t.close = s.close ∧
      t.queueLen ≤ s.queueLen ∧ ∀ entry ∈ log, asks entry = false ∧ added entry = [])
    ⟨hclosed, rfl, Nat.le_refl _, by simp⟩ ?_ later
  intro log t c h
  obtain ⟨hstate, hclose, hqueue, hlog⟩ := h
  obtain ⟨hstate', hclose', hqueue', hasks, hadded⟩ := closed_step hstate (t.call_change c)
  refine ⟨hstate', hclose'.trans hclose, Nat.le_trans hqueue' hqueue, fun entry hentry => ?_⟩
  rcases List.mem_append.1 hentry with hentry | hentry
  · exact hlog entry hentry
  · rw [List.mem_singleton.1 hentry]
    exact ⟨hasks, hadded⟩

/-- The terminal that is handed out is the recorded one. -/
theorem publish_step {s t : DecoderReducer} {c : Call} {answer : Answer}
    {terminal : NormalizedEvent} (hanswer : answer = .action (.PublishTerminal terminal))
    (hc : Change s c answer t) :
    s.queueLen = 0 ∧ t.close.bind (·.terminal) = some terminal := by
  cases hc with
  | publish stored isClosed empty idle unpublished hstored =>
      cases hanswer
      exact ⟨empty, hstored⟩
  | exhausted opened empty =>
      cases hanswer
      exact ⟨empty, rfl⟩
  | _ => cases hanswer

/-- Every reducer, behind any calls: one reported close, one publication, one
confirmation; nothing is asked, taken or changed behind the close; and the
terminal goes out with an empty queue, as it was stored. -/
theorem decoder_closes_once (policy : DecoderPolicy) (calls : List Call) :
    (history policy calls).countP closes ≤ 1 ∧
    (history policy calls).countP publishes ≤ 1 ∧
    (history policy calls).countP confirms ≤ 1 ∧
    ((reached policy calls).state = .Closed → ∀ later,
      (reached policy (calls ++ later)).state = .Closed ∧
      (reached policy (calls ++ later)).close = (reached policy calls).close ∧
      (reached policy (calls ++ later)).queueLen ≤ (reached policy calls).queueLen ∧
      ∀ entry ∈ Mealy.log call (reached policy calls) later,
        asks entry = false ∧ added entry = []) ∧
    (∀ c terminal,
      ((reached policy calls).call c).1 = .action (.PublishTerminal terminal) →
      (reached policy calls).queueLen = 0 ∧
      ((reached policy calls).call c).2.close.bind (·.terminal) = some terminal ∧
      ∀ earlier receipt record, (earlier, .receipt receipt) ∈ history policy calls →
        receipt.transitioned = true → receipt.close = some record →
        record.terminal = some terminal ∧
          (record.cause = .GuestTerminal → ∃ events,
            earlier = .pullReceipt (.ok (.Events events)) ∧
              StoredFrom policy events terminal)) := by
  have h := invariant_reached policy calls
  refine ⟨h.reported, ?_, ?_, fun hclosed later => ?_, fun c terminal hanswer => ?_⟩
  · rw [h.announced]
    split <;> omega
  · rw [h.confirmed]
    split <;> omega
  · have hrun := closed_run hclosed later
    unfold reached at hrun ⊢
    rw [Mealy.after_append]
    exact hrun
  · have hchange := (reached policy calls).call_change c
    have hnext := h.step hchange
    obtain ⟨hqueue, hterminal⟩ := publish_step hanswer hchange
    refine ⟨hqueue, hterminal, fun earlier receipt record hmem htransitioned hclose => ?_⟩
    have hrecorded := hnext.recorded earlier receipt (List.mem_append_left _ hmem)
      htransitioned (by rw [hclose]; rfl)
    rw [hrecorded, hclose] at hterminal
    have hstored : record.terminal = some terminal := hterminal
    refine ⟨hstored, fun hcause => ?_⟩
    obtain ⟨events, stored, hcall, hrecord, hfrom⟩ :=
      h.stored earlier receipt record hmem htransitioned hclose hcause
    rw [hstored] at hrecord
    cases hrecord
    exact ⟨events, hcall, hfrom⟩

end MCode.Validation.Closing
