import MCode.Validation.Closing

/-!
# The frames of a response

What the decoder pushes to the guest is a head, data and an end, in this order
and within the caps that the status of the head sets.  A frame that the
transport delivered is pushed once, and only for a frame that the guest asked
for.
-/

namespace MCode.Validation.Frames

open MCode.Lib
open MCode.Validation
open MCode.Validation.DecoderReducer
open MCode.Validation.Closing

/-- The frame that is pushed. -/
def pushedFrame (entry : Entry) : Option ResponseFrame :=
  match entry.2 with
  | .action (.PushFrame frame) => some frame
  | _ => none

/-- The frame that is accepted from the transport. -/
def receivedFrame (entry : Entry) : Option ResponseFrame :=
  match entry with
  | (.transportReceipt (.Frame frame), .receipt receipt) =>
      if receipt.transitioned && receipt.close.isNone then some frame else none
  | _ => none

/-- The guest asks for a frame, and may. -/
def asksFrame (entry : Entry) : Bool :=
  match entry with
  | (.pullReceipt (.ok .NeedFrame), .receipt receipt) =>
      receipt.transitioned && receipt.close.isNone
  | _ => false

def pulls (entry : Entry) : Bool :=
  match entry.2 with
  | .action (.Pull _) => true
  | _ => false

/-- The data bytes of a response with this status. -/
def byteLimit (status : Nat) : Nat :=
  if 200 ≤ status ∧ status < 300 then 16 * 1024 * 1024 else 64 * 1024

/-- The first frames of a response: a head, data within its caps, an end. -/
def Sequence (frames : List ResponseFrame) : Prop :=
  ∃ (head : ResponseHead) (datas : List (List UInt8)),
    frames <+: .Head head :: (datas.map .Data ++ [.End]) ∧
    datas.length ≤ 1024 ∧ (datas.map List.length).sum ≤ byteLimit head.status

/-- The frames pushed, received and asked for. -/
structure WellSent (pushed received : List ResponseFrame) (asked : Nat) : Prop where
  inOrder : Sequence pushed
  once : pushed <+: received
  lost : received.length ≤ pushed.length + 1
  needed : pushed.length ≤ asked
  waiting : asked ≤ pushed.length + 1

/-! ## An open reducer -/

/-- The counters of a reducer that has sent this head and these data. -/
structure Counted (s : DecoderReducer) (head : ResponseHead) (datas : List (List UInt8)) :
    Prop where
  status : s.status = some head.status
  frames : s.dataFrames = datas.length
  bytes : s.dataBytes = (datas.map List.length).sum
  framesLe : datas.length ≤ MAX_DATA_FRAMES
  bytesLe : (datas.map List.length).sum ≤ byteLimit head.status

/-- The frames whose push is complete, by the state. -/
def Sent (s : DecoderReducer) (complete : List ResponseFrame) : Prop :=
  match s.state with
  | .InitialPull | .NeedHead =>
      complete = [] ∧ s.status = none ∧ s.dataFrames = 0 ∧ s.dataBytes = 0
  | .DrainingBody | .NeedBody => ∃ head datas,
      complete = .Head head :: datas.map .Data ∧ Counted s head datas
  | .DrainingAfterEnd => ∃ head datas,
      complete = .Head head :: (datas.map .Data ++ [.End]) ∧ Counted s head datas
  | .Closed => False

/-- The frame that is on its way to the guest. -/
def flying (s : DecoderReducer) : List ResponseFrame :=
  if s.inFlight = some .PushFrame then s.pendingFrame.toList else []

/-- What holds of an open reducer. -/
structure Open (s : DecoderReducer) (pushed received : List ResponseFrame) (asked : Nat) :
    Prop where
  complete : ∃ complete, Sent s complete ∧ pushed = complete ++ flying s ∧
    received = complete ++ s.pendingFrame.toList ∧
    (asked = complete.length ∧ ¬ s.NeedsFrame ∨ asked = complete.length + 1 ∧ s.NeedsFrame)
  pending : ∀ frame, s.pendingFrame = some frame →
    s.validatePendingFrame frame = .ok () ∧ s.queueLen = 0
  unread : ∀ flight, s.inFlight = some flight → flight ≠ .PushFrame →
    s.pendingFrame = none
  reading : s.inFlight = some .ReadFrame → s.queueLen = 0

theorem maximumBytes_eq {s : DecoderReducer} {status : Nat} (h : s.status = some status) :
    s.maximumBytes = byteLimit status := by
  unfold maximumBytes successful byteLimit
  rw [h]
  by_cases hstatus : 200 ≤ status ∧ status < 300
  · simp [hstatus, MAX_SUCCESS_BYTES]
  · rw [if_neg hstatus]
    have hnot : (Option.any (fun status => decide (200 ≤ status) && decide (status < 300))
        (some status)) = false := by
      simpa using hstatus
    simp [hnot, MAX_ERROR_BYTES]

/-- The frame that may follow, by the state. -/
theorem validatePendingFrame_ok {s : DecoderReducer} {frame : ResponseFrame}
    (h : s.validatePendingFrame frame = .ok ()) :
    (s.state = .NeedHead ∧ ∃ head, frame = .Head head) ∨
    (s.state = .NeedBody ∧ frame = .End) ∨
    (s.state = .NeedBody ∧ ∃ data, frame = .Data data ∧
      s.dataFrames + 1 ≤ MAX_DATA_FRAMES ∧ s.dataBytes + data.length ≤ s.maximumBytes) := by
  unfold validatePendingFrame at h
  rw [bind_eq_ok] at h
  obtain ⟨valid, -, h⟩ := h
  split at h
  · rename_i head hstate
    exact Or.inl ⟨hstate, head, rfl⟩
  · rename_i hstate
    exact Or.inr (Or.inl ⟨hstate, rfl⟩)
  · rename_i data hstate
    refine Or.inr (Or.inr ⟨hstate, data, rfl, ?_⟩)
    unfold checkedAdd checkedLen at h
    grind [bind_eq_ok]
  · cases h

theorem Sent.sequence {s : DecoderReducer} {complete : List ResponseFrame}
    (h : Sent s complete) : Sequence complete := by
  unfold Sent at h
  split at h
  · rw [h.1]
    exact ⟨⟨200, .Json⟩, [], List.nil_prefix, by simp, by simp⟩
  · rw [h.1]
    exact ⟨⟨200, .Json⟩, [], List.nil_prefix, by simp, by simp⟩
  · obtain ⟨head, datas, rfl, hcounted⟩ := h
    exact ⟨head, datas, ⟨[.End], by simp⟩, hcounted.framesLe, hcounted.bytesLe⟩
  · obtain ⟨head, datas, rfl, hcounted⟩ := h
    exact ⟨head, datas, ⟨[.End], by simp⟩, hcounted.framesLe, hcounted.bytesLe⟩
  · obtain ⟨head, datas, rfl, hcounted⟩ := h
    exact ⟨head, datas, List.prefix_refl _, hcounted.framesLe, hcounted.bytesLe⟩
  · exact h.elim

/-- The counters behind one more data frame. -/
theorem Counted.data {s : DecoderReducer} {head : ResponseHead} {datas : List (List UInt8)}
    {data : List UInt8} (h : Counted s head datas)
    (hvalid : s.validatePendingFrame (.Data data) = .ok ()) :
    Counted { s with
      inFlight := none
      pendingFrame := none
      dataFrames := s.dataFrames + 1
      dataBytes := s.dataBytes + data.length
      state := .DrainingBody } head (datas ++ [data]) := by
  rcases validatePendingFrame_ok hvalid with ⟨-, head', hframe⟩ | ⟨-, hframe⟩ |
    ⟨-, data', hframe, hframes, hbytes⟩
  · cases hframe
  · cases hframe
  · cases hframe
    rw [maximumBytes_eq h.status, h.bytes] at hbytes
    rw [h.frames] at hframes
    refine ⟨h.status, ?_, ?_, ?_, ?_⟩
    · rw [List.length_append, List.length_singleton, ← h.frames]
    · simp [h.bytes]
    · rw [List.length_append, List.length_singleton]
      exact hframes
    · simpa using hbytes

/-- The next frame extends the sequence. -/
theorem Sent.next {s : DecoderReducer} {complete : List ResponseFrame}
    {frame : ResponseFrame} (h : Sent s complete)
    (hvalid : s.validatePendingFrame frame = .ok ()) : Sequence (complete ++ [frame]) := by
  unfold Sent at h
  rcases validatePendingFrame_ok hvalid with ⟨hstate, head, rfl⟩ | ⟨hstate, rfl⟩ |
    ⟨hstate, data, rfl, -⟩
  · rw [hstate] at h
    rw [h.1]
    exact ⟨head, [], ⟨[.End], by simp⟩, by simp, by simp⟩
  · rw [hstate] at h
    obtain ⟨head, datas, rfl, hcounted⟩ := h
    exact ⟨head, datas, ⟨[], by simp⟩, hcounted.framesLe, hcounted.bytesLe⟩
  · rw [hstate] at h
    obtain ⟨head, datas, rfl, hcounted⟩ := h
    have hnext := hcounted.data hvalid
    exact ⟨head, datas ++ [data], ⟨[.End], by simp⟩, hnext.framesLe, hnext.bytesLe⟩

theorem Open.wellSent {s : DecoderReducer} {pushed received : List ResponseFrame}
    {asked : Nat} (h : Open s pushed received asked) : WellSent pushed received asked := by
  obtain ⟨complete, hsent, hpushed, hreceived, hasked⟩ := h.complete
  cases hpending : s.pendingFrame with
  | none =>
      have hflying : flying s = [] := by
        unfold flying
        rw [hpending]
        split <;> rfl
      rw [hflying, List.append_nil] at hpushed
      rw [hpending, Option.toList_none, List.append_nil] at hreceived
      subst hpushed hreceived
      refine ⟨hsent.sequence, List.prefix_refl _, by omega, ?_, ?_⟩
      · rcases hasked with ⟨h, -⟩ | ⟨h, -⟩ <;> omega
      · rcases hasked with ⟨h, -⟩ | ⟨h, -⟩ <;> omega
  | some frame =>
      obtain ⟨hvalid, -⟩ := h.pending frame hpending
      have hneeds : s.NeedsFrame := by
        rcases validatePendingFrame_ok hvalid with ⟨hstate, -⟩ | ⟨hstate, -⟩ | ⟨hstate, -⟩
        · exact Or.inl hstate
        · exact Or.inr hstate
        · exact Or.inr hstate
      have hcount : asked = complete.length + 1 := by
        rcases hasked with ⟨-, hnot⟩ | ⟨heq, -⟩
        · exact absurd hneeds hnot
        · exact heq
      rw [hpending, Option.toList_some] at hreceived
      unfold flying at hpushed
      split at hpushed
      · rw [hpending, Option.toList_some] at hpushed
        subst hpushed hreceived
        refine ⟨hsent.next hvalid, List.prefix_refl _, by omega, ?_, ?_⟩
        · rw [List.length_append, List.length_singleton]
          omega
        · rw [List.length_append, List.length_singleton]
          omega
      · rw [List.append_nil] at hpushed
        subst hpushed hreceived
        exact ⟨hsent.sequence, List.prefix_append _ _, by simp, by omega, by omega⟩

/-! ## One step -/

theorem Sent.congr {s t : DecoderReducer} {complete : List ResponseFrame}
    (h : Sent s complete) (hstate : t.state = s.state) (hstatus : t.status = s.status)
    (hframes : t.dataFrames = s.dataFrames) (hbytes : t.dataBytes = s.dataBytes) :
    Sent t complete := by
  have hcounted (head : ResponseHead) (datas : List (List UInt8))
      (hc : Counted s head datas) : Counted t head datas :=
    ⟨hstatus.trans hc.status, hframes.trans hc.frames, hbytes.trans hc.bytes, hc.framesLe,
      hc.bytesLe⟩
  unfold Sent at h ⊢
  rw [hstate]
  split at h
  · rw [hstatus, hframes, hbytes]
    exact h
  · rw [hstatus, hframes, hbytes]
    exact h
  · obtain ⟨head, datas, hcomplete, hc⟩ := h
    exact ⟨head, datas, hcomplete, hcounted head datas hc⟩
  · obtain ⟨head, datas, hcomplete, hc⟩ := h
    exact ⟨head, datas, hcomplete, hcounted head datas hc⟩
  · obtain ⟨head, datas, hcomplete, hc⟩ := h
    exact ⟨head, datas, hcomplete, hcounted head datas hc⟩
  · exact h

/-- The frames of a response depend on these fields of the reducer. -/
theorem Open.congr {s t : DecoderReducer} {pushed received : List ResponseFrame}
    {asked : Nat} (h : Open s pushed received asked) (hstate : t.state = s.state)
    (hflight : t.inFlight = s.inFlight)
    (hpending : t.pendingFrame = s.pendingFrame) (hqueue : s.queueLen = 0 → t.queueLen = 0)
    (hstatus : t.status = s.status) (hframes : t.dataFrames = s.dataFrames)
    (hbytes : t.dataBytes = s.dataBytes) : Open t pushed received asked := by
  have hvalid (frame : ResponseFrame) :
      t.validatePendingFrame frame = s.validatePendingFrame frame := by
    unfold validatePendingFrame maximumBytes successful
    rw [hstate, hstatus, hframes, hbytes]
  have hflying : flying t = flying s := by
    unfold flying
    rw [hpending, hflight]
  obtain ⟨complete, hcomplete, hpushed, hreceived, hasked⟩ := h.complete
  refine ⟨⟨complete, hcomplete.congr hstate hstatus hframes hbytes, ?_, ?_, ?_⟩, ?_, ?_, ?_⟩
  · rw [hflying]
    exact hpushed
  · rw [hpending]
    exact hreceived
  · unfold NeedsFrame at hasked ⊢
    rw [hstate]
    exact hasked
  · intro frame hframe
    rw [hpending] at hframe
    obtain ⟨hok, hempty⟩ := h.pending frame hframe
    exact ⟨by rw [hvalid]; exact hok, hqueue hempty⟩
  · rw [hpending, hflight]
    exact h.unread
  · rw [hflight]
    exact fun hf => hqueue (h.reading hf)

/-- What an entry adds to the frames of an open reducer. -/
def Keeps (s t : DecoderReducer) (entry : Entry) : Prop :=
  ∀ pushed received asked, Open s pushed received asked →
    Open t (pushed ++ (pushedFrame entry).toList) (received ++ (receivedFrame entry).toList)
      (asked + (asksFrame entry).toNat)

/-- An entry that pushes, receives and asks for nothing. -/
theorem keeps_silent {s t : DecoderReducer} {entry : Entry}
    (hpushed : pushedFrame entry = none) (hreceived : receivedFrame entry = none)
    (hasked : asksFrame entry = false)
    (h : ∀ pushed received asked, Open s pushed received asked →
      Open t pushed received asked) : Keeps s t entry := by
  intro pushed received asked hopen
  rw [hpushed, hreceived, hasked, Option.toList_none, List.append_nil, List.append_nil]
  exact h pushed received asked hopen

/-- Where the guest asked for no frame, none is pending. -/
theorem Open.unasked {s : DecoderReducer} {pushed received : List ResponseFrame}
    {asked : Nat} (h : Open s pushed received asked) (hneeds : ¬ s.NeedsFrame) :
    s.pendingFrame = none := by
  rw [Option.eq_none_iff_forall_ne_some]
  intro frame hframe
  rcases validatePendingFrame_ok (h.pending frame hframe).1 with
    ⟨hstate, -⟩ | ⟨hstate, -⟩ | ⟨hstate, -⟩
  · exact hneeds (Or.inl hstate)
  · exact hneeds (Or.inr hstate)
  · exact hneeds (Or.inr hstate)

/-- A pull or a read is handed out. -/
theorem Open.requested {s : DecoderReducer} {pushed received : List ResponseFrame}
    {asked count : Nat} {flight : InFlight} (h : Open s pushed received asked)
    (idle : s.inFlight = none) (unread : s.pendingFrame = none) (hne : flight ≠ .PushFrame)
    (hread : flight = .ReadFrame → s.queueLen = 0) :
    Open { s with pulls := count, inFlight := some flight } pushed received asked := by
  obtain ⟨complete, hsent, hpushed, hreceived, hasked⟩ := h.complete
  have hflying : flying s =
      flying { s with pulls := count, inFlight := some flight } := by
    simp [flying, idle, hne]
  exact ⟨⟨complete, hsent.congr rfl rfl rfl rfl, hflying ▸ hpushed, hreceived, hasked⟩,
    h.pending, fun _ _ _ => unread, fun hf => hread (Option.some.inj hf)⟩

/-- A pull that is answered with events. -/
theorem Open.pulled {s : DecoderReducer} {pushed received : List ResponseFrame}
    {asked limit : Nat} {events : EventReducer} {batch : EventBatch}
    (h : Open s pushed received asked) (outstanding : s.inFlight = some (.Pull limit))
    (hneeds : ¬ s.NeedsFrame) : Open (s.enqueued events batch) pushed received asked := by
  obtain ⟨complete, hsent, hpushed, hreceived, hasked⟩ := h.complete
  have hunread := h.unasked hneeds
  have hflying : flying s = flying (s.enqueued events batch) := by
    simp [flying, outstanding, enqueued]
  refine ⟨⟨complete, hsent.congr rfl rfl rfl rfl, hflying ▸ hpushed, hreceived, hasked⟩,
    fun frame hframe => ?_, nofun, nofun⟩
  have hpending : s.pendingFrame = some frame := hframe
  rw [hunread] at hpending
  cases hpending

theorem keeps_push {s : DecoderReducer} {frame : ResponseFrame}
    (idle : s.inFlight = none) (pending : s.pendingFrame = some frame) :
    Keeps s { s with inFlight := some .PushFrame }
      (.nextAction, .action (.PushFrame frame)) := by
  intro pushed received asked h
  obtain ⟨complete, hsent, hpushed, hreceived, hasked⟩ := h.complete
  have hflying : flying s = [] := by
    unfold flying
    rw [idle]
    rfl
  rw [hflying, List.append_nil] at hpushed
  subst hpushed
  refine ⟨⟨pushed, hsent.congr rfl rfl rfl rfl, ?_, ?_, hasked⟩, h.pending,
    fun flight hflight hne => ?_, nofun⟩
  · show pushed ++ [frame] = pushed ++ s.pendingFrame.toList
    rw [pending]
    rfl
  · show received ++ [] = pushed ++ s.pendingFrame.toList
    rw [List.append_nil]
    exact hreceived
  · cases hflight
    exact absurd rfl hne

/-- A frame is received while nothing is pending. -/
theorem keeps_frame {s : DecoderReducer} {frame : ResponseFrame}
    (outstanding : s.inFlight = some .ReadFrame)
    (valid : s.validatePendingFrame frame = .ok ()) :
    Keeps s { s with inFlight := none, pendingFrame := some frame }
      (.transportReceipt (.Frame frame), .receipt transitioned) := by
  intro pushed received asked h
  obtain ⟨complete, hsent, hpushed, hreceived, hasked⟩ := h.complete
  have hunread := h.unread _ outstanding nofun
  have hqueue := h.reading outstanding
  have hflying : flying s = [] := by
    unfold flying
    rw [outstanding]
    rfl
  rw [hflying, List.append_nil] at hpushed
  rw [hunread, Option.toList_none, List.append_nil] at hreceived
  subst hpushed
  rw [hreceived]
  refine ⟨⟨pushed, hsent.congr rfl rfl rfl rfl, by simp [flying, pushedFrame], rfl, hasked⟩,
    ?_, nofun, nofun⟩
  intro other hother
  cases hother
  exact ⟨valid, hqueue⟩

/-- The guest asks for a frame where it had not. -/
theorem keeps_ask {s t : DecoderReducer} {limit : Nat}
    (outstanding : s.inFlight = some (.Pull limit)) (hneeds : ¬ s.NeedsFrame)
    (hneeded : t.NeedsFrame) (hunread : t.pendingFrame = s.pendingFrame)
    (hidle : t.inFlight = none)
    (hsent : ∀ complete, Sent s complete → Sent t complete) :
    Keeps s t (.pullReceipt (.ok .NeedFrame), .receipt transitioned) := by
  intro pushed received asked h
  obtain ⟨complete, hcomplete, hpushed, hreceived, hasked⟩ := h.complete
  have hpending := h.unasked hneeds
  have hcount : asked = complete.length := by
    rcases hasked with ⟨heq, -⟩ | ⟨-, hyes⟩
    · exact heq
    · exact absurd hyes hneeds
  have hflying : flying s = [] := by
    unfold flying
    rw [outstanding]
    rfl
  rw [hflying, List.append_nil] at hpushed
  rw [hpending, Option.toList_none, List.append_nil] at hreceived
  refine ⟨⟨complete, hsent complete hcomplete, ?_, ?_, Or.inr ⟨?_, hneeded⟩⟩, ?_, ?_, ?_⟩
  · rw [hpushed]
    simp [flying, hidle, pushedFrame]
  · rw [hreceived, hunread, hpending]
    rfl
  · rw [hcount]
    rfl
  · rw [hunread, hpending]
    nofun
  · rw [hidle]
    nofun
  · rw [hidle]
    nofun

/-- The guest takes the frame that is pending. -/
theorem keeps_taken {s t : DecoderReducer} {frame : ResponseFrame}
    (outstanding : s.inFlight = some .PushFrame) (pending : s.pendingFrame = some frame)
    (hneeds : s.NeedsFrame) (hneeded : ¬ t.NeedsFrame) (hunread : t.pendingFrame = none)
    (hidle : t.inFlight = none)
    (hsent : ∀ complete, Sent s complete → Sent t (complete ++ [frame])) :
    Keeps s t (.pushReceipt (.ok ()), .receipt transitioned) := by
  intro pushed received asked h
  obtain ⟨complete, hcomplete, hpushed, hreceived, hasked⟩ := h.complete
  have hcount : asked = complete.length + 1 := by
    rcases hasked with ⟨-, hnot⟩ | ⟨heq, -⟩
    · exact absurd hneeds hnot
    · exact heq
  have hflying : flying s = [frame] := by
    unfold flying
    rw [if_pos outstanding, pending]
    rfl
  rw [hflying] at hpushed
  rw [pending, Option.toList_some] at hreceived
  refine ⟨⟨complete ++ [frame], hsent complete hcomplete, ?_, ?_, Or.inl ⟨?_, hneeded⟩⟩,
    ?_, ?_, ?_⟩
  · rw [hpushed]
    simp [flying, hidle, pushedFrame]
  · rw [hreceived, hunread]
    rfl
  · rw [hcount, List.length_append]
    rfl
  · rw [hunread]
    nofun
  · rw [hidle]
    nofun
  · rw [hidle]
    nofun

/-! ## Every run -/

/-- What holds of a reducer behind any log. -/
structure Invariant (log : List Entry) (s : DecoderReducer) : Prop where
  wellSent : WellSent (log.filterMap pushedFrame) (log.filterMap receivedFrame)
    (log.countP asksFrame)
  opened : s.state ≠ .Closed →
    Open s (log.filterMap pushedFrame) (log.filterMap receivedFrame) (log.countP asksFrame)
  counted : log.countP pulls = s.pulls
  pullsLe : s.pulls ≤ MAX_PULLS
  framesLe : s.dataFrames ≤ MAX_DATA_FRAMES
  bytesLe : s.dataBytes ≤ MAX_SUCCESS_BYTES

theorem byteLimit_le (status : Nat) : byteLimit status ≤ MAX_SUCCESS_BYTES := by
  unfold byteLimit MAX_SUCCESS_BYTES
  split <;> omega

/-- The counters of an open reducer are within the caps. -/
theorem Open.counters {s : DecoderReducer} {pushed received : List ResponseFrame}
    {asked : Nat} (h : Open s pushed received asked) :
    s.dataFrames ≤ MAX_DATA_FRAMES ∧ s.dataBytes ≤ MAX_SUCCESS_BYTES := by
  obtain ⟨complete, hsent, -⟩ := h.complete
  have hcounted (head : ResponseHead) (datas : List (List UInt8))
      (hc : Counted s head datas) :
      s.dataFrames ≤ MAX_DATA_FRAMES ∧ s.dataBytes ≤ MAX_SUCCESS_BYTES := by
    rw [hc.frames, hc.bytes]
    exact ⟨hc.framesLe, Nat.le_trans hc.bytesLe (byteLimit_le head.status)⟩
  unfold Sent at hsent
  split at hsent
  · obtain ⟨-, -, hframes, hbytes⟩ := hsent
    omega
  · obtain ⟨-, -, hframes, hbytes⟩ := hsent
    omega
  · obtain ⟨head, datas, -, hc⟩ := hsent
    exact hcounted head datas hc
  · obtain ⟨head, datas, -, hc⟩ := hsent
    exact hcounted head datas hc
  · obtain ⟨head, datas, -, hc⟩ := hsent
    exact hcounted head datas hc
  · exact hsent.elim

theorem invariant_new (policy : DecoderPolicy) :
    Invariant [] (DecoderReducer.new policy) := by
  have hopen : Open (DecoderReducer.new policy) [] [] 0 := by
    refine ⟨⟨[], ⟨rfl, rfl, rfl, rfl⟩, rfl, rfl, Or.inl ⟨rfl, ?_⟩⟩, nofun, nofun, nofun⟩
    rintro (h | h)
    · cases h
    · cases h
  exact ⟨hopen.wellSent, fun _ => hopen, rfl, Nat.zero_le _, Nat.zero_le _, Nat.zero_le _⟩

/-- A step of an open reducer that stays open. -/
theorem Invariant.opened_step {log : List Entry} {s t : DecoderReducer} {entry : Entry}
    (h : Invariant log s) (hopen : s.state ≠ .Closed) (hkeeps : Keeps s t entry)
    (hpulls : t.pulls = s.pulls + (pulls entry).toNat) (hle : t.pulls ≤ MAX_PULLS) :
    Invariant (log ++ [entry]) t := by
  have hnext := hkeeps _ _ _ (h.opened hopen)
  have hpushed : (log ++ [entry]).filterMap pushedFrame =
      log.filterMap pushedFrame ++ (pushedFrame entry).toList := by
    rw [List.filterMap_append]
    cases hentry : pushedFrame entry <;> simp [hentry]
  have hreceived : (log ++ [entry]).filterMap receivedFrame =
      log.filterMap receivedFrame ++ (receivedFrame entry).toList := by
    rw [List.filterMap_append]
    cases hentry : receivedFrame entry <;> simp [hentry]
  have hcount (p : Entry → Bool) :
      (log ++ [entry]).countP p = log.countP p + (p entry).toNat := by
    rw [List.countP_append, List.countP_singleton]
    cases p entry <;> rfl
  rw [← hpushed, ← hreceived, ← hcount] at hnext
  refine ⟨hnext.wellSent, fun _ => hnext, ?_, hle, hnext.counters.1, hnext.counters.2⟩
  rw [hcount, h.counted, hpulls]

/-- A step that ends closed neither pushes nor receives. -/
theorem Invariant.closed_step {log : List Entry} {s t : DecoderReducer} {entry : Entry}
    (h : Invariant log s) (hclosed : t.state = .Closed)
    (hpushed : pushedFrame entry = none) (hreceived : receivedFrame entry = none)
    (hasked : asksFrame entry = false) (hpull : pulls entry = false)
    (hpulls : t.pulls = s.pulls) (hframes : t.dataFrames = s.dataFrames)
    (hbytes : t.dataBytes = s.dataBytes) : Invariant (log ++ [entry]) t := by
  refine ⟨?_, fun hopen => absurd hclosed hopen, ?_, ?_, ?_, ?_⟩
  · simpa [hpushed, hreceived, hasked] using h.wellSent
  · rw [hpulls, ← h.counted]
    simp [hpull]
  · rw [hpulls]
    exact h.pullsLe
  · rw [hframes]
    exact h.framesLe
  · rw [hbytes]
    exact h.bytesLe

/-- A step that changes at most the queue and what is outstanding. -/
theorem Invariant.silent_step {log : List Entry} {s t : DecoderReducer} {entry : Entry}
    (h : Invariant log s) (hpushed : pushedFrame entry = none)
    (hreceived : receivedFrame entry = none) (hasked : asksFrame entry = false)
    (hpull : pulls entry = false) (hstate : t.state = s.state)
    (hpulls : t.pulls = s.pulls) (hframes : t.dataFrames = s.dataFrames)
    (hbytes : t.dataBytes = s.dataBytes)
    (hopen : s.state ≠ .Closed → ∀ pushed received asked, Open s pushed received asked →
      Open t pushed received asked) : Invariant (log ++ [entry]) t := by
  by_cases hclosed : s.state = .Closed
  · exact h.closed_step (hstate.trans hclosed) hpushed hreceived hasked hpull hpulls hframes
      hbytes
  · refine h.opened_step hclosed (keeps_silent hpushed hreceived hasked (hopen hclosed)) ?_ ?_
    · rw [hpulls, hpull]
      rfl
    · rw [hpulls]
      exact h.pullsLe

/-- A receipt that closes, or comes too late, neither asks nor delivers. -/
theorem receipt_silent (c : Call) (receipt : DecoderReceipt)
    (h : receipt.transitioned = false ∨ receipt.close.isSome = true) :
    receivedFrame (c, .receipt receipt) = none ∧ asksFrame (c, .receipt receipt) = false := by
  have hnot : (receipt.transitioned && receipt.close.isNone) = false := by
    rcases h with h | h
    · rw [h]
      rfl
    · rw [Bool.and_eq_false_iff]
      exact Or.inr (by simpa using h)
  refine ⟨?_, ?_⟩
  · unfold receivedFrame
    split
    · rename_i heq
      cases heq
      rw [if_neg (by rw [hnot]; exact Bool.false_ne_true)]
    · rfl
  · unfold asksFrame
    split
    · rename_i heq
      cases heq
      exact hnot
    · rfl

theorem needsFrame_ne {s : DecoderReducer} (h : s.NeedsFrame) : s.state ≠ .InitialPull ∧
    s.state ≠ .DrainingBody ∧ s.state ≠ .DrainingAfterEnd ∧ s.state ≠ .Closed := by
  rcases h with h | h <;> rw [h] <;> decide

theorem Invariant.step {log : List Entry} {s t : DecoderReducer} {c : Call}
    {answer : Answer} (h : Invariant log s) (hc : Change s c answer t) :
    Invariant (log ++ [(c, answer)]) t := by
  have hpulls := h.pullsLe
  cases hc with
  | wait | await | done | refuse =>
      exact h.silent_step rfl rfl rfl rfl rfl rfl rfl rfl fun _ _ _ _ hopen => hopen
  | stable call isReceipt isClosed =>
      obtain ⟨hreceived, hasked⟩ := receipt_silent c ⟨[], s.close, false⟩ (Or.inl rfl)
      exact h.silent_step rfl hreceived hasked rfl rfl rfl rfl rfl fun _ _ _ _ hopen => hopen
  | push frame opened idle pending =>
      exact h.opened_step opened (keeps_push idle pending) rfl hpulls
  | pull draining idle unread consumed free left =>
      refine h.opened_step (drainsGuest_open draining)
        (keeps_silent rfl rfl rfl fun _ _ _ hopen => ?_) rfl left
      exact hopen.requested idle unread nofun nofun
  | exhaustedWait | exhausted | exhaustedClosed =>
      exact h.closed_step rfl rfl rfl rfl rfl rfl rfl rfl
  | read needed idle unread empty =>
      refine h.opened_step (needsFrame_ne needed).2.2.2
        (keeps_silent rfl rfl rfl fun _ _ _ hopen => ?_) rfl hpulls
      exact hopen.requested idle unread nofun fun _ => empty
  | publish terminal isClosed empty idle unpublished stored =>
      exact h.closed_step isClosed rfl rfl rfl rfl rfl rfl rfl
  | close call receipt isReceipt opened cause =>
      obtain ⟨hreceived, hasked⟩ :=
        receipt_silent c ⟨[], some receipt, true⟩ (Or.inr rfl)
      exact h.closed_step rfl rfl hreceived hasked rfl rfl rfl rfl
  | enqueue events limit afterEnd batch next draining outstanding accepted models running =>
      refine h.opened_step (drainsBody_open draining)
        (keeps_silent rfl rfl rfl fun _ _ _ hopen => ?_) rfl hpulls
      have hneeds : ¬ s.NeedsFrame := by
        intro hneeds
        have hne := needsFrame_ne hneeds
        unfold DrainsBody at draining
        split at draining
        · exact hne.2.2.1 draining
        · exact hne.2.1 draining
      exact hopen.pulled outstanding hneeds
  | finish events limit afterEnd batch next terminal draining outstanding accepted models
      ended =>
      exact h.closed_step rfl rfl rfl rfl rfl rfl rfl rfl
  | needHead limit initial outstanding =>
      refine h.opened_step (by rw [initial]; decide) (keeps_ask outstanding ?_ (Or.inl rfl) rfl
        rfl fun complete hsent => ?_) rfl hpulls
      · rintro (hneeds | hneeds) <;> rw [initial] at hneeds <;> cases hneeds
      · unfold Sent at hsent
        rw [initial] at hsent
        exact hsent
  | needBody limit draining outstanding =>
      refine h.opened_step (by rw [draining]; decide) (keeps_ask outstanding ?_ (Or.inr rfl) rfl
        rfl fun complete hsent => ?_) rfl hpulls
      · rintro (hneeds | hneeds) <;> rw [draining] at hneeds <;> cases hneeds
      · unfold Sent at hsent
        rw [draining] at hsent
        obtain ⟨head, datas, hcomplete, hc⟩ := hsent
        exact ⟨head, datas, hcomplete, hc.status, hc.frames, hc.bytes, hc.framesLe, hc.bytesLe⟩
  | frame frame opened outstanding valid =>
      exact h.opened_step opened (keeps_frame outstanding valid) rfl hpulls
  | pushedHead head needed outstanding pending =>
      refine h.opened_step (by rw [needed]; decide) (keeps_taken outstanding pending
        (Or.inl needed) ?_ rfl rfl fun complete hsent => ?_) rfl hpulls
      · rintro (hneeds | hneeds) <;> cases hneeds
      · unfold Sent at hsent
        rw [needed] at hsent
        obtain ⟨rfl, -, hframes, hbytes⟩ := hsent
        exact ⟨head, [], rfl, rfl, hframes, hbytes, Nat.zero_le _, Nat.zero_le _⟩
  | pushedData data needed outstanding pending =>
      have hopen := h.opened (by rw [needed]; decide)
      have hvalid := (hopen.pending _ pending).1
      refine h.opened_step (by rw [needed]; decide) (keeps_taken outstanding pending
        (Or.inr needed) ?_ rfl rfl fun complete hsent => ?_) rfl hpulls
      · rintro (hneeds | hneeds) <;> cases hneeds
      · unfold Sent at hsent
        rw [needed] at hsent
        obtain ⟨head, datas, rfl, hc⟩ := hsent
        exact ⟨head, datas ++ [data], by simp, hc.data hvalid⟩
  | pushedEnd needed outstanding pending =>
      refine h.opened_step (by rw [needed]; decide) (keeps_taken outstanding pending
        (Or.inr needed) ?_ rfl rfl fun complete hsent => ?_) rfl hpulls
      · rintro (hneeds | hneeds) <;> cases hneeds
      · unfold Sent at hsent
        rw [needed] at hsent
        obtain ⟨head, datas, rfl, hc⟩ := hsent
        exact ⟨head, datas, by simp, hc.status, hc.frames, hc.bytes, hc.framesLe, hc.bytesLe⟩
  | consume count positive queued =>
      refine h.silent_step rfl rfl rfl rfl rfl rfl rfl rfl fun _ _ _ _ hopen => ?_
      exact hopen.congr rfl rfl rfl (fun hempty => by omega) rfl rfl rfl
  | unpublished t unchanged =>
      rcases unchanged with rfl | ⟨isClosed, -, rfl⟩
      · exact h.silent_step rfl rfl rfl rfl rfl rfl rfl rfl fun _ _ _ _ hopen => hopen
      · exact h.closed_step isClosed rfl rfl rfl rfl rfl rfl rfl
  | published isClosed unpublished outstanding =>
      exact h.closed_step isClosed rfl rfl rfl rfl rfl rfl rfl

theorem invariant_reached (policy : DecoderPolicy) (calls : List Call) :
    Invariant (history policy calls) (reached policy calls) :=
  Mealy.log_induction (I := Invariant) (invariant_new policy)
    (fun _ s c h => h.step (s.call_change c)) calls

theorem push_step {s t : DecoderReducer} {c : Call} {answer : Answer}
    {frame : ResponseFrame} (hanswer : answer = .action (.PushFrame frame))
    (hc : Change s c answer t) :
    s.state ≠ .Closed ∧ s.inFlight = none ∧ s.pendingFrame = some frame := by
  cases hc with
  | push other opened idle pending =>
      cases hanswer
      exact ⟨opened, idle, pending⟩
  | _ => cases hanswer

/-- A frame that is pending was asked for, and is the last that was received. -/
theorem Open.delivered {s : DecoderReducer} {pushed received : List ResponseFrame}
    {asked : Nat} {frame : ResponseFrame} (h : Open s pushed received asked)
    (hidle : s.inFlight = none) (hpending : s.pendingFrame = some frame) :
    received = pushed ++ [frame] ∧ asked = pushed.length + 1 := by
  obtain ⟨complete, -, hpushed, hreceived, hasked⟩ := h.complete
  have hneeds : s.NeedsFrame := by
    by_contra hneeds
    have hnone := h.unasked hneeds
    rw [hpending] at hnone
    cases hnone
  have hflying : flying s = [] := by
    unfold flying
    rw [hidle]
    rfl
  rw [hflying, List.append_nil] at hpushed
  rw [hpending, Option.toList_some] at hreceived
  subst hpushed
  rcases hasked with ⟨-, hnot⟩ | ⟨hcount, -⟩
  · exact absurd hneeds hnot
  · exact ⟨hreceived, hcount⟩

/-- A frame that is received and not pushed is pushed next. -/
theorem Open.pushes_next {s : DecoderReducer} {pushed received : List ResponseFrame}
    {asked : Nat} (h : Open s pushed received asked) (hopen : s.state ≠ .Closed)
    (hlost : received ≠ pushed) : ∃ frame, received = pushed ++ [frame] ∧
      (s.call .nextAction).1 = .action (.PushFrame frame) := by
  obtain ⟨complete, hsent, hpushed, hreceived, hasked⟩ := h.complete
  cases hpending : s.pendingFrame with
  | none =>
      refine absurd ?_ hlost
      rw [hpushed, hreceived]
      simp [flying, hpending]
  | some frame =>
      have hidle : s.inFlight = none := by
        rw [Option.eq_none_iff_forall_ne_some]
        intro flight hflight
        by_cases hpush : flight = .PushFrame
        · refine hlost ?_
          rw [hpushed, hreceived]
          simp [flying, hflight, hpush]
        · have hnone := h.unread flight hflight hpush
          rw [hpending] at hnone
          cases hnone
      have hqueue := (h.pending frame hpending).2
      refine ⟨frame, (h.delivered hidle hpending).1, ?_⟩
      · have hstate : (s.state == .Closed) = false := by simpa using hopen
        show Answer.action s.nextAction.1 = _
        simp [nextAction, hstate, hqueue, hidle, hpending, freeCapacity, QUEUE_CAPACITY]

/-- Every reducer, behind any calls: the frames pushed are a head, data within
the caps of its status, an end; each was asked for and received before, in this
order; while the reducer is open, a frame that was received and not pushed is
what `next_action` pushes next; the pulls, frames and bytes are counted exactly
and within their caps. -/
theorem decoder_frames (policy : DecoderPolicy) (calls : List Call) :
    Sequence ((history policy calls).filterMap pushedFrame) ∧
    (∀ before entry rest frame, history policy calls = before ++ entry :: rest →
      pushedFrame entry = some frame →
      before.filterMap receivedFrame = before.filterMap pushedFrame ++ [frame] ∧
      (before.filterMap pushedFrame).length + 1 = before.countP asksFrame) ∧
    ((reached policy calls).state ≠ .Closed →
      (history policy calls).filterMap receivedFrame ≠
        (history policy calls).filterMap pushedFrame →
      ∃ frame, (history policy calls).filterMap receivedFrame =
          (history policy calls).filterMap pushedFrame ++ [frame] ∧
        ((reached policy calls).call .nextAction).1 = .action (.PushFrame frame)) ∧
    (history policy calls).countP pulls = (reached policy calls).pulls ∧
    (reached policy calls).pulls ≤ 65536 ∧
    (reached policy calls).dataFrames ≤ 1024 ∧
    (reached policy calls).dataBytes ≤ 16 * 1024 * 1024 := by
  have h := invariant_reached policy calls
  refine ⟨h.wellSent.inOrder, ?_, fun hopen => (h.opened hopen).pushes_next hopen, h.counted,
    h.pullsLe, h.framesLe, h.bytesLe⟩
  intro before entry rest frame hsplit hpushed
  obtain ⟨c, answer⟩ := entry
  obtain ⟨first, second, hcalls, hbefore, hanswer, hrest⟩ := Mealy.log_split hsplit
  have hchange := (reached policy first).call_change c
  have hpush : answer = .action (.PushFrame frame) := by
    unfold pushedFrame at hpushed
    split at hpushed
    · rename_i other heq
      cases hpushed
      exact heq
    · cases hpushed
  obtain ⟨hopen, hidle, hpending⟩ := push_step (hanswer.symm.trans hpush) hchange
  obtain ⟨hreceived, hasked⟩ :=
    ((invariant_reached policy first).opened hopen).delivered hidle hpending
  have hlog : before = history policy first := hbefore
  rw [hlog]
  exact ⟨hreceived, hasked.symm⟩

end MCode.Validation.Frames
