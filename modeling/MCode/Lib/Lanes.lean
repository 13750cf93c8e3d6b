import Mathlib

/-!
# Items on their way through lanes

Items are posted to lanes.  A lane is drained into a list of pending items,
which then enter one by one, or it is cleared.  `Moves` is one such step, with
the act on a lane that it performs, if any.

The items of a lane that were not dropped, in the order entered, pending,
queued, are the *stream* of the lane.  A post extends one stream, clearing a
lane cuts the queued part off, and nothing else changes a stream.  So no item
is lost or duplicated and the items of a lane enter in the order posted.
-/

namespace MCode.Lib.Lanes

variable {κ α : Type*}

structure Mailbox (κ α : Type*) where
  queue : κ → List α
  pending : List α
  entered : List α
  dropped : List α
  /-- Every item that was posted, in order. -/
  journal : List α

/-- What left its queue and was not dropped. -/
def Mailbox.taken (m : Mailbox κ α) : List α := m.entered ++ m.pending

/-- What is done to a lane. -/
inductive Act (κ α : Type*) where
  | post (a : α)
  | clear (k : κ)
  | drain (k : κ)

/-- The item that an act posts. -/
def Act.posted : Act κ α → Option α
  | .post a => some a
  | _ => none

variable [DecidableEq κ]

inductive Moves (lane : α → κ) (ticket : α → Nat) (m : Mailbox κ α) :
    Option (Act κ α) → Mailbox κ α → Prop
  | stay : Moves lane ticket m none m
  | post (a : α) (numbered : ticket a = m.journal.length) :
      Moves lane ticket m (some (.post a))
        { m with
          queue := Function.update m.queue (lane a) (m.queue (lane a) ++ [a])
          journal := m.journal ++ [a] }
  | clear (k : κ) :
      Moves lane ticket m (some (.clear k))
        { m with
          queue := Function.update m.queue k []
          dropped := m.dropped ++ m.queue k }
  | drain (k : κ) (empty : m.pending = []) (first rest : List α)
      (split : m.queue k = first ++ rest) :
      Moves lane ticket m (some (.drain k))
        { m with
          queue := Function.update m.queue k rest
          pending := first }
  | enter (a : α) (rest : List α) (next : m.pending = a :: rest) :
      Moves lane ticket m none
        { m with
          pending := rest
          entered := m.entered ++ [a] }

/-- The items of lane `k`. -/
def inLane (lane : α → κ) (k : κ) (items : List α) : List α :=
  items.filter (fun a => lane a = k)

@[simp] theorem inLane_append (lane : α → κ) (k : κ) (xs ys : List α) :
    inLane lane k (xs ++ ys) = inLane lane k xs ++ inLane lane k ys :=
  List.filter_append ..

theorem inLane_eq_self {lane : α → κ} {k : κ} {items : List α}
    (h : ∀ a ∈ items, lane a = k) : inLane lane k items = items :=
  List.filter_eq_self.2 (by simpa using h)

theorem inLane_eq_nil {lane : α → κ} {k j : κ} {items : List α}
    (h : ∀ a ∈ items, lane a = k) (hne : k ≠ j) :
    inLane lane j items = [] := by
  refine List.filter_eq_nil_iff.2 fun a ha => ?_
  simp only [h a ha, decide_eq_true_eq]
  exact hne

/-- The items of lane `k` that were not dropped, in order. -/
def Mailbox.stream (lane : α → κ) (m : Mailbox κ α) (k : κ) : List α :=
  inLane lane k m.taken ++ m.queue k

/-- The invariant: items are numbered and in their lanes, a lane has exactly
the items posted to it, and what is not dropped is in the order posted. -/
structure Kept (lane : α → κ) (ticket : α → Nat) (m : Mailbox κ α) : Prop where
  tickets : m.journal.map ticket = List.range m.journal.length
  lanes : ∀ k, ∀ a ∈ m.queue k, lane a = k
  placed : ∀ k, (inLane lane k m.dropped ++ m.stream lane k).Perm
    (inLane lane k m.journal)
  ordered : ∀ k, (m.stream lane k).Sublist m.journal

variable {lane : α → κ} {ticket : α → Nat} {act : Option (Act κ α)}
  {m m' : Mailbox κ α}

/-- Draining and entering leave every stream as it is. -/
theorem stream_drain {k : κ} (hlanes : ∀ a ∈ m.queue k, lane a = k)
    (hempty : m.pending = []) {first rest : List α}
    (hsplit : m.queue k = first ++ rest) (j : κ) :
    Mailbox.stream lane
        { m with queue := Function.update m.queue k rest, pending := first } j =
      m.stream lane j := by
  have hfirst : ∀ a ∈ first, lane a = k := by
    intro a ha
    exact hlanes a (by rw [hsplit]; exact List.mem_append_left _ ha)
  unfold Mailbox.stream Mailbox.taken
  dsimp only
  by_cases hj : j = k
  · subst hj
    rw [Function.update_self, hempty, hsplit, inLane_append,
      inLane_eq_self hfirst, List.append_nil, List.append_assoc]
  · rw [Function.update_of_ne hj, hempty, inLane_append,
      inLane_eq_nil hfirst (Ne.symm hj)]
    simp

theorem stream_enter {a : α} {rest : List α} (hnext : m.pending = a :: rest)
    (j : κ) :
    Mailbox.stream lane
        { m with pending := rest, entered := m.entered ++ [a] } j =
      m.stream lane j := by
  unfold Mailbox.stream Mailbox.taken
  rw [hnext]
  dsimp only
  rw [List.append_assoc]
  rfl

/-- The step rule of the invariant. -/
theorem Kept.step (h : Kept lane ticket m)
    (hmove : Moves lane ticket m act m') : Kept lane ticket m' := by
  cases hmove with
  | stay => exact h
  | post a numbered =>
      refine ⟨?_, fun k b hb => ?_, fun k => ?_, fun k => ?_⟩
      · simp [List.range_succ, h.tickets, numbered]
      · dsimp only at hb
        by_cases hk : k = lane a
        · subst hk
          rw [Function.update_self, List.mem_append, List.mem_singleton] at hb
          rcases hb with hb | rfl
          · exact h.lanes _ b hb
          · rfl
        · rw [Function.update_of_ne hk] at hb
          exact h.lanes k b hb
      · have hplaced := h.placed k
        unfold Mailbox.stream Mailbox.taken at hplaced ⊢
        dsimp only
        by_cases hk : k = lane a
        · subst hk
          have hone : inLane lane (lane a) [a] = [a] :=
            inLane_eq_self (by simp)
          rw [Function.update_self, inLane_append _ _ _ [a], hone,
            ← List.append_assoc, ← List.append_assoc]
          rw [← List.append_assoc] at hplaced
          exact hplaced.append_right [a]
        · have hnone : inLane lane k [a] = [] :=
            inLane_eq_nil (k := lane a) (by simp) (Ne.symm hk)
          rw [Function.update_of_ne hk, inLane_append _ _ _ [a], hnone,
            List.append_nil]
          exact hplaced
      · have hordered := h.ordered k
        unfold Mailbox.stream Mailbox.taken at hordered ⊢
        dsimp only
        by_cases hk : k = lane a
        · subst hk
          rw [Function.update_self, ← List.append_assoc]
          exact hordered.append (List.Sublist.refl [a])
        · rw [Function.update_of_ne hk]
          exact hordered.trans (List.sublist_append_left ..)
  | clear k =>
      refine ⟨h.tickets, fun j b hb => ?_, fun j => ?_, fun j => ?_⟩
      · dsimp only at hb
        by_cases hj : j = k
        · subst hj
          simp at hb
        · rw [Function.update_of_ne hj] at hb
          exact h.lanes j b hb
      · have hplaced := h.placed j
        unfold Mailbox.stream Mailbox.taken at hplaced ⊢
        dsimp only
        by_cases hj : j = k
        · subst hj
          rw [Function.update_self, List.append_nil, inLane_append,
            inLane_eq_self (h.lanes j), List.append_assoc]
          exact (List.perm_append_comm.append_left _).trans hplaced
        · rw [Function.update_of_ne hj, inLane_append,
            inLane_eq_nil (h.lanes k) (Ne.symm hj), List.append_nil]
          exact hplaced
      · have hordered := h.ordered j
        unfold Mailbox.stream Mailbox.taken at hordered ⊢
        dsimp only
        by_cases hj : j = k
        · subst hj
          rw [Function.update_self, List.append_nil]
          exact (List.sublist_append_left ..).trans hordered
        · rw [Function.update_of_ne hj]
          exact hordered
  | drain k empty first rest split =>
      have hstream := stream_drain (h.lanes k) empty split
      refine ⟨h.tickets, fun j b hb => ?_, fun j => ?_, fun j => ?_⟩
      · dsimp only at hb
        by_cases hj : j = k
        · subst hj
          rw [Function.update_self] at hb
          exact h.lanes j b (by rw [split]; exact List.mem_append_right _ hb)
        · rw [Function.update_of_ne hj] at hb
          exact h.lanes j b hb
      · rw [hstream]
        exact h.placed j
      · rw [hstream]
        exact h.ordered j
  | enter a rest next =>
      refine ⟨h.tickets, h.lanes, fun j => ?_, fun j => ?_⟩
      · rw [stream_enter next]
        exact h.placed j
      · rw [stream_enter next]
        exact h.ordered j

/-! ## What the invariant says -/

theorem Kept.nodup (h : Kept lane ticket m) : m.journal.Nodup :=
  List.Nodup.of_map ticket (h.tickets ▸ List.nodup_range)

/-- An item that was taken is in no queue. -/
theorem Kept.apart (h : Kept lane ticket m) {a : α} {k : κ}
    (htaken : a ∈ m.taken) (hqueue : a ∈ m.queue k) : False := by
  have hstream : (m.stream lane k).Nodup := h.nodup.sublist (h.ordered k)
  have hmem : a ∈ inLane lane k m.taken :=
    List.mem_filter.2 ⟨htaken, by simp [h.lanes k a hqueue]⟩
  exact (List.nodup_append.1 hstream).2.2 a hmem a hqueue rfl

/-- The items of a lane have entered in the order posted. -/
theorem Kept.entered_sublist (h : Kept lane ticket m) (k : κ) :
    (inLane lane k m.entered).Sublist m.journal := by
  refine List.Sublist.trans ?_ (h.ordered k)
  unfold Mailbox.stream Mailbox.taken
  rw [inLane_append, List.append_assoc]
  exact List.sublist_append_left ..

/-- The journal is what was posted. -/
theorem Moves.journal (h : Moves lane ticket m act m') :
    m'.journal = m.journal ++ (act.bind Act.posted).toList := by
  cases h with
  | post a numbered => rfl
  | stay | clear | drain | enter => exact (List.append_nil _).symm

/-! ## What a step does to one lane -/

/-- A queue that is neither drained nor cleared only grows at its end. -/
theorem Moves.queue_grows (h : Moves lane ticket m act m') {k : κ}
    (hdrained : act ≠ some (.drain k)) (hcleared : act ≠ some (.clear k)) :
    m.queue k <+: m'.queue k := by
  cases h with
  | stay | enter => exact List.prefix_rfl
  | post a numbered =>
      by_cases hk : k = lane a
      · subst hk
        simp
      · simp [Function.update_of_ne hk]
  | clear j =>
      have hk : k ≠ j := fun heq => hcleared (heq ▸ rfl)
      simp [Function.update_of_ne hk]
  | drain j =>
      have hk : k ≠ j := fun heq => hdrained (heq ▸ rfl)
      simp [Function.update_of_ne hk]

/-- What was taken stays taken. -/
theorem Moves.taken_grows (h : Moves lane ticket m act m') :
    m.taken <+: m'.taken := by
  unfold Mailbox.taken
  cases h with
  | stay | post | clear => exact List.prefix_rfl
  | drain k empty => simp [empty]
  | enter a rest next => simp [next]

/-- The first item of a queue that is not cleared stays there or is taken. -/
theorem Moves.head_stays (h : Moves lane ticket m act m') {k : κ}
    (hcleared : act ≠ some (.clear k)) {a : α}
    (ha : (m.queue k).head? = some a ∨ a ∈ m.taken) :
    (m'.queue k).head? = some a ∨ a ∈ m'.taken := by
  rcases ha with hhead | htaken
  · cases h with
    | stay | enter => exact Or.inl hhead
    | post b numbered =>
        refine Or.inl ?_
        by_cases hk : k = lane b
        · subst hk
          simp [List.head?_append, hhead]
        · simpa [Function.update_of_ne hk] using hhead
    | clear j =>
        have hk : k ≠ j := fun heq => hcleared (heq ▸ rfl)
        exact Or.inl (by simpa [Function.update_of_ne hk] using hhead)
    | drain j empty first rest split =>
        by_cases hk : k = j
        · subst hk
          cases first with
          | nil =>
              refine Or.inl ?_
              simpa [split] using hhead
          | cons b first =>
              have hb : b = a := by simpa [split] using hhead
              exact Or.inr (by simp [Mailbox.taken, hb])
        · exact Or.inl (by simpa [Function.update_of_ne hk] using hhead)
  · exact Or.inr (h.taken_grows.subset htaken)

/-! ## Overtaking -/

/-- Item `a` entered while `b` had not. -/
def Overtakes (a b : α) (entered : List α) : Prop :=
  ∃ before after, entered = before ++ a :: after ∧ b ∉ before

/-- A pending item overtakes what is not taken. -/
def Overtaking (a b : α) (m : Mailbox κ α) : Prop :=
  (a ∈ m.pending ∧ b ∉ m.taken) ∨ Overtakes a b m.entered

omit [DecidableEq κ] in
theorem Overtakes.append {a b : α} {entered : List α}
    (h : Overtakes a b entered) (more : List α) :
    Overtakes a b (entered ++ more) := by
  obtain ⟨before, after, rfl, hb⟩ := h
  exact ⟨before, after ++ more, by simp, hb⟩

/-- It stays so until it has entered: nothing is drained before. -/
theorem Overtaking.step {a b : α} (h : Overtaking a b m)
    (hmove : Moves lane ticket m act m') : Overtaking a b m' := by
  rcases h with ⟨ha, hb⟩ | h
  · cases hmove with
    | stay | post | clear => exact Or.inl ⟨ha, hb⟩
    | drain k empty =>
        rw [empty] at ha
        simp at ha
    | enter c rest next =>
        rw [next, List.mem_cons] at ha
        rcases ha with rfl | ha
        · refine Or.inr ⟨m.entered, [], rfl, fun hmem => hb ?_⟩
          exact List.mem_append_left _ hmem
        · refine Or.inl ⟨ha, fun hmem => hb ?_⟩
          simpa [Mailbox.taken, next] using hmem
  · cases hmove with
    | stay | post | clear | drain => exact Or.inr h
    | enter c rest next => exact Or.inr (h.append [c])

end MCode.Lib.Lanes
