import MCode.Generations.Fence

/-!
# What the generation fence guarantees

The word counts the calls that hold a reservation, and no exchange changes the
phase and the count at once.  The invariant `Fenced` states this together with
the ownership of the mutex; it holds of every state that a system reaches.
-/

namespace MCode.Generations

open MCode.Lib MCode.Lib.Machine

/-! ## The packed word -/

theorem phase_toNat (state : Word) : (generationPhase state).toNat = state.toNat % 4 := by
  unfold generationPhase GENERATION_PHASE_MASK
  rw [BitVec.toNat_and]
  exact Nat.and_two_pow_sub_one_eq_mod state.toNat 2

theorem count_toNat (state : Word) : (generationActivityCount state).toNat = state.toNat / 4 := by
  unfold generationActivityCount
  rw [BitVec.toNat_ushiftRight, Nat.shiftRight_eq_div_pow]

theorem increment_toNat : GENERATION_ACTIVITY_INCREMENT.toNat = 4 := rfl

theorem max_toNat : MAX_GENERATION_ACTIVITIES.toNat = 2 ^ 62 - 1 := rfl

theorem retired_phase (state : Word) :
    generationPhase (retiredWord state) = GENERATION_RETIRED := by
  unfold generationPhase retiredWord
  have hclear : ~~~GENERATION_PHASE_MASK &&& GENERATION_PHASE_MASK = 0#64 := by decide
  have hkeep : GENERATION_RETIRED &&& GENERATION_PHASE_MASK = GENERATION_RETIRED := by decide
  rw [BitVec.and_or_distrib_right, BitVec.and_assoc, hclear, hkeep, BitVec.and_zero,
    BitVec.zero_or]

theorem retired_count (state : Word) :
    generationActivityCount (retiredWord state) = generationActivityCount state := by
  unfold generationActivityCount retiredWord
  have hclear : GENERATION_RETIRED >>> 2 = 0#64 := by decide
  have hkeep : ~~~GENERATION_PHASE_MASK >>> 2 = BitVec.allOnes 64 >>> 2 := by decide
  rw [BitVec.ushiftRight_or_distrib, BitVec.ushiftRight_and_distrib, hclear, hkeep,
    ← BitVec.ushiftRight_and_distrib, BitVec.and_allOnes, BitVec.or_zero]

/-- A reservation below the largest count does not overflow. -/
theorem reserve_toNat {state : Word}
    (h : generationActivityCount state ≠ MAX_GENERATION_ACTIVITIES) :
    (state + GENERATION_ACTIVITY_INCREMENT).toNat = state.toNat + 4 := by
  have hcount : state.toNat / 4 ≠ 2 ^ 62 - 1 := by
    intro heq
    apply h
    apply BitVec.eq_of_toNat_eq
    rw [count_toNat, max_toNat, heq]
  have hbound : state.toNat < 2 ^ 64 := state.isLt
  rw [BitVec.toNat_add, increment_toNat]
  omega

theorem release_toNat {state : Word} (h : generationActivityCount state ≠ 0) :
    (state - GENERATION_ACTIVITY_INCREMENT).toNat + 4 = state.toNat := by
  have hcount : state.toNat / 4 ≠ 0 := by
    intro heq
    apply h
    apply BitVec.eq_of_toNat_eq
    rw [count_toNat, heq]
    rfl
  have hbound : state.toNat < 2 ^ 64 := state.isLt
  rw [BitVec.toNat_sub, increment_toNat]
  omega

theorem reserve_phase {state : Word}
    (h : generationActivityCount state ≠ MAX_GENERATION_ACTIVITIES) :
    generationPhase (state + GENERATION_ACTIVITY_INCREMENT) = generationPhase state := by
  apply BitVec.eq_of_toNat_eq
  rw [phase_toNat, phase_toNat, reserve_toNat h]
  omega

theorem release_phase {state : Word} (h : generationActivityCount state ≠ 0) :
    generationPhase (state - GENERATION_ACTIVITY_INCREMENT) = generationPhase state := by
  have hnat := release_toNat h
  apply BitVec.eq_of_toNat_eq
  rw [phase_toNat, phase_toNat]
  omega

/-- The activities that a word counts. -/
def activities (state : Word) : Nat := (generationActivityCount state).toNat

theorem reserve_activities {state : Word}
    (h : generationActivityCount state ≠ MAX_GENERATION_ACTIVITIES) :
    activities (state + GENERATION_ACTIVITY_INCREMENT) = activities state + 1 := by
  unfold activities
  rw [count_toNat, count_toNat, reserve_toNat h]
  omega

theorem release_activities {state : Word} (h : generationActivityCount state ≠ 0) :
    activities (state - GENERATION_ACTIVITY_INCREMENT) + 1 = activities state := by
  have hnat := release_toNat h
  unfold activities
  rw [count_toNat, count_toNat]
  omega

/-! ## One operation -/

/-- A call with a reservation: an activity that is alive, or an `enter` behind
its exchange that has neither returned nor rolled back. -/
def Call.counts : Call → Bool
  | .enterReserved _ | .enterRollback | .activity _ => true
  | _ => false

/-- What one operation does to the word. -/
inductive Effect (fence : Fence) (call : Call) (fence' : Fence) (call' : Call) : Prop where
  | quiet (state : fence'.state = fence.state) (counts : call'.counts = call.counts)
  | reserve (epoch : Word) (before : call = .enterTrying epoch fence.state)
      (after : call' = .enterReserved epoch)
      (phase : generationPhase fence.state = GENERATION_CURRENT)
      (room : generationActivityCount fence.state ≠ MAX_GENERATION_ACTIVITIES)
      (state : fence'.state = fence.state + GENERATION_ACTIVITY_INCREMENT)
  | release (before : call.counts = true) (after : call'.counts = false)
      (state : fence'.state = fence.state - GENERATION_ACTIVITY_INCREMENT)
  | current (before : call = .markCurrent) (after : call' = .markedCurrent)
      (preparing : fence.state = GENERATION_PREPARING)
      (state : fence'.state = GENERATION_CURRENT)
  | retire (before : call = .retireTrying fence.state) (after : call' = .retireDone)
      (phase : generationPhase fence.state ≠ GENERATION_RETIRED)
      (state : fence'.state = retiredWord fence.state)

theorem release_effect {fence fence' : Fence} {call call' notifying done : Call}
    (hbefore : call.counts = true) (hnotifying : notifying.counts = false)
    (hdone : done.counts = false) (hcount : generationActivityCount fence.state ≠ 0)
    (h : release fence notifying done = (fence', call')) : Effect fence call fence' call' := by
  unfold release at h
  rw [if_neg hcount] at h
  cases h
  apply Effect.release hbefore
  · split
    · exact hnotifying
    · exact hdone
  · rfl

/-- The word is changed by reservations and releases, and by the changes of the
phase. -/
theorem advance_effect {fence fence' : Fence} {i : Nat} {flag : Bool} {call call' : Call}
    (hcount : call.counts = true → generationActivityCount fence.state ≠ 0)
    (h : advance fence i flag call = some (fence', call')) :
    Effect fence call fence' call' := by
  cases call with
  | enterTrying epoch state =>
      dsimp only [advance] at h
      split at h
      · cases h
        exact .quiet rfl rfl
      rename_i hroom
      split at h
      · rename_i hsame
        obtain ⟨rfl, -⟩ := hsame
        cases h
        simp only [Bool.or_eq_true, decide_eq_true_eq, not_or, not_not] at hroom
        exact .reserve epoch rfl rfl hroom.1 hroom.2 rfl
      · cases h
        exact .quiet rfl rfl
  | retireTrying state =>
      dsimp only [advance] at h
      split at h
      · cases h
        exact .quiet rfl rfl
      rename_i hphase
      split at h
      · cases h
        exact .quiet rfl rfl
      split at h
      · rename_i hsame
        obtain ⟨rfl, -⟩ := hsame
        cases h
        exact .retire rfl rfl hphase rfl
      · cases h
        exact .quiet rfl rfl
  | markCurrent =>
      dsimp only [advance] at h
      split at h
      · rename_i hpreparing
        cases h
        exact .current rfl rfl hpreparing rfl
      · cases h
        exact .quiet rfl rfl
  | enterRollback => exact release_effect rfl rfl rfl (hcount rfl) (Option.some.inj h)
  | activity epoch => exact release_effect rfl rfl rfl (hcount rfl) (Option.some.inj h)
  | _ =>
      dsimp only [advance] at h
      repeat' split at h
      all_goals cases h
      all_goals exact .quiet rfl rfl

/-- A call that holds the mutex. -/
def Call.holds : Call → Bool
  | .commitLocked _ | .commitLoading _ | .commitStale _ | .commitUnavailable _ | .commitOpen _
  | .retireLocked | .retireTrying _ | .retireDone => true
  | _ => false

theorem release_commit {fence fence' : Fence} {notifying done call' : Call}
    (hnotifying : notifying.holds = false) (hdone : done.holds = false)
    (h : release fence notifying done = (fence', call')) :
    fence'.commit = fence.commit ∧ call'.holds = false := by
  unfold release at h
  split at h
  · cases h
    exact ⟨rfl, rfl⟩
  · cases h
    constructor
    · rfl
    · split
      · exact hnotifying
      · exact hdone

/-- What one operation does to the mutex. -/
inductive MutexEffect (fence : Fence) (i : Nat) (call : Call) (fence' : Fence)
    (call' : Call) : Prop where
  | kept (commit : fence'.commit = fence.commit) (holds : call'.holds = call.holds)
  | locked (free : fence.commit = none) (commit : fence'.commit = some i)
      (before : call.holds = false) (after : call'.holds = true)
  | unlocked (commit : fence'.commit = none) (before : call.holds = true)
      (after : call'.holds = false)

/-- The mutex goes only from and to the call that operates. -/
theorem advance_mutex {fence fence' : Fence} {i : Nat} {flag : Bool} {call call' : Call}
    (h : advance fence i flag call = some (fence', call')) :
    MutexEffect fence i call fence' call' := by
  cases call with
  | enterRollback =>
      obtain ⟨hcommit, hholds⟩ := release_commit rfl rfl (Option.some.inj h)
      exact .kept hcommit hholds
  | activity epoch =>
      obtain ⟨hcommit, hholds⟩ := release_commit rfl rfl (Option.some.inj h)
      exact .kept hcommit hholds
  | beginCommit owner =>
      dsimp only [advance] at h
      split at h
      · rename_i hfree
        cases h
        exact .locked hfree rfl rfl (by split <;> rfl)
      · cases h
  | markRetired =>
      dsimp only [advance] at h
      split at h
      · rename_i hfree
        cases h
        exact .locked hfree rfl rfl rfl
      · cases h
  | _ =>
      dsimp only [advance] at h
      repeat' split at h
      all_goals cases h
      all_goals first
        | exact .kept rfl rfl
        | exact .unlocked rfl rfl rfl

theorem release_publication {fence fence' : Fence} {notifying done call' : Call}
    (h : release fence notifying done = (fence', call')) :
    fence'.publicationState = fence.publicationState := by
  unfold release at h
  split at h <;> cases h <;> rfl

/-- A call only closes the publication. -/
theorem advance_publication {fence fence' : Fence} {i : Nat} {flag : Bool} {call call' : Call}
    (h : advance fence i flag call = some (fence', call')) :
    fence'.publicationState = fence.publicationState ∨
      fence'.publicationState = PUBLICATION_CLOSED := by
  cases call with
  | enterRollback => exact Or.inl (release_publication (Option.some.inj h))
  | activity epoch => exact Or.inl (release_publication (Option.some.inj h))
  | _ =>
      dsimp only [advance] at h
      repeat' split at h
      all_goals cases h
      all_goals first
        | exact Or.inl rfl
        | exact Or.inr rfl

/-- The epoch that an `enter` has loaded, which its activity keeps. -/
def Call.epoch : Call → Option Word
  | .enterLoading epoch | .enterTrying epoch _ | .enterReserved epoch | .activity epoch =>
      some epoch
  | _ => none

/-- An epoch at which `enter` goes on. -/
def Stable (epoch : Word) : Prop := isEven epoch = true ∧ epoch ≠ PUBLICATION_CLOSED

theorem release_epoch {fence fence' : Fence} {notifying done call' : Call}
    (hnotifying : notifying.epoch = none) (hdone : done.epoch = none)
    (h : release fence notifying done = (fence', call')) : call'.epoch = none := by
  unfold release at h
  split at h
  · cases h
    rfl
  · cases h
    split
    · exact hnotifying
    · exact hdone

/-- The operations of `enter` up to the activity. -/
inductive EnterStep (fence : Fence) (epoch : Word) : Call → Call → Prop where
  | load (same : fence.publicationState = epoch) (stable : Stable epoch) :
      EnterStep fence epoch .enter (.enterLoading epoch)
  | look : EnterStep fence epoch (.enterLoading epoch) (.enterTrying epoch fence.state)
  | retry (state : Word) :
      EnterStep fence epoch (.enterTrying epoch state) (.enterTrying epoch fence.state)
  | reserve : EnterStep fence epoch (.enterTrying epoch fence.state) (.enterReserved epoch)
  | admitted (same : fence.publicationState = epoch) :
      EnterStep fence epoch (.enterReserved epoch) (.activity epoch)

/-- A call with an epoch has got there by an operation of `enter`. -/
theorem advance_enters {fence fence' : Fence} {i : Nat} {flag : Bool} {call call' : Call}
    {epoch : Word} (hepoch : call'.epoch = some epoch)
    (h : advance fence i flag call = some (fence', call')) :
    EnterStep fence epoch call call' := by
  cases call with
  | enter =>
      dsimp only [advance] at h
      split at h
      · cases h
        cases hepoch
      · rename_i hstable
        cases h
        cases hepoch
        rw [Bool.or_eq_true, decide_eq_true_eq, not_or] at hstable
        exact .load rfl ⟨by simpa using hstable.2, hstable.1⟩
  | enterLoading loaded =>
      cases h
      cases hepoch
      exact .look
  | enterTrying loaded state =>
      dsimp only [advance] at h
      split at h
      · cases h
        cases hepoch
      split at h
      · rename_i hsame
        obtain ⟨rfl, -⟩ := hsame
        cases h
        cases hepoch
        exact .reserve
      · cases h
        cases hepoch
        exact .retry state
  | enterReserved loaded =>
      dsimp only [advance] at h
      split at h
      · cases h
        cases hepoch
      · rename_i hsame
        cases h
        cases hepoch
        exact .admitted (not_not.1 hsame)
  | enterRollback => rw [release_epoch rfl rfl (Option.some.inj h)] at hepoch; cases hepoch
  | activity loaded => rw [release_epoch rfl rfl (Option.some.inj h)] at hepoch; cases hepoch
  | _ =>
      dsimp only [advance] at h
      repeat' split at h
      all_goals cases h
      all_goals cases hepoch

/-- An epoch is loaded once, where it is stable, and kept. -/
theorem EnterStep.epoch {fence : Fence} {call call' : Call} {epoch : Word}
    (h : EnterStep fence epoch call call') :
    call.epoch = some epoch ∨ (call = .enter ∧ Stable epoch) := by
  cases h with
  | load same stable => exact Or.inr ⟨rfl, stable⟩
  | look => exact Or.inl rfl
  | retry state => exact Or.inl rfl
  | reserve => exact Or.inl rfl
  | admitted same => exact Or.inl rfl

/-! ## The invariant -/

theorem step_tick {s t : System} {i : Nat} {flag : Bool} (h : step s (.tick i flag) = some t) :
    ∃ call fence' call', s.calls[i]? = some call ∧
      advance s.fence i flag call = some (fence', call') ∧
      t = ⟨fence', s.calls.set i call'⟩ := by
  dsimp only [step] at h
  cases hcall : s.calls[i]? with
  | none =>
      rw [hcall] at h
      cases h
  | some call =>
      rw [hcall] at h
      dsimp only at h
      split at h
      · cases h
      · obtain ⟨⟨fence', call'⟩, hadvance, rfl⟩ := Option.map_eq_some_iff.1 h
        exact ⟨call, fence', call', rfl, hadvance, rfl⟩

def IsPhase (phase : Word) : Prop :=
  phase = GENERATION_PREPARING ∨ phase = GENERATION_CURRENT ∨ phase = GENERATION_RETIRED

/-- The word counts the reservations, a commit that is open has a current
generation, and the mutex is held by the call that it names. -/
structure Fenced (s : System) : Prop where
  count : activities s.fence.state = s.calls.countP Call.counts
  phase : IsPhase (generationPhase s.fence.state)
  mutex : ∀ i, s.fence.commit = some i ↔ ∃ call, s.calls[i]? = some call ∧ call.holds = true
  commitOpen : ∀ owner, Call.commitOpen owner ∈ s.calls →
    generationPhase s.fence.state = GENERATION_CURRENT
  epoch : ∀ call ∈ s.calls, ∀ epoch, call.epoch = some epoch → Stable epoch

theorem init_fenced (publicationState : Word) : Fenced (init publicationState) where
  count := by
    show activities GENERATION_PREPARING = 0
    decide
  phase := Or.inl (by
    show generationPhase GENERATION_PREPARING = _
    decide)
  mutex := by
    intro i
    constructor
    · nofun
    · rintro ⟨call, hcall, hholds⟩
      rw [List.mem_singleton.1 (List.mem_of_getElem? hcall)] at hholds
      cases hholds
  commitOpen := by
    intro owner hmem
    cases List.mem_singleton.1 hmem
  epoch := by
    intro call hmem epoch hepoch
    rw [List.mem_singleton.1 hmem] at hepoch
    cases hepoch

/-- A call with a reservation is counted. -/
theorem Fenced.counted {s : System} (h : Fenced s) {call : Call} (hmem : call ∈ s.calls)
    (hcounts : call.counts = true) : generationActivityCount s.fence.state ≠ 0 := by
  have hpos : 0 < s.calls.countP Call.counts := List.countP_pos_iff.2 ⟨call, hmem, hcounts⟩
  intro hzero
  have hcount := h.count
  unfold activities at hcount
  rw [hzero] at hcount
  rw [← hcount] at hpos
  exact absurd hpos (by decide)

/-- The reservations once one call has moved. -/
theorem countP_set_add {calls : List Call} {i : Nat} {call : Call}
    (hcall : calls[i]? = some call) (p : Call → Bool) (call' : Call) :
    (calls.set i call').countP p + (p call).toNat = calls.countP p + (p call').toNat := by
  obtain ⟨hi, hfound⟩ := List.getElem?_eq_some_iff.1 hcall
  have hmem : call ∈ calls := List.mem_of_getElem? hcall
  have hpos : p call = true → 0 < calls.countP p := fun hp => List.countP_pos_iff.2 ⟨call, hmem, hp⟩
  rw [List.countP_set hi, hfound]
  cases hold : p call with
  | true =>
      have hone := hpos hold
      cases p call' <;> simp <;> omega
  | false => cases p call' <;> simp

/-- Where one call has moved. -/
theorem getElem?_moved {calls : List Call} {i j : Nat} {call call' : Call}
    (hcall : calls[i]? = some call) :
    (calls.set i call')[j]? = if j = i then some call' else calls[j]? := by
  by_cases hj : j = i
  · subst hj
    rw [if_pos rfl, List.getElem?_set_self (List.getElem?_eq_some_iff.1 hcall).1]
  · rw [if_neg hj, List.getElem?_set_ne (Ne.symm hj)]

theorem mem_moved {calls : List Call} {i : Nat} {call' other : Call}
    (h : other ∈ calls.set i call') : other = call' ∨ other ∈ calls := by
  exact (List.mem_or_eq_of_mem_set h).symm

/-- The phases that follow a phase. -/
inductive PhaseMove : Word → Word → Prop where
  | same (phase : Word) : PhaseMove phase phase
  | current : PhaseMove GENERATION_PREPARING GENERATION_CURRENT
  | retiredEarly : PhaseMove GENERATION_PREPARING GENERATION_RETIRED
  | retired : PhaseMove GENERATION_CURRENT GENERATION_RETIRED

theorem PhaseMove.isPhase {before after : Word} (h : PhaseMove before after)
    (hbefore : IsPhase before) : IsPhase after := by
  cases h with
  | same => exact hbefore
  | current => exact Or.inr (Or.inl rfl)
  | retiredEarly => exact Or.inr (Or.inr rfl)
  | retired => exact Or.inr (Or.inr rfl)

theorem effect_phase {fence fence' : Fence} {call call' : Call}
    (hphase : IsPhase (generationPhase fence.state))
    (hcount : call.counts = true → generationActivityCount fence.state ≠ 0)
    (h : Effect fence call fence' call') :
    PhaseMove (generationPhase fence.state) (generationPhase fence'.state) := by
  cases h with
  | quiet state counts =>
      rw [state]
      exact .same _
  | reserve epoch before after phase room state =>
      rw [state, reserve_phase room]
      exact .same _
  | release before after state =>
      rw [state, release_phase (hcount before)]
      exact .same _
  | current before after preparing state =>
      rw [state, preparing]
      exact .current
  | retire before after phase state =>
      rw [state, retired_phase]
      rcases hphase with hphase | hphase | hphase
      · rw [hphase]
        exact .retiredEarly
      · rw [hphase]
        exact .retired
      · exact absurd hphase phase

theorem effect_count {fence fence' : Fence} {call call' : Call} {calls : List Call} {i : Nat}
    (hcall : calls[i]? = some call) (hcounted : activities fence.state = calls.countP Call.counts)
    (hcount : call.counts = true → generationActivityCount fence.state ≠ 0)
    (h : Effect fence call fence' call') :
    activities fence'.state = (calls.set i call').countP Call.counts := by
  have hset := countP_set_add hcall Call.counts call'
  cases h with
  | quiet state counts =>
      rw [counts] at hset
      rw [state, hcounted]
      omega
  | reserve epoch before after phase room state =>
      have hbefore : call.counts = false := by
        rw [before]
        rfl
      have hafter : call'.counts = true := by
        rw [after]
        rfl
      rw [hbefore, hafter, Bool.toNat_false, Bool.toNat_true] at hset
      rw [state, reserve_activities room, hcounted]
      omega
  | release before after state =>
      have hsub := release_activities (hcount before)
      rw [before, after, Bool.toNat_true, Bool.toNat_false] at hset
      rw [← state, hcounted] at hsub
      omega
  | current before after preparing state =>
      have hzero : activities GENERATION_CURRENT = activities GENERATION_PREPARING := by decide
      have hbefore : call.counts = false := by
        rw [before]
        rfl
      have hafter : call'.counts = false := by
        rw [after]
        rfl
      rw [hbefore, hafter, Bool.toNat_false] at hset
      rw [state, hzero, ← preparing, hcounted]
      omega
  | retire before after phase state =>
      have hsame : activities (retiredWord fence.state) = activities fence.state := by
        unfold activities
        rw [retired_count]
      have hbefore : call.counts = false := by
        rw [before]
        rfl
      have hafter : call'.counts = false := by
        rw [after]
        rfl
      rw [hbefore, hafter, Bool.toNat_false] at hset
      rw [state, hsame, hcounted]
      omega

theorem effect_mutex {fence fence' : Fence} {calls : List Call} {i : Nat} {call call' : Call}
    (hcall : calls[i]? = some call)
    (hmutex : ∀ j, fence.commit = some j ↔ ∃ call, calls[j]? = some call ∧ call.holds = true)
    (h : MutexEffect fence i call fence' call') (j : Nat) :
    fence'.commit = some j ↔ ∃ call, (calls.set i call')[j]? = some call ∧ call.holds = true := by
  have hown : fence.commit = some i ↔ call.holds = true := by
    rw [hmutex, hcall]
    simp
  rw [getElem?_moved hcall]
  by_cases hj : j = i
  · subst hj
    rw [if_pos rfl]
    have hself : (∃ other, some call' = some other ∧ other.holds = true) ↔ call'.holds = true := by
      simp
    rw [hself]
    cases h with
    | kept commit holds => rw [commit, holds, hown]
    | locked free commit before after => simp [commit, after]
    | unlocked commit before after => simp [commit, after]
  · rw [if_neg hj, ← hmutex]
    cases h with
    | kept commit holds => rw [commit]
    | locked free commit before after =>
        rw [commit, free]
        simp [Ne.symm hj]
    | unlocked commit before after =>
        rw [commit, hown.2 before]
        simp [Ne.symm hj]

theorem release_notOpen {fence fence' : Fence} {notifying done call' : Call} {owner : Nat}
    (hnotifying : notifying ≠ .commitOpen owner) (hdone : done ≠ .commitOpen owner)
    (h : release fence notifying done = (fence', call')) : call' ≠ .commitOpen owner := by
  unfold release at h
  split at h
  · cases h
    nofun
  · cases h
    split
    · exact hnotifying
    · exact hdone

/-- A commit opens on a current generation. -/
theorem advance_open {fence fence' : Fence} {i owner : Nat} {flag : Bool} {call : Call}
    (h : advance fence i flag call = some (fence', .commitOpen owner)) :
    fence'.state = fence.state ∧ generationPhase fence.state = GENERATION_CURRENT := by
  cases call with
  | commitLoading borrowed =>
      dsimp only [advance] at h
      split at h
      · cases h
      · rename_i hphase
        cases h
        exact ⟨rfl, not_not.1 hphase⟩
  | enterRollback =>
      have hrelease : release fence .enterNotifying .enterRefused =
          (fence', .commitOpen owner) := Option.some.inj h
      exact absurd rfl (release_notOpen (by nofun) (by nofun) hrelease)
  | activity epoch =>
      have hrelease : release fence .activityNotifying .activityDropped =
          (fence', .commitOpen owner) := Option.some.inj h
      exact absurd rfl (release_notOpen (by nofun) (by nofun) hrelease)
  | beginCommit borrowed =>
      dsimp only [advance] at h
      split at h
      · obtain ⟨-, hcall⟩ := Prod.mk.inj (Option.some.inj h)
        split at hcall <;> cases hcall
      · cases h
  | _ =>
      dsimp only [advance] at h
      repeat' split at h
      all_goals cases h

/-- A call that holds the mutex is the only one. -/
theorem Fenced.holds_unique {s : System} (h : Fenced s) {i j : Nat} {call other : Call}
    (hcall : s.calls[i]? = some call) (hholds : call.holds = true)
    (hother : s.calls[j]? = some other) (hotherHolds : other.holds = true) : i = j := by
  have hi := (h.mutex i).2 ⟨call, hcall, hholds⟩
  have hj := (h.mutex j).2 ⟨other, hother, hotherHolds⟩
  rw [hi] at hj
  exact Option.some.inj hj

/-- The operation of a call in a system that satisfies the invariant. -/
theorem Fenced.effect {s : System} (h : Fenced s) {i : Nat} {flag : Bool} {call call' : Call}
    {fence' : Fence} (hcall : s.calls[i]? = some call)
    (hadvance : advance s.fence i flag call = some (fence', call')) :
    Effect s.fence call fence' call' :=
  advance_effect (fun hcounts => h.counted (List.mem_of_getElem? hcall) hcounts) hadvance

/-- No operation changes the phase while a commit is open. -/
theorem Fenced.open_phase {s : System} (h : Fenced s) {i j owner : Nat} {flag : Bool}
    {call call' : Call} {fence' : Fence} (hcall : s.calls[i]? = some call)
    (hadvance : advance s.fence i flag call = some (fence', call'))
    (hopen : s.calls[j]? = some (.commitOpen owner)) :
    generationPhase fence'.state = generationPhase s.fence.state := by
  have hcurrent := h.commitOpen owner (List.mem_of_getElem? hopen)
  cases h.effect hcall hadvance with
  | quiet state counts => rw [state]
  | reserve epoch before after phase room state => rw [state, reserve_phase room]
  | release before after state =>
      rw [state, release_phase (h.counted (List.mem_of_getElem? hcall) before)]
  | current before after preparing state =>
      rw [preparing] at hcurrent
      exact absurd hcurrent (by decide)
  | retire before after phase state =>
      subst before
      have hsame := h.holds_unique hcall rfl hopen rfl
      rw [← hsame, hcall] at hopen
      cases hopen

theorem tick_fenced {s t : System} {i : Nat} {flag : Bool} (h : Fenced s)
    (hstep : step s (.tick i flag) = some t) : Fenced t := by
  obtain ⟨call, fence', call', hcall, hadvance, rfl⟩ := step_tick hstep
  have heffect := h.effect hcall hadvance
  have hcount : call.counts = true → generationActivityCount s.fence.state ≠ 0 :=
    fun hcounts => h.counted (List.mem_of_getElem? hcall) hcounts
  refine ⟨effect_count hcall h.count hcount heffect, ?_, ?_, ?_, ?_⟩
  · exact (effect_phase h.phase hcount heffect).isPhase h.phase
  · exact effect_mutex hcall h.mutex (advance_mutex hadvance)
  · intro owner hmem
    rcases mem_moved hmem with hmoved | hmem
    · subst hmoved
      obtain ⟨hstate, hphase⟩ := advance_open hadvance
      rw [hstate]
      exact hphase
    · obtain ⟨j, hj⟩ := List.getElem?_of_mem hmem
      rw [h.open_phase hcall hadvance hj]
      exact h.commitOpen owner hmem
  · intro other hmem epoch hepoch
    rcases mem_moved hmem with rfl | hmem
    · rcases (advance_enters hepoch hadvance).epoch with hkept | ⟨-, hstable⟩
      · exact h.epoch call (List.mem_of_getElem? hcall) epoch hkept
      · exact hstable
    · exact h.epoch other hmem epoch hepoch

/-- A call that starts holds nothing. -/
theorem start_idle (start : Start) : start.call.counts = false ∧ start.call.holds = false ∧
    start.call.epoch = none ∧ ∀ owner, start.call ≠ .commitOpen owner := by
  cases start with
  | enter => exact ⟨rfl, rfl, rfl, nofun⟩
  | beginCommit activity => exact ⟨rfl, rfl, rfl, nofun⟩
  | markRetired => exact ⟨rfl, rfl, rfl, nofun⟩
  | closePublication => exact ⟨rfl, rfl, rfl, nofun⟩
  | waitDrained => exact ⟨rfl, rfl, rfl, nofun⟩

theorem start_fenced {s : System} (h : Fenced s) (start : Start) :
    Fenced { s with calls := s.calls ++ [start.call] } := by
  obtain ⟨hcounts, hholds, hepoch, hopen⟩ := start_idle start
  refine ⟨?_, h.phase, ?_, ?_, ?_⟩
  · have hnone : [start.call].countP Call.counts = 0 := by simp [hcounts]
    rw [List.countP_append, hnone, h.count]
    rfl
  · intro i
    rw [h.mutex]
    constructor
    · rintro ⟨call, hcall, hown⟩
      refine ⟨call, ?_, hown⟩
      rw [List.getElem?_append_left (List.getElem?_eq_some_iff.1 hcall).1]
      exact hcall
    · rintro ⟨call, hcall, hown⟩
      refine ⟨call, ?_, hown⟩
      by_cases hi : i < s.calls.length
      · rwa [List.getElem?_append_left hi] at hcall
      · rw [List.getElem?_append_right (by omega)] at hcall
        rw [List.mem_singleton.1 (List.mem_of_getElem? hcall), hholds] at hown
        cases hown
  · intro owner hmem
    rcases List.mem_append.1 hmem with hmem | hmem
    · exact h.commitOpen owner hmem
    · exact absurd (List.mem_singleton.1 hmem).symm (hopen owner)
  · intro call hmem epoch hloaded
    rcases List.mem_append.1 hmem with hmem | hmem
    · exact h.epoch call hmem epoch hloaded
    · rw [List.mem_singleton.1 hmem, hepoch] at hloaded
      cases hloaded

theorem step_fenced (s : System) (label : Label) (t : System) (h : Fenced s)
    (hstep : step s label = some t) : Fenced t := by
  cases label with
  | tick i flag => exact tick_fenced h hstep
  | publish epoch =>
      dsimp only [step] at hstep
      split at hstep
      · cases hstep
        exact ⟨h.count, h.phase, h.mutex, h.commitOpen, h.epoch⟩
      · cases hstep
  | start start =>
      dsimp only [step] at hstep
      split at hstep
      · cases hstep
        exact start_fenced h start
      · cases hstep

theorem reaches_fenced {publicationState : Word} {s : System}
    (h : Reaches step (init publicationState) s) : Fenced s :=
  h.preserves step_fenced (init_fenced publicationState)

/-! ## Phases -/

/-- The fence of a step that is no operation of a call. -/
theorem step_state {s t : System} {label : Label} (hlabel : ∀ i flag, label ≠ .tick i flag)
    (hstep : step s label = some t) : t.fence.state = s.fence.state := by
  cases label with
  | tick i flag => exact absurd rfl (hlabel i flag)
  | start start =>
      dsimp only [step] at hstep
      split at hstep <;> cases hstep
      rfl
  | publish epoch =>
      dsimp only [step] at hstep
      split at hstep <;> cases hstep
      rfl

theorem Fenced.phaseMove {s t : System} {label : Label} (h : Fenced s)
    (hstep : step s label = some t) :
    PhaseMove (generationPhase s.fence.state) (generationPhase t.fence.state) := by
  by_cases hlabel : ∃ i flag, label = .tick i flag
  · obtain ⟨i, flag, rfl⟩ := hlabel
    obtain ⟨call, fence', call', hcall, hadvance, rfl⟩ := step_tick hstep
    exact effect_phase h.phase (fun hcounts => h.counted (List.mem_of_getElem? hcall) hcounts)
      (h.effect hcall hadvance)
  · rw [step_state (fun i flag heq => hlabel ⟨i, flag, heq⟩) hstep]
    exact .same _

/-- No commit is open where the generation retires. -/
theorem Fenced.retires {s t : System} {label : Label} (h : Fenced s)
    (hstep : step s label = some t)
    (hbefore : generationPhase s.fence.state ≠ GENERATION_RETIRED)
    (hafter : generationPhase t.fence.state = GENERATION_RETIRED) (owner : Nat) :
    Call.commitOpen owner ∉ s.calls ∧ Call.commitOpen owner ∉ t.calls := by
  constructor
  · intro hmem
    apply hbefore
    rw [← hafter]
    by_cases hlabel : ∃ i flag, label = .tick i flag
    · obtain ⟨i, flag, rfl⟩ := hlabel
      obtain ⟨call, fence', call', hcall, hadvance, rfl⟩ := step_tick hstep
      obtain ⟨j, hj⟩ := List.getElem?_of_mem hmem
      exact (h.open_phase hcall hadvance hj).symm
    · rw [step_state (fun i flag heq => hlabel ⟨i, flag, heq⟩) hstep]
  · intro hmem
    have hcurrent := (step_fenced s label t h hstep).commitOpen owner hmem
    rw [hafter] at hcurrent
    exact absurd hcurrent (by decide)

/-! ## After retirement -/

theorem PhaseMove.retired_stays {before after : Word} (h : PhaseMove before after)
    (hbefore : before = GENERATION_RETIRED) : after = GENERATION_RETIRED := by
  cases h with
  | same => exact hbefore
  | current => exact absurd hbefore (by decide)
  | retiredEarly => rfl
  | retired => rfl

/-- Calls of a retired generation: no reservation is new. -/
structure Retired (s t : System) : Prop where
  phase : generationPhase t.fence.state = GENERATION_RETIRED
  reserved : ∀ (i : Nat) (call : Call), t.calls[i]? = some call → call.counts = true →
    ∃ before, s.calls[i]? = some before ∧ before.counts = true ∧
      ∀ epoch, call.epoch = some epoch → before.epoch = some epoch
  count : activities t.fence.state ≤ activities s.fence.state

theorem Retired.refl {s : System} (h : generationPhase s.fence.state = GENERATION_RETIRED) :
    Retired s s :=
  ⟨h, fun _ call hcall hcounts => ⟨call, hcall, hcounts, fun _ hepoch => hepoch⟩, Nat.le_refl _⟩

/-- A call that has a reservation after an operation of a retired generation had it
before. -/
theorem Fenced.retired_effect {s : System} (h : Fenced s) {i : Nat} {flag : Bool}
    {call call' : Call} {fence' : Fence} (hcall : s.calls[i]? = some call)
    (hadvance : advance s.fence i flag call = some (fence', call'))
    (hretired : generationPhase s.fence.state = GENERATION_RETIRED) :
    (call'.counts = true → call.counts = true) ∧
      activities fence'.state ≤ activities s.fence.state := by
  cases h.effect hcall hadvance with
  | quiet state counts =>
      rw [state, counts]
      exact ⟨id, Nat.le_of_eq rfl⟩
  | reserve epoch before after phase room state =>
      rw [hretired] at phase
      exact absurd phase (by decide)
  | release before after state =>
      have hsub := release_activities (h.counted (List.mem_of_getElem? hcall) before)
      constructor
      · exact fun _ => before
      · rw [state]
        exact Nat.le_of_lt (by rw [← hsub]; exact Nat.lt_succ_self _)
  | current before after preparing state =>
      rw [preparing] at hretired
      exact absurd hretired (by decide)
  | retire before after phase state => exact absurd hretired phase

theorem Retired.step {s t u : System} {label : Label} (h : Retired s t) (ht : Fenced t)
    (hstep : step t label = some u) : Retired s u := by
  have hphase := (ht.phaseMove hstep).retired_stays h.phase
  by_cases hlabel : ∃ i flag, label = .tick i flag
  · obtain ⟨i, flag, rfl⟩ := hlabel
    obtain ⟨call, fence', call', hcall, hadvance, rfl⟩ := step_tick hstep
    obtain ⟨hcounts, hle⟩ := ht.retired_effect hcall hadvance h.phase
    refine ⟨hphase, fun j other hother hotherCounts => ?_, Nat.le_trans hle h.count⟩
    rw [getElem?_moved hcall] at hother
    by_cases hj : j = i
    · subst hj
      rw [if_pos rfl] at hother
      cases hother
      obtain ⟨before, hbefore, hbeforeCounts, hkeeps⟩ :=
        h.reserved j call hcall (hcounts hotherCounts)
      refine ⟨before, hbefore, hbeforeCounts, fun epoch hepoch => hkeeps epoch ?_⟩
      rcases (advance_enters hepoch hadvance).epoch with hkept | ⟨rfl, -⟩
      · exact hkept
      · exact absurd (hcounts hotherCounts) (by decide)
    · rw [if_neg hj] at hother
      exact h.reserved j other hother hotherCounts
  · have hstate := step_state (fun i flag heq => hlabel ⟨i, flag, heq⟩) hstep
    refine ⟨hphase, fun j other hother hotherCounts => ?_, by rw [hstate]; exact h.count⟩
    cases label with
    | tick i flag => exact absurd ⟨i, flag, rfl⟩ hlabel
    | publish epoch =>
        dsimp only [MCode.Generations.step] at hstep
        split at hstep <;> cases hstep
        exact h.reserved j other hother hotherCounts
    | start start =>
        dsimp only [MCode.Generations.step] at hstep
        split at hstep <;> cases hstep
        dsimp only at hother
        by_cases hj : j < t.calls.length
        · rw [List.getElem?_append_left hj] at hother
          exact h.reserved j other hother hotherCounts
        · rw [List.getElem?_append_right (by omega)] at hother
          rw [List.mem_singleton.1 (List.mem_of_getElem? hother), (start_idle start).1]
            at hotherCounts
          cases hotherCounts

theorem retired_run {s t : System} {labels : List Label} (h : Fenced s)
    (hretired : generationPhase s.fence.state = GENERATION_RETIRED)
    (hrun : run step s labels = some t) : Retired s t :=
  (run_preserves (I := fun t => Fenced t ∧ Retired s t) (P := fun _ => True)
    (fun t label u ht _ hstep => ⟨step_fenced t label u ht.1 hstep, ht.2.step ht.1 hstep⟩)
    (fun _ _ => trivial) ⟨h, .refl hretired⟩ hrun).2

/-- An activity of a retired generation was reserved before it retired. -/
theorem Retired.activity {s t : System} (h : Retired s t) {i : Nat} {epoch : Word}
    (hactivity : t.calls[i]? = some (.activity epoch)) :
    s.calls[i]? = some (.enterReserved epoch) ∨ s.calls[i]? = some (.activity epoch) := by
  obtain ⟨before, hbefore, hcounts, hkeeps⟩ := h.reserved i _ hactivity rfl
  have hepoch := hkeeps epoch rfl
  cases before with
  | enterReserved loaded =>
      cases hepoch
      exact Or.inl hbefore
  | activity loaded =>
      cases hepoch
      exact Or.inr hbefore
  | enterRollback => cases hepoch
  | _ => cases hcounts

end MCode.Generations
