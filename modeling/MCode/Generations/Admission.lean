import MCode.Generations.Phases

/-!
# Admission

What the history of a run says of each `enter`: that it has loaded an epoch,
that it has made its reservation, that it was admitted.  The epochs only go
up, so an `enter` that loads one epoch twice has seen no other in between.
-/

namespace MCode.Generations

open MCode.Lib MCode.Lib.Machine

/-! ## Publication epochs -/

theorem step_publication {s t : System} {label : Label} (hstep : step s label = some t) :
    s.fence.publicationState ≤ t.fence.publicationState := by
  have hle (epoch : Word) : epoch ≤ PUBLICATION_CLOSED := by
    rw [BitVec.le_def]
    have hlt := epoch.isLt
    show epoch.toNat ≤ 2 ^ 64 - 1
    omega
  cases label with
  | tick i flag =>
      obtain ⟨call, fence', call', hcall, hadvance, rfl⟩ := step_tick hstep
      rcases advance_publication hadvance with hsame | hclosed
      · rw [hsame]
        exact BitVec.le_refl _
      · rw [hclosed]
        exact hle _
  | publish epoch =>
      dsimp only [step] at hstep
      split at hstep
      · rename_i hlt
        cases hstep
        exact BitVec.le_of_lt hlt
      · cases hstep
  | start start =>
      dsimp only [step] at hstep
      split at hstep <;> cases hstep
      exact BitVec.le_refl _

theorem run_publication {s t : System} {labels : List Label} (h : run step s labels = some t) :
    s.fence.publicationState ≤ t.fence.publicationState :=
  run_preserves (I := fun t => s.fence.publicationState ≤ t.fence.publicationState)
    (P := fun _ => True)
    (fun _ _ _ hle _ hstep => BitVec.le_trans hle (step_publication hstep)) (fun _ _ => trivial)
    (BitVec.le_refl _) h

/-- Between two states of a run with one epoch there is no other. -/
theorem publication_between {s t u : System} {first second : List Label}
    (hfirst : run step s first = some t) (hsecond : run step t second = some u)
    (hsame : s.fence.publicationState = u.fence.publicationState) :
    t.fence.publicationState = s.fence.publicationState := by
  have hle := run_publication hfirst
  have hge := run_publication hsecond
  rw [← hsame] at hge
  exact BitVec.le_antisymm hge hle

theorem run_between {start s t u : System} {before during : List Label}
    (hbefore : run step start before = some s)
    (hduring : run step start (before ++ during) = some t) (rest : List Label)
    (hrest : run step start (before ++ during ++ rest) = some u)
    (hsame : s.fence.publicationState = u.fence.publicationState) :
    t.fence.publicationState = s.fence.publicationState := by
  rw [run_append, hduring] at hrest
  rw [run_append, hbefore] at hduring
  exact publication_between hduring hrest hsame

/-- Call `i` makes a reservation. -/
def Reserves (s : System) (i : Nat) (flag : Bool) (epoch : Word) : Prop :=
  s.calls[i]? = some (.enterTrying epoch s.fence.state) ∧
    ∃ t, step s (.tick i flag) = some t ∧ t.calls[i]? = some (.enterReserved epoch)

/-- In the run, call `i` has loaded the epoch. -/
def Loaded (start : System) (i : Nat) (epoch : Word) (labels : List Label) : Prop :=
  ∃ before flag during s, labels = before ++ .tick i flag :: during ∧
    run step start before = some s ∧ s.calls[i]? = some .enter ∧
    s.fence.publicationState = epoch

/-- In the run, call `i` has loaded the epoch and made its reservation. -/
def ReservedIn (start : System) (i : Nat) (epoch : Word) (labels : List Label) : Prop :=
  ∃ before flag early second late s u,
    labels = before ++ .tick i flag :: (early ++ .tick i second :: late) ∧
    run step start before = some s ∧ s.calls[i]? = some .enter ∧
    s.fence.publicationState = epoch ∧
    run step start (before ++ .tick i flag :: early) = some u ∧ Reserves u i second epoch

/-- In the run, call `i` was admitted: from its first load of the epoch to the second,
with its reservation between them, the epoch does not change. -/
def AdmittedIn (start : System) (i : Nat) (epoch : Word) (labels : List Label) : Prop :=
  ∃ before flag early second late third after s u,
    labels = before ++ .tick i flag :: (early ++ .tick i second :: (late ++
      .tick i third :: after)) ∧
    run step start before = some s ∧ s.calls[i]? = some .enter ∧
    run step start (before ++ .tick i flag :: early) = some u ∧ Reserves u i second epoch ∧
    ∀ during rest w, early ++ .tick i second :: late = during ++ rest →
      run step start (before ++ .tick i flag :: during) = some w →
      w.fence.publicationState = epoch

/-- What the history of a run says of each call of `enter`. -/
structure Entered (start : System) (labels : List Label) (t : System) : Prop where
  loaded : ∀ (i : Nat) (epoch : Word) (call : Call), t.calls[i]? = some call →
    call.epoch = some epoch → Loaded start i epoch labels
  reserved : ∀ (i : Nat) (epoch : Word), t.calls[i]? = some (.enterReserved epoch) →
    ReservedIn start i epoch labels
  admitted : ∀ (i : Nat) (epoch : Word), t.calls[i]? = some (.activity epoch) →
    AdmittedIn start i epoch labels

theorem Loaded.snoc {start : System} {i : Nat} {epoch : Word} {labels : List Label}
    (h : Loaded start i epoch labels) (label : Label) :
    Loaded start i epoch (labels ++ [label]) := by
  obtain ⟨before, flag, during, s, rfl, hrun, hcall, hepoch⟩ := h
  exact ⟨before, flag, during ++ [label], s, by simp, hrun, hcall, hepoch⟩

theorem ReservedIn.snoc {start : System} {i : Nat} {epoch : Word} {labels : List Label}
    (h : ReservedIn start i epoch labels) (label : Label) :
    ReservedIn start i epoch (labels ++ [label]) := by
  obtain ⟨before, flag, early, second, late, s, u, rfl, hrun, hcall, hepoch, hearly, hreserves⟩ := h
  exact ⟨before, flag, early, second, late ++ [label], s, u, by simp, hrun, hcall, hepoch, hearly,
    hreserves⟩

theorem AdmittedIn.snoc {start : System} {i : Nat} {epoch : Word} {labels : List Label}
    (h : AdmittedIn start i epoch labels) (label : Label) :
    AdmittedIn start i epoch (labels ++ [label]) := by
  obtain ⟨before, flag, early, second, late, third, after, s, u, rfl, hrest⟩ := h
  exact ⟨before, flag, early, second, late, third, after ++ [label], s, u, by simp, hrest⟩

/-- What one operation adds to the history. -/
theorem Entered.tick {start s : System} {labels : List Label} (h : Entered start labels s)
    (hrun : run step start labels = some s) {i : Nat} {flag : Bool} {call call' : Call}
    {fence' : Fence} (hcall : s.calls[i]? = some call)
    (hstep : step s (.tick i flag) = some ⟨fence', s.calls.set i call'⟩)
    (hadvance : advance s.fence i flag call = some (fence', call')) :
    Entered start (labels ++ [.tick i flag]) ⟨fence', s.calls.set i call'⟩ := by
  -- the calls that do not move keep their history
  have hsplit {P : Call → List Label → Prop} (j : Nat) (other : Call)
      (hother : (s.calls.set i call')[j]? = some other)
      (hmoved : j = i → other = call' → P call' (labels ++ [.tick i flag]))
      (hkept : s.calls[j]? = some other → P other labels)
      (hsnoc : P other labels → P other (labels ++ [.tick i flag])) :
      P other (labels ++ [.tick i flag]) := by
    rw [getElem?_moved hcall] at hother
    by_cases hj : j = i
    · rw [if_pos hj] at hother
      cases hother
      exact hmoved hj rfl
    · rw [if_neg hj] at hother
      exact hsnoc (hkept hother)
  refine ⟨fun j epoch other hother hepoch => ?_, fun j epoch hother => ?_,
    fun j epoch hother => ?_⟩
  · refine hsplit (P := fun _ labels => Loaded start j epoch labels) j other hother
      (fun hj hsame => ?_) (fun hkept => h.loaded j epoch other hkept hepoch) (·.snoc _)
    subst hj hsame
    have hstart (loaded : Word) (hsame : s.fence.publicationState = loaded)
        (henter : s.calls[j]? = some .enter) :
        Loaded start j loaded (labels ++ [.tick j flag]) :=
      ⟨labels, flag, [], s, rfl, hrun, henter, hsame⟩
    cases advance_enters hepoch hadvance with
    | load same stable => exact hstart _ same hcall
    | look => exact (h.loaded j epoch _ hcall rfl).snoc _
    | retry state => exact (h.loaded j epoch _ hcall rfl).snoc _
    | reserve => exact (h.loaded j epoch _ hcall rfl).snoc _
    | admitted same => exact (h.loaded j epoch _ hcall rfl).snoc _
  · refine hsplit (P := fun _ labels => ReservedIn start j epoch labels) j _ hother
      (fun hj hsame => ?_) (h.reserved j epoch) (·.snoc _)
    subst hj hsame
    cases advance_enters rfl hadvance with
    | reserve =>
        obtain ⟨before, first, during, loadedAt, hlabels, hbefore, henter, hepoch⟩ :=
          h.loaded j epoch _ hcall rfl
        subst hlabels
        exact ⟨before, first, during, flag, [], loadedAt, s, by simp, hbefore, henter, hepoch,
          hrun, hcall, _, hstep, hother⟩
  · refine hsplit (P := fun _ labels => AdmittedIn start j epoch labels) j _ hother
      (fun hj hsame => ?_) (h.admitted j epoch) (·.snoc _)
    subst hj hsame
    cases advance_enters rfl hadvance with
    | admitted same =>
        obtain ⟨before, first, early, second, late, loadedAt, u, hlabels, hbefore, henter, hepoch,
          hearly, hreserves⟩ := h.reserved j epoch hcall
        subst hlabels
        refine ⟨before, first, early, second, late, flag, [], loadedAt, u, by simp, hbefore, henter,
          hearly, hreserves, fun during rest w hduring hw => ?_⟩
        have hbetween := run_between hbefore hw rest (by simpa [hduring] using hrun)
        rw [hbetween (hepoch.trans same.symm), hepoch]

/-- A call that starts has no history. -/
theorem Entered.start {first s : System} {labels : List Label} (h : Entered first labels s)
    (start : Start) :
    Entered first (labels ++ [.start start]) { s with calls := s.calls ++ [start.call] } := by
  have hold (j : Nat) (call : Call) (epoch : Word) (hepoch : call.epoch = some epoch)
      (hcall : (s.calls ++ [start.call])[j]? = some call) : s.calls[j]? = some call := by
    by_cases hj : j < s.calls.length
    · rwa [List.getElem?_append_left hj] at hcall
    · rw [List.getElem?_append_right (by omega)] at hcall
      rw [List.mem_singleton.1 (List.mem_of_getElem? hcall), (start_idle start).2.2.1] at hepoch
      cases hepoch
  constructor
  · intro j epoch call hcall hepoch
    exact (h.loaded j epoch call (hold j call epoch hepoch hcall) hepoch).snoc _
  · intro j epoch hcall
    exact (h.reserved j epoch (hold j _ epoch rfl hcall)).snoc _
  · intro j epoch hcall
    exact (h.admitted j epoch (hold j _ epoch rfl hcall)).snoc _

theorem init_entered (publicationState : Word) :
    Entered (init publicationState) [] (init publicationState) := by
  have hnone (j : Nat) (call : Call) (hcall : (init publicationState).calls[j]? = some call) :
      call.epoch = none := by
    rw [List.mem_singleton.1 (List.mem_of_getElem? hcall)]
    rfl
  constructor
  · intro j epoch call hcall hepoch
    rw [hnone j call hcall] at hepoch
    cases hepoch
  · intro j epoch hcall
    exact absurd (hnone j _ hcall) (by nofun)
  · intro j epoch hcall
    exact absurd (hnone j _ hcall) (by nofun)

theorem step_entered {start s t : System} {label : Label} {labels : List Label}
    (h : Entered start labels s) (hrun : run step start labels = some s)
    (hstep : step s label = some t) : Entered start (labels ++ [label]) t := by
  cases label with
  | tick i flag =>
      obtain ⟨call, fence', call', hcall, hadvance, rfl⟩ := step_tick hstep
      exact h.tick hrun hcall hstep hadvance
  | start start =>
      dsimp only [step] at hstep
      split at hstep <;> cases hstep
      exact h.start start
  | publish epoch =>
      dsimp only [step] at hstep
      split at hstep <;> cases hstep
      constructor
      · intro j loaded call hcall hepoch
        exact (h.loaded j loaded call hcall hepoch).snoc _
      · intro j loaded hcall
        exact (h.reserved j loaded hcall).snoc _
      · intro j loaded hcall
        exact (h.admitted j loaded hcall).snoc _

theorem run_entered {publicationState : Word} {labels : List Label} {t : System}
    (h : run step (init publicationState) labels = some t) :
    Entered (init publicationState) labels t :=
  run_history (I := fun labels t => Entered (init publicationState) labels t)
    (init_entered publicationState)
    (fun _ _ _ _ hrun h hstep => step_entered h hrun hstep) h

/-! ## The lifecycle -/

/-- The phase goes forward only, and the word counts the calls with a
reservation, that is the live activities and each `enter` from its exchange
until it is admitted or rolled back.  A retired generation admits nobody who
had no reservation, and the generation retires with no commit open.  Each
activity was admitted at an even epoch that did not change. -/
theorem fence_lifecycle (publicationState : Word) (labels : List Label) (s : System)
    (hrun : run step (init publicationState) labels = some s) :
    (activities s.fence.state = s.calls.countP Call.counts ∧
      ∀ call ∈ s.calls, call.counts = true → generationActivityCount s.fence.state ≠ 0) ∧
    (∀ label t, step s label = some t →
      PhaseMove (generationPhase s.fence.state) (generationPhase t.fence.state) ∧
      (generationPhase s.fence.state ≠ GENERATION_RETIRED →
        generationPhase t.fence.state = GENERATION_RETIRED →
        ∀ owner, Call.commitOpen owner ∉ s.calls ∧ Call.commitOpen owner ∉ t.calls)) ∧
    (generationPhase s.fence.state = GENERATION_RETIRED →
      ∀ later t, run step s later = some t →
        (∀ (i : Nat) (epoch : Word), t.calls[i]? = some (.activity epoch) →
          s.calls[i]? = some (.enterReserved epoch) ∨ s.calls[i]? = some (.activity epoch)) ∧
        (activities s.fence.state = 0 → activities t.fence.state = 0)) ∧
    (∀ (i : Nat) (epoch : Word), s.calls[i]? = some (.activity epoch) →
      isEven epoch = true ∧ epoch ≠ PUBLICATION_CLOSED ∧
        AdmittedIn (init publicationState) i epoch labels) := by
  have hfenced : Fenced s := reaches_fenced ⟨labels, hrun⟩
  refine ⟨⟨hfenced.count, fun call hmem => hfenced.counted hmem⟩, fun label t hstep => ?_,
    fun hretired later t hlater => ?_, fun i epoch hactivity => ?_⟩
  · exact ⟨hfenced.phaseMove hstep, hfenced.retires hstep⟩
  · have hkept := retired_run hfenced hretired hlater
    refine ⟨fun i epoch hactivity => hkept.activity hactivity, fun hzero => ?_⟩
    have hle := hkept.count
    omega
  · have hstable := hfenced.epoch _ (List.mem_of_getElem? hactivity) epoch rfl
    exact ⟨hstable.1, hstable.2, (run_entered hrun).admitted i epoch hactivity⟩

/-- One `enter` on a current generation. -/
theorem fence_lifecycle_enter :
    AdmittedIn (init 0) 1 0 [.tick 0 false, .start .enter, .tick 1 false, .tick 1 false,
      .tick 1 false, .tick 1 false] := by
  have hrun : run step (init 0) [.tick 0 false, .start .enter, .tick 1 false, .tick 1 false,
      .tick 1 false, .tick 1 false] =
      some ⟨{ Fence.new 0 with state := 5 }, [.markedCurrent, .activity 0]⟩ := by decide
  obtain ⟨-, -, -, hactivity⟩ := fence_lifecycle 0 _ _ hrun
  exact (hactivity 1 0 rfl).2.2

/-- A `mark_retired` that comes before `mark_current` retires a generation that
is preparing, and an `enter` that has to roll back is counted until it has. -/
theorem retires_while_preparing :
    ((run step (init 0) [.start .markRetired, .tick 1 false, .tick 1 false]).map
        fun s => generationPhase s.fence.state) = some GENERATION_PREPARING ∧
      ((run step (init 0) [.start .markRetired, .tick 1 false, .tick 1 false, .tick 1 false]).map
        fun s => generationPhase s.fence.state) = some GENERATION_RETIRED ∧
      ((run step (init 0) [.tick 0 false, .start .enter, .tick 1 false, .tick 1 false,
          .tick 1 false, .publish 2, .tick 1 false]).map
        fun s => (activities s.fence.state, s.calls)) =
        some (1, [.markedCurrent, .enterRollback]) := by
  decide

end MCode.Generations
