import MCode.Tools.Accounting

/-!
# Searching files keeps the books

The search of a file is a run of the operations that the books account for: it
begins with a fresh sink, reads, reports lines, and ends in one of the three
ways.  Reading changes the budget of the bytes read and may stop the search, and
nothing else.
-/

namespace MCode.Tools

open MCode.Lib
open MCode.Lib.TopN (Greatest)

/-! ## Reading -/

/-- Reading charges the scan budget, and may stop the search. -/
structure WalkLimiter.Reads (limiter after : WalkLimiter) : Prop where
  same : after = { limiter with
    claimed := after.claimed, quit := after.quit, stopReason := after.stopReason }
  going : after.quit = false → limiter.quit = false ∧ after.stopReason = limiter.stopReason

theorem WalkLimiter.Reads.refl (limiter : WalkLimiter) : limiter.Reads limiter :=
  ⟨rfl, fun h => ⟨h, rfl⟩⟩

theorem WalkLimiter.Reads.trans {first second third : WalkLimiter} (h : first.Reads second)
    (h' : second.Reads third) : first.Reads third := by
  constructor
  · rw [h'.same, h.same]
  · intro hgoing
    obtain ⟨hquit, hreason⟩ := h'.going hgoing
    obtain ⟨hfirst, hsecond⟩ := h.going hquit
    exact ⟨hfirst, hreason.trans hsecond⟩

theorem WalkLimiter.stop_reads (limiter : WalkLimiter) (reason : String) :
    limiter.Reads (limiter.stop reason) :=
  ⟨rfl, fun h => by cases h⟩

theorem WalkLimiter.check_reads (limiter : WalkLimiter) (interrupted : Option Interrupt) :
    limiter.Reads (limiter.check interrupted).2 := by
  unfold WalkLimiter.check
  by_cases hquit : limiter.quit = true
  · rw [if_pos hquit]
    exact Reads.refl limiter
  · rw [if_neg hquit]
    cases interrupted with
    | none => exact Reads.refl limiter
    | some interrupt => exact limiter.stop_reads _

theorem WalkLimiter.reserveScan_reads (limiter : WalkLimiter) (requested cap : Nat) :
    limiter.Reads (limiter.reserveScan requested cap).2 := by
  unfold WalkLimiter.reserveScan
  by_cases hzero : requested = 0
  · rw [if_pos hzero]
    exact Reads.refl limiter
  · rw [if_neg hzero]
    by_cases hfull : cap ≤ limiter.claimed
    · rw [if_pos hfull]
      exact Reads.refl limiter
    · rw [if_neg hfull]
      exact ⟨rfl, fun h => ⟨h, rfl⟩⟩

theorem WalkLimiter.settleScan_reads (limiter : WalkLimiter) (reserved actual : Nat) :
    limiter.Reads (limiter.settleScan reserved actual) :=
  ⟨rfl, fun h => ⟨h, rfl⟩⟩

namespace PolledReader

theorem read_reads (reader : PolledReader) (limiter : WalkLimiter) (scanCap length : Nat) :
    limiter.Reads (reader.read limiter scanCap length).2.2 := by
  unfold read
  by_cases hzero : length = 0
  · rw [if_pos hzero]
    exact WalkLimiter.Reads.refl limiter
  · rw [if_neg hzero]
    have hcheck := limiter.check_reads (reader.file.interrupted reader.asked.length)
    generalize limiter.check (reader.file.interrupted reader.asked.length) = checked at hcheck ⊢
    obtain ⟨stopped, checked⟩ := checked
    cases stopped with
    | true => exact hcheck
    | false =>
        have hreserve := checked.reserveScan_reads length scanCap
        dsimp only
        generalize checked.reserveScan length scanCap = reserved at hreserve ⊢
        obtain ⟨granted, reserved⟩ := reserved
        have hboth := hcheck.trans hreserve
        cases granted with
        | none => exact hboth.trans (reserved.stop_reads _)
        | some granted =>
            simp only
            split
            · exact hboth.trans (reserved.settleScan_reads _ _)
            · exact hboth.trans (reserved.settleScan_reads _ _)

theorem drainWithin_reads (scanCap fuel : Nat) (reader : PolledReader) (limiter : WalkLimiter) :
    limiter.Reads (drainWithin scanCap fuel reader limiter).2.2 := by
  induction fuel generalizing reader limiter with
  | zero => exact WalkLimiter.Reads.refl limiter
  | succ fuel ih =>
      unfold drainWithin
      by_cases hdone : (reader.eofSeen || reader.nulSeen) = true
      · rw [if_pos hdone]
        exact WalkLimiter.Reads.refl limiter
      · rw [if_neg hdone]
        have hread := reader.read_reads limiter scanCap (8 * 1024)
        generalize reader.read limiter scanCap (8 * 1024) = answer at hread ⊢
        obtain ⟨answer, after, charged⟩ := answer
        cases answer with
        | error error => exact hread
        | ok bytes =>
            simp only
            by_cases hempty : bytes.isEmpty = true
            · rw [if_pos hempty]
              exact hread
            · rw [if_neg hempty]
              exact hread.trans (ih after charged)

theorem classifyRest_reads (reader : PolledReader) (limiter : WalkLimiter) (scanCap : Nat) :
    limiter.Reads (reader.classifyRest limiter scanCap).2 := by
  have hdrain : limiter.Reads (if !reader.eofSeen then reader.drainClassification limiter scanCap
      else (.ok (), reader, limiter)).2.2 := by
    by_cases heof : reader.eofSeen = true
    · simpa [heof] using WalkLimiter.Reads.refl limiter
    · have hrest : limiter.Reads (reader.drainClassification limiter scanCap).2.2 :=
        drainWithin_reads scanCap _ reader limiter
      simpa [heof] using hrest
  unfold classifyRest
  generalize (if !reader.eofSeen then reader.drainClassification limiter scanCap
    else (.ok (), reader, limiter)) = drained at hdrain ⊢
  obtain ⟨result, last, drained⟩ := drained
  cases result with
  | error error => exact hdrain
  | ok done =>
      simp only
      split
      · exact hdrain
      · split
        · exact hdrain
        · exact hdrain

end PolledReader

/-! ## The search of a file -/

namespace Searching

variable {limits : Limits} {cap : Nat}

theorem Kept.reads {search : Searching} (h : search.Kept limits cap) {limiter : WalkLimiter}
    (hreads : search.state.limiter.Reads limiter) :
    ({ search with state := { search.state with limiter := limiter } } : Searching).Kept
      limits cap := by
  rw [hreads.same]
  exact ⟨⟨h.charged.resultBytes, h.charged.within, h.charged.word, h.charged.sound⟩, h.max,
    h.coherent, h.beside, h.slots, h.slots_le, h.limit, h.smallest⟩

theorem Kept.binary {search : Searching} (h : search.Kept limits cap) {sink : FileSink}
    (hsink : search.sink = some sink) :
    ({ search with sink := some { sink with binary := true } } : Searching).Kept limits cap := by
  have hcharged := h.charged
  have hslots := h.slots
  have hbeside := h.beside sink hsink
  rw [retained_some hsink] at hcharged
  rw [provisionalMatches_some hsink] at hslots
  refine ⟨hcharged, h.max, h.coherent, ?_, hslots, h.slots_le, h.limit, h.smallest⟩
  intro other hother
  injection hother with hother
  subst hother
  exact ⟨hbeside.own, hbeside.charged, hbeside.apart⟩

theorem freshAddress_free (heap : List LineMatch) (path : PathOrderKey) :
    heapHasPath heap ⟨freshAddress heap, path⟩ = false := by
  have hlt : ∀ line ∈ heap, line.path.address < freshAddress heap := by
    unfold freshAddress
    induction heap with
    | nil => exact fun line hline => absurd hline List.not_mem_nil
    | cons first heap ih =>
        intro line hline
        rw [List.map_cons, List.foldr_cons]
        cases hline with
        | head => omega
        | tail _ hline =>
            have hrest := ih line hline
            omega
  rw [heapHasPath, List.any_eq_false]
  intro line hline
  have hne := (hlt line hline).ne
  simpa [Arc.ptrEq] using hne

/-- A search between two files. -/
def between (state : SearchState) (offered : List LineMatch) : Searching :=
  ⟨state, none, offered⟩

/-- A search in the middle of a file. -/
def within (state : SearchState) (sink : FileSink) (offered : List LineMatch) : Searching :=
  ⟨state, some sink, offered⟩

theorem Kept.beginFile {state : SearchState} {offered : List LineMatch}
    (h : (between state offered).Kept limits cap) (path : PathOrderKey) :
    (within state (beginFile path state) offered).Kept limits cap :=
  h.begin rfl (freshAddress_free _ _)

/-- What a search of a file changes: the slots and the limiter, which may have been stopped. -/
structure Searches (state after : SearchState) : Prop where
  same : after = { state with matchSlots := after.matchSlots, limiter := after.limiter }
  going : after.limiter.quit = false →
    state.limiter.quit = false ∧ after.limiter.stopReason = state.limiter.stopReason
  max : after.limiter.maxResultBytes = state.limiter.maxResultBytes

theorem Searches.refl (state : SearchState) : Searches state state :=
  ⟨rfl, fun h => ⟨h, rfl⟩, rfl⟩

theorem Searches.trans {first second third : SearchState} (h : Searches first second)
    (h' : Searches second third) : Searches first third := by
  constructor
  · rw [h'.same, h.same]
  · intro hgoing
    obtain ⟨hquit, hreason⟩ := h'.going hgoing
    obtain ⟨hfirst, hsecond⟩ := h.going hquit
    exact ⟨hfirst, hreason.trans hsecond⟩
  · exact h'.max.trans h.max

theorem Searches.reads {state : SearchState} {limiter : WalkLimiter}
    (h : state.limiter.Reads limiter) : Searches state { state with limiter := limiter } := by
  have hmax : limiter.maxResultBytes = state.limiter.maxResultBytes := by rw [h.same]
  exact ⟨rfl, h.going, hmax⟩

/-- The search between two steps within a file. -/
structure Searched (limits : Limits) (cap : Nat) (offered : List LineMatch)
    (state : SearchState) (sink : FileSink) (after : SearchState) (last : FileSink) : Prop where
  kept : (within after last offered).Kept limits cap
  searches : Searches state after
  path : last.path = sink.path

theorem Searched.refl {offered : List LineMatch} {state : SearchState} {sink : FileSink}
    (h : (within state sink offered).Kept limits cap) :
    Searched limits cap offered state sink state sink :=
  ⟨h, Searches.refl state, rfl⟩

theorem Searched.trans {offered : List LineMatch} {first second third : SearchState}
    {sink next last : FileSink} (h : Searched limits cap offered first sink second next)
    (h' : Searched limits cap offered second next third last) :
    Searched limits cap offered first sink third last :=
  ⟨h'.kept, h.searches.trans h'.searches, h'.path.trans h.path⟩

theorem Kept.searched_matched {offered : List LineMatch} {state next : SearchState}
    {sink after : FileSink} {line : SinkMatch} {goOn : Bool}
    (h : (within state sink offered).Kept limits cap)
    (hmatched : sink.matchedEvent limits cap state line = some (goOn, after, next)) :
    Searched limits cap offered state sink next after := by
  have hkept : (within next after offered).Kept limits cap := h.matched rfl hmatched
  have hbeside := h.beside sink rfl
  rcases FileSink.matchedEvent_cases hmatched with
    ⟨-, -, rfl, rfl⟩ | ⟨-, kept, hkeep, -, rfl⟩
  · exact ⟨hkept, Searches.refl _, rfl⟩
  · obtain ⟨hnext, hlimiter, -, -, -, hpath⟩ :=
      @FileSink.keepLine_keeps _ _ { sink with reservedMatches := sink.reservedMatches + 1 } kept
        { state with matchSlots := state.matchSlots + 1 } next line
        h.charged ⟨hbeside.own, hbeside.charged, hbeside.apart⟩ hkeep
    refine ⟨hkept, ⟨?_, ?_, ?_⟩, ?_⟩
    · rw [hnext]
    · rw [hlimiter]
      exact fun hgoing => ⟨hgoing, rfl⟩
    · rw [hlimiter]
    · exact hpath

/-- The searcher keeps the books, whatever it reads and reports. -/
theorem Kept.searchReader {offered : List LineMatch} (search : Search) {reader last : PolledReader}
    {state after : SearchState} {sink kept : FileSink} {result : Except IoError Unit}
    (h : (within state sink offered).Kept limits cap)
    (hrun : MCode.Tools.searchReader limits cap search reader sink state =
      some (result, last, kept, after)) :
    Searched limits cap offered state sink after kept := by
  induction search generalizing reader sink state with
  | done answer =>
      injection hrun with hrun
      obtain ⟨-, -, rfl, rfl⟩ : _ ∧ _ ∧ sink = kept ∧ state = after := by simpa using hrun
      exact Searched.refl h
  | read length next ih =>
      have hreads := reader.read_reads state.limiter limits.scanBytes length
      have hread : Searched limits cap offered state sink
          { state with limiter := (reader.read state.limiter limits.scanBytes length).2.2 } sink :=
        ⟨h.reads hreads, Searches.reads hreads, rfl⟩
      exact hread.trans (ih _ hread.kept hrun)
  | matched line next ih =>
      obtain ⟨⟨goOn, sink', state'⟩, hmatched, hrun⟩ := Option.bind_eq_some_iff.1 hrun
      have hstep := h.searched_matched hmatched
      exact hstep.trans (ih _ hstep.kept hrun)
  | binaryData next ih =>
      have hbinary : Searched limits cap offered state sink state { sink with binary := true } :=
        ⟨h.binary rfl, Searches.refl state, rfl⟩
      exact hbinary.trans (ih _ hbinary.kept hrun)

theorem Kept.classify {offered : List LineMatch} {search : Search} {file : OpenedFile}
    {state after : SearchState} {sink kept : FileSink} {kind : Classification}
    (h : (within state sink offered).Kept limits cap)
    (hrun : MCode.Tools.classify limits cap search file sink state = some (kind, kept, after)) :
    Searched limits cap offered state sink after kept := by
  obtain ⟨⟨result, reader, sink', state'⟩, hsearch, hrun⟩ := Option.bind_eq_some_iff.1 hrun
  have hsearched := h.searchReader search hsearch
  by_cases hbinary : (reader.nulSeen || sink'.binary) = true
  · simp only [hbinary, if_true, Option.pure_def, Option.some.injEq, Prod.mk.injEq] at hrun
    obtain ⟨-, rfl, rfl⟩ := hrun
    exact hsearched
  · simp only [hbinary] at hrun
    cases result with
    | error error =>
        simp only [Bool.false_eq_true, if_false, Option.pure_def, Option.some.injEq,
          Prod.mk.injEq] at hrun
        obtain ⟨-, rfl, rfl⟩ := hrun
        exact hsearched
    | ok done =>
        simp only [Bool.false_eq_true, if_false, Option.pure_def, Option.some.injEq,
          Prod.mk.injEq] at hrun
        obtain ⟨-, rfl, rfl⟩ := hrun
        have hreads := reader.classifyRest_reads state'.limiter limits.scanBytes
        exact hsearched.trans ⟨hsearched.kept.reads hreads, Searches.reads hreads, rfl⟩

theorem Kept.searchOpenFile (greatest : Greatest LineMatch.key) {offered : List LineMatch}
    {search : Search} {file : OpenedFile} {path : PathOrderKey} {state after : SearchState}
    {result : Except IoError Unit} (h : (between state offered).Kept limits cap)
    (hrun : MCode.Tools.searchOpenFile limits cap greatest search file path state =
      some (result, after)) :
    ∃ offered', (between after offered').Kept limits cap := by
  obtain ⟨⟨kind, sink, last⟩, hclassify, hrun⟩ := Option.bind_eq_some_iff.1 hrun
  have hkept := ((h.beginFile path).classify hclassify).kept
  have hdiscard : (between (sink.discard last) offered).Kept limits cap := hkept.discard rfl
  have hcommit : (between (sink.commitText cap greatest last) (offered ++ sink.lines)).Kept
      limits cap :=
    hkept.commitText greatest rfl
  cases kind with
  | Binary =>
      injection hrun with hrun
      obtain ⟨-, rfl⟩ := Prod.mk.inj hrun
      exact ⟨offered, hdiscard⟩
  | Failed error =>
      injection hrun with hrun
      obtain ⟨-, rfl⟩ := Prod.mk.inj hrun
      exact ⟨offered, hdiscard⟩
  | Text =>
      cases hhidden : file.isHidden with
      | error error =>
          simp only [hhidden] at hrun
          injection hrun with hrun
          obtain ⟨-, rfl⟩ := Prod.mk.inj hrun
          exact ⟨offered, hdiscard⟩
      | ok hidden =>
          cases hidden with
          | true =>
              simp only [hhidden] at hrun
              injection hrun with hrun
              obtain ⟨-, rfl⟩ := Prod.mk.inj hrun
              exact ⟨offered, hdiscard⟩
          | false =>
              simp only [hhidden] at hrun
              injection hrun with hrun
              obtain ⟨-, rfl⟩ := Prod.mk.inj hrun
              exact ⟨_, hcommit⟩

theorem Kept.record {offered : List LineMatch} {state : SearchState}
    (h : (between state offered).Kept limits cap) (errors : IoErrors) :
    (between { state with ioErrors := errors } offered).Kept limits cap :=
  ⟨h.charged, h.max, h.coherent, h.beside, h.slots, h.slots_le, h.limit, h.smallest⟩

theorem Kept.searchWalked (greatest : Greatest LineMatch.key) {offered : List LineMatch}
    {search : Search} {item : WalkedFile} {state after : SearchState}
    (h : (between state offered).Kept limits cap)
    (hrun : MCode.Tools.searchWalked limits cap greatest search item state = some after) :
    ∃ offered', (between after offered').Kept limits cap := by
  have hreads := state.limiter.check_reads item.interrupted
  unfold MCode.Tools.searchWalked at hrun
  generalize state.limiter.check item.interrupted = checked at hreads hrun
  obtain ⟨stopped, limiter⟩ := checked
  have hchecked : (between { state with limiter := limiter } offered).Kept limits cap :=
    h.reads hreads
  cases stopped with
  | true =>
      injection hrun with hrun
      subst hrun
      exact ⟨offered, hchecked⟩
  | false =>
      cases hopened : item.opened with
      | error error =>
          simp only [hopened] at hrun
          by_cases hskip : isHiddenSkip error = true
          · rw [if_pos hskip] at hrun
            injection hrun with hrun
            subst hrun
            exact ⟨offered, hchecked⟩
          · rw [if_neg hskip] at hrun
            injection hrun with hrun
            subst hrun
            exact ⟨offered, hchecked.record _⟩
      | ok file =>
          simp only [hopened] at hrun
          obtain ⟨⟨result, last⟩, hsearch, hrun⟩ := Option.bind_eq_some_iff.1 hrun
          obtain ⟨offered', hkept⟩ := hchecked.searchOpenFile greatest hsearch
          cases result with
          | ok done =>
              injection hrun with hrun
              subst hrun
              exact ⟨offered', hkept⟩
          | error error =>
              simp only at hrun
              split at hrun
              · injection hrun with hrun
                subst hrun
                exact ⟨offered', hkept.record _⟩
              · injection hrun with hrun
                subst hrun
                exact ⟨offered', hkept⟩

/-- After the search of any files the books are in order. -/
theorem Kept.searchFiles (greatest : Greatest LineMatch.key) {offered : List LineMatch}
    {search : Search} {items : List WalkedFile} {state after : SearchState}
    (h : (between state offered).Kept limits cap)
    (hrun : MCode.Tools.searchFiles limits cap greatest search items state = some after) :
    ∃ offered', (between after offered').Kept limits cap := by
  induction items generalizing state offered with
  | nil =>
      injection hrun with hrun
      subst hrun
      exact ⟨offered, h⟩
  | cons item items ih =>
      obtain ⟨next, hitem, hrun⟩ := Option.bind_eq_some_iff.1 hrun
      obtain ⟨offered', hkept⟩ := h.searchWalked greatest hitem
      by_cases hquit : next.limiter.quit = true
      · simp only [hquit, if_true, Option.pure_def, Option.some.injEq] at hrun
        subst hrun
        exact ⟨offered', hkept⟩
      · simp only [hquit] at hrun
        exact ih hkept hrun

end Searching

end MCode.Tools
