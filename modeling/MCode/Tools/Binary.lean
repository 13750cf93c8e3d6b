import MCode.Tools.GrepRuns

/-!
# Binary files publish nothing

A file that is found to be binary gives back all that its matches have taken: the
bytes of its lines, its path and its slots.  What is left of it are the bytes that
have been read, and the mark of the limiter if one of its lines was refused for
lack of room.  The mark is only ever read by the report, so the search of the
other files goes on as it does without the binary file.
-/

namespace MCode.Tools

open MCode.Lib
open MCode.Lib.TopN (Greatest)

/-! ## The mark is never read

Each step of a search from a marked limiter is the same step from the unmarked
one, and its result is marked.
-/

def WalkLimiter.mark (limiter : WalkLimiter) (marked : Bool) : WalkLimiter :=
  { limiter with resultStoreTruncated := limiter.resultStoreTruncated || marked }

def SearchState.mark (state : SearchState) (marked : Bool) : SearchState :=
  { state with limiter := state.limiter.mark marked }

variable {marked : Bool}

namespace WalkLimiter

theorem tryReserve_mark (limiter : WalkLimiter) (added : Nat) :
    (limiter.mark marked).tryReserveResultBytes added =
      ((limiter.tryReserveResultBytes added).1,
        (limiter.tryReserveResultBytes added).2.mark marked) := by
  unfold tryReserveResultBytes mark
  dsimp only
  split <;> simp

theorem check_mark (limiter : WalkLimiter) (interrupted : Option Interrupt) :
    (limiter.mark marked).check interrupted =
      ((limiter.check interrupted).1, (limiter.check interrupted).2.mark marked) := by
  unfold check
  cases hquit : limiter.quit <;> cases interrupted <;> simp [mark, hquit, stop]

theorem reserveScan_mark (limiter : WalkLimiter) (requested cap : Nat) :
    (limiter.mark marked).reserveScan requested cap =
      ((limiter.reserveScan requested cap).1,
        (limiter.reserveScan requested cap).2.mark marked) := by
  unfold reserveScan mark
  dsimp only
  split
  · rfl
  · split <;> rfl

end WalkLimiter

namespace PolledReader

theorem read_mark (marked : Bool) (reader : PolledReader) (limiter : WalkLimiter)
    (scanCap length : Nat) :
    reader.read (limiter.mark marked) scanCap length =
      ((reader.read limiter scanCap length).1, (reader.read limiter scanCap length).2.1,
        (reader.read limiter scanCap length).2.2.mark marked) := by
  unfold read
  rw [WalkLimiter.check_mark]
  split
  · rfl
  · generalize limiter.check (reader.file.interrupted reader.asked.length) = checked
    obtain ⟨stopped, checked⟩ := checked
    cases stopped with
    | true => rfl
    | false =>
        dsimp only
        rw [WalkLimiter.reserveScan_mark]
        generalize checked.reserveScan length scanCap = reserved
        obtain ⟨granted, reserved⟩ := reserved
        cases granted with
        | none => rfl
        | some granted =>
            dsimp only
            split <;> rfl

theorem drainWithin_mark (scanCap fuel : Nat) (reader : PolledReader) (limiter : WalkLimiter) :
    drainWithin scanCap fuel reader (limiter.mark marked) =
      ((drainWithin scanCap fuel reader limiter).1, (drainWithin scanCap fuel reader limiter).2.1,
        (drainWithin scanCap fuel reader limiter).2.2.mark marked) := by
  induction fuel generalizing reader limiter with
  | zero => rfl
  | succ fuel ih =>
      unfold drainWithin
      rw [read_mark]
      split
      · rfl
      · generalize reader.read limiter scanCap (8 * 1024) = answer
        obtain ⟨answer, after, charged⟩ := answer
        cases answer with
        | error error => rfl
        | ok bytes =>
            dsimp only
            split
            · rfl
            · exact ih after charged

theorem classifyRest_mark (reader : PolledReader) (limiter : WalkLimiter) (scanCap : Nat) :
    reader.classifyRest (limiter.mark marked) scanCap =
      ((reader.classifyRest limiter scanCap).1,
        (reader.classifyRest limiter scanCap).2.mark marked) := by
  have hdrain : (if !reader.eofSeen then reader.drainClassification (limiter.mark marked) scanCap
        else (.ok (), reader, limiter.mark marked)) =
      ((if !reader.eofSeen then reader.drainClassification limiter scanCap
          else (.ok (), reader, limiter)).1,
        (if !reader.eofSeen then reader.drainClassification limiter scanCap
          else (.ok (), reader, limiter)).2.1,
        (if !reader.eofSeen then reader.drainClassification limiter scanCap
          else (.ok (), reader, limiter)).2.2.mark marked) := by
    split
    · exact drainWithin_mark scanCap _ reader limiter
    · rfl
  unfold classifyRest
  rw [hdrain]
  generalize (if !reader.eofSeen then reader.drainClassification limiter scanCap
    else (.ok (), reader, limiter)) = drained
  obtain ⟨result, last, charged⟩ := drained
  cases result with
  | error error => rfl
  | ok done =>
      dsimp only
      split
      · rfl
      · split <;> rfl

end PolledReader

namespace FileSink

variable {limits : Limits} {cap : Nat}

theorem retain_mark (sink : FileSink) (state : SearchState) (candidate : LineMatch) :
    sink.retain (state.mark marked) candidate =
      ((sink.retain state candidate).1, (sink.retain state candidate).2.mark marked) := by
  unfold retain SearchState.mark
  dsimp only
  rw [WalkLimiter.tryReserve_mark]
  generalize state.limiter.tryReserveResultBytes candidate.storeBytes = reserved
  obtain ⟨granted, reserved⟩ := reserved
  cases granted with
  | false => rfl
  | true =>
      dsimp only
      unfold chargePath
      cases hcharged : sink.pathCharged with
      | true => rfl
      | false =>
          dsimp only [Bool.false_eq_true, if_false]
          rw [if_neg (by simp), if_neg (by simp), WalkLimiter.tryReserve_mark]
          generalize reserved.tryReserveResultBytes sink.path.value.storeBytes = both
          obtain ⟨granted, both⟩ := both
          cases granted <;> rfl

/-- The line that is kept, where there is memory for it. -/
theorem keepLine_eq (sink : FileSink) (state : SearchState) (matched : SinkMatch) :
    sink.keepLine limits cap state matched =
      if sink.lines.length < cap then
        (allocate (liveBytes sink state) (sink.candidate limits matched).1.storeBytes).map fun _ =>
          FileSink.retain
            { sink with lineTruncated := sink.lineTruncated || (sink.candidate limits matched).2 }
            state (sink.candidate limits matched).1
      else some (sink, state) := by
  unfold keepLine
  by_cases hroom : sink.lines.length < cap
  · rw [if_pos hroom, if_pos hroom, Option.map_eq_bind]
    rfl
  · rw [if_neg hroom, if_neg hroom]

theorem keepLine_mark (limits : Limits) (cap : Nat) (marked : Bool) (sink : FileSink)
    (state : SearchState) (matched : SinkMatch) :
    sink.keepLine limits cap (state.mark marked) matched =
      (sink.keepLine limits cap state matched).map fun kept => (kept.1, kept.2.mark marked) := by
  have hlive : liveBytes sink (state.mark marked) = liveBytes sink state := rfl
  rw [keepLine_eq, keepLine_eq, hlive]
  by_cases hroom : sink.lines.length < cap
  · rw [if_pos hroom, if_pos hroom]
    cases allocate (liveBytes sink state) (sink.candidate limits matched).1.storeBytes with
    | none => rfl
    | some done => exact congrArg some (retain_mark _ state _)
  · rw [if_neg hroom, if_neg hroom, Option.map_some]

/-- A matching line, where there is a slot for it. -/
theorem matchedEvent_eq (sink : FileSink) (state : SearchState) (matched : SinkMatch) :
    sink.matchedEvent limits cap state matched =
      if state.matchLimit ≤ state.matchSlots then
        some (false, { sink with callbacksStopped := true }, state)
      else
        (FileSink.keepLine limits cap { sink with reservedMatches := sink.reservedMatches + 1 }
          { state with matchSlots := state.matchSlots + 1 } matched).map fun kept =>
            if kept.2.matchLimit ≤ state.matchSlots + 1 then
              (false, { kept.1 with callbacksStopped := true }, kept.2)
            else (true, kept.1, kept.2) := by
  unfold matchedEvent SearchState.reserveMatch
  by_cases hfull : state.matchLimit ≤ state.matchSlots
  · rw [if_pos hfull, if_pos hfull]
  · rw [if_neg hfull, if_neg hfull]

theorem matchedEvent_mark (sink : FileSink) (state : SearchState) (matched : SinkMatch) :
    sink.matchedEvent limits cap (state.mark marked) matched =
      (sink.matchedEvent limits cap state matched).map fun answer =>
        (answer.1, answer.2.1, answer.2.2.mark marked) := by
  rw [matchedEvent_eq, matchedEvent_eq]
  by_cases hfull : state.matchLimit ≤ state.matchSlots
  · rw [if_pos hfull, if_pos (show (state.mark marked).matchLimit ≤ (state.mark marked).matchSlots
      from hfull), Option.map_some]
  · rw [if_neg hfull, if_neg (show ¬(state.mark marked).matchLimit ≤ (state.mark marked).matchSlots
      from hfull)]
    have hkeep := keepLine_mark limits cap marked
      { sink with reservedMatches := sink.reservedMatches + 1 }
      { state with matchSlots := state.matchSlots + 1 } matched
    change Option.map _ (FileSink.keepLine limits cap _ (SearchState.mark
      { state with matchSlots := state.matchSlots + 1 } marked) matched) = _
    rw [hkeep]
    cases FileSink.keepLine limits cap { sink with reservedMatches := sink.reservedMatches + 1 }
        { state with matchSlots := state.matchSlots + 1 } matched with
    | none => rfl
    | some kept =>
        simp only [Option.map_some, Option.some.injEq]
        change (if kept.2.matchLimit ≤ state.matchSlots + 1 then _ else _) = _
        split <;> rfl

theorem releaseResultBytes_mark (state : SearchState) (released : Nat) :
    (state.mark marked).releaseResultBytes released =
      (state.releaseResultBytes released).mark marked := rfl

theorem discard_mark (sink : FileSink) (state : SearchState) :
    sink.discard (state.mark marked) = (sink.discard state).mark marked := by
  have hlines : ∀ (lines : List LineMatch) (state : SearchState),
      lines.foldl (fun state line => state.releaseResultBytes line.storeBytes) (state.mark marked) =
        (lines.foldl (fun state line => state.releaseResultBytes line.storeBytes) state).mark
          marked := by
    intro lines
    induction lines with
    | nil => exact fun state => rfl
    | cons line lines ih =>
        intro state
        rw [List.foldl_cons, List.foldl_cons, releaseResultBytes_mark, ih]
  unfold discard refundRetained releasePathCharge SearchState.releaseProvisional
  rw [hlines]
  split <;> split <;> rfl

theorem commitLine_mark (greatest : Greatest LineMatch.key) (sink : FileSink)
    (state : SearchState) (line : LineMatch) :
    sink.commitLine cap greatest (state.mark marked) line =
      (sink.commitLine cap greatest state line).mark marked := by
  unfold commitLine
  have hheap : (state.mark marked).heap = state.heap := rfl
  rw [hheap]
  split
  · rfl
  · cases greatest.peek state.heap with
    | none => rfl
    | some worst =>
        dsimp only
        split
        · split <;> rfl
        · rfl

theorem commitText_mark (greatest : Greatest LineMatch.key) (sink : FileSink)
    (state : SearchState) :
    sink.commitText cap greatest (state.mark marked) =
      (sink.commitText cap greatest state).mark marked := by
  have hlines : ∀ (lines : List LineMatch) (state : SearchState),
      lines.foldl (sink.commitLine cap greatest) (state.mark marked) =
        (lines.foldl (sink.commitLine cap greatest) state).mark marked := by
    intro lines
    induction lines with
    | nil => exact fun state => rfl
    | cons line lines ih =>
        intro state
        rw [List.foldl_cons, List.foldl_cons, commitLine_mark, ih]
  have hcommit : sink.commitLines cap greatest (sink.settled (state.mark marked)) =
      (sink.commitLines cap greatest (sink.settled state)).mark marked := by
    have hsettled : sink.settled (state.mark marked) = (sink.settled state).mark marked := rfl
    rw [hsettled]
    unfold commitLines releasePathCharge
    rw [hlines]
    split
    · split <;> rfl
    · generalize sink.lines.foldl (sink.commitLine cap greatest) (sink.settled state) = done
      have hheap : (done.mark marked).heap = done.heap := rfl
      dsimp only
      rw [hheap]
      split
      · split <;> rfl
      · rfl
  rw [commitText_eq, commitText_eq, hcommit]
  unfold stopFull
  generalize sink.commitLines cap greatest (sink.settled state) = done
  have hlimit : (done.mark marked).matchLimit = done.matchLimit := rfl
  have htotal : (state.mark marked).totalMatches = state.totalMatches := rfl
  rw [hlimit, htotal]
  split <;> rfl

end FileSink

section

variable {limits : Limits} {cap : Nat}

theorem searchReader_mark (search : Search) (reader : PolledReader) (sink : FileSink)
    (state : SearchState) :
    searchReader limits cap search reader sink (state.mark marked) =
      (searchReader limits cap search reader sink state).map fun answer =>
        (answer.1, answer.2.1, answer.2.2.1, answer.2.2.2.mark marked) := by
  induction search generalizing reader sink state with
  | done result => rfl
  | read length next ih =>
      have hread := reader.read_mark marked state.limiter limits.scanBytes length
      unfold searchReader
      have hlimiter : (state.mark marked).limiter = state.limiter.mark marked := rfl
      rw [hlimiter, hread]
      exact ih (reader.read state.limiter limits.scanBytes length).1
        (reader.read state.limiter limits.scanBytes length).2.1 sink
        { state with limiter := (reader.read state.limiter limits.scanBytes length).2.2 }
  | matched line next ih =>
      unfold searchReader
      rw [FileSink.matchedEvent_mark]
      cases sink.matchedEvent limits cap state line with
      | none => rfl
      | some answer => exact ih _ _ _ _
  | binaryData next ih => exact ih _ _ _ _

theorem classify_mark (search : Search) (file : OpenedFile) (sink : FileSink)
    (state : SearchState) :
    classify limits cap search file sink (state.mark marked) =
      (classify limits cap search file sink state).map fun answer =>
        (answer.1, answer.2.1, answer.2.2.mark marked) := by
  unfold classify
  rw [searchReader_mark]
  cases searchReader limits cap search ⟨file, [], false, false⟩ sink state with
  | none => rfl
  | some answer =>
      obtain ⟨result, reader, kept, after⟩ := answer
      simp only [Option.map_some, Option.bind_eq_bind, Option.bind_some]
      split
      · rfl
      · cases result with
        | error error => rfl
        | ok done =>
            have hlimiter : (after.mark marked).limiter = after.limiter.mark marked := rfl
            dsimp only
            rw [hlimiter, PolledReader.classifyRest_mark]
            rfl

theorem searchOpenFile_mark (limits : Limits) (cap : Nat) (marked : Bool)
    (greatest : Greatest LineMatch.key) (search : Search) (file : OpenedFile)
    (path : PathOrderKey) (state : SearchState) :
    searchOpenFile limits cap greatest search file path (state.mark marked) =
      (searchOpenFile limits cap greatest search file path state).map fun answer =>
        (answer.1, answer.2.mark marked) := by
  have hbegin : beginFile path (state.mark marked) = beginFile path state := rfl
  unfold searchOpenFile
  rw [hbegin, classify_mark]
  cases classify limits cap search file (beginFile path state) state with
  | none => rfl
  | some answer =>
      obtain ⟨kind, sink, after⟩ := answer
      simp only [Option.map_some, Option.bind_eq_bind, Option.bind_some]
      cases kind with
      | Binary => rw [FileSink.discard_mark]; rfl
      | Failed error =>
          dsimp only [FileSink.drop]
          rw [FileSink.discard_mark]
          rfl
      | Text =>
          dsimp only [FileSink.drop]
          rw [FileSink.discard_mark, FileSink.commitText_mark]
          cases file.isHidden with
          | error error => rfl
          | ok hidden => cases hidden <;> rfl

theorem searchWalked_mark (greatest : Greatest LineMatch.key) (search : Search)
    (item : WalkedFile) (state : SearchState) :
    searchWalked limits cap greatest search item (state.mark marked) =
      (searchWalked limits cap greatest search item state).map fun after => after.mark marked := by
  unfold searchWalked
  have hlimiter : (state.mark marked).limiter = state.limiter.mark marked := rfl
  rw [hlimiter, WalkLimiter.check_mark]
  generalize state.limiter.check item.interrupted = checked
  obtain ⟨stopped, limiter⟩ := checked
  cases stopped with
  | true => rfl
  | false =>
      dsimp only
      cases item.opened with
      | error error =>
          dsimp only
          split <;> rfl
      | ok file =>
          have hsearch := searchOpenFile_mark limits cap marked
            greatest search file (PathOrderKey.fromPath item.relative)
            { state with limiter := limiter }
          dsimp only
          change Option.bind (searchOpenFile limits cap greatest search file
            (PathOrderKey.fromPath item.relative)
            (SearchState.mark { state with limiter := limiter } marked)) _ = _
          rw [hsearch]
          cases searchOpenFile limits cap greatest search file
            (PathOrderKey.fromPath item.relative) { state with limiter := limiter } with
          | none => rfl
          | some answer =>
              obtain ⟨result, after⟩ := answer
              simp only [Option.map_some, Option.bind_eq_bind, Option.bind_some]
              cases result with
              | ok done => rfl
              | error error =>
                  have hquit : (after.mark marked).limiter.quit = after.limiter.quit := rfl
                  dsimp only
                  rw [hquit]
                  split <;> rfl

theorem searchFiles_mark (greatest : Greatest LineMatch.key) (search : Search)
    (items : List WalkedFile) (state : SearchState) :
    searchFiles limits cap greatest search items (state.mark marked) =
      (searchFiles limits cap greatest search items state).map fun after => after.mark marked := by
  induction items generalizing state with
  | nil => rfl
  | cons item items ih =>
      unfold searchFiles
      rw [searchWalked_mark]
      cases searchWalked limits cap greatest search item state with
      | none => rfl
      | some after =>
          have hquit : (after.mark marked).limiter.quit = after.limiter.quit := rfl
          simp only [Option.map_some, Option.bind_eq_bind, Option.bind_some]
          rw [hquit]
          split
          · rfl
          · exact ih after

/-! ## When a line is refused -/

/-- The line is counted and would be kept, but there is no room for it. -/
def FileSink.Refused (limits : Limits) (cap : Nat) (sink : FileSink) (state : SearchState)
    (matched : SinkMatch) : Prop :=
  state.matchSlots < state.matchLimit ∧ sink.lines.length < cap ∧
    ¬sink.Fits state (sink.candidate limits matched).1

/-- Some line that the searcher reports is refused. -/
def Search.Refuses (limits : Limits) (cap : Nat) :
    Search → PolledReader → FileSink → SearchState → Prop
  | .done _, _, _, _ => False
  | .read length next, reader, sink, state =>
      let answer := reader.read state.limiter limits.scanBytes length
      (next answer.1).Refuses limits cap answer.2.1 sink { state with limiter := answer.2.2 }
  | .matched line next, reader, sink, state =>
      sink.Refused limits cap state line ∨
        ∃ answer, sink.matchedEvent limits cap state line = some answer ∧
          (next answer.1).Refuses limits cap reader answer.2.1 answer.2.2
  | .binaryData next, reader, sink, state =>
      (next false).Refuses limits cap reader { sink with binary := true } state

/-- Some line of the file is refused. -/
def WalkedFile.Refuses (limits : Limits) (cap : Nat) (search : Search) (item : WalkedFile)
    (state : SearchState) : Prop :=
  item.interrupted.isNone = true ∧ ∃ file, item.opened = .ok file ∧
    search.Refuses limits cap ⟨file, [], false, false⟩
      (beginFile (PathOrderKey.fromPath item.relative) state) state

/-- Some line of one of the files is refused. -/
def RefusesAmong (limits : Limits) (cap : Nat) (greatest : Greatest LineMatch.key)
    (search : Search) : List WalkedFile → SearchState → Prop
  | [], _ => False
  | item :: items, state =>
      item.Refuses limits cap search state ∨
        ∃ next, searchWalked limits cap greatest search item state = some next ∧
          next.limiter.quit = false ∧ RefusesAmong limits cap greatest search items next

end

namespace Searching

variable {limits : Limits} {cap : Nat}

/-- The limiter is marked by a line that is refused. -/
theorem Kept.matched_truncated {offered : List LineMatch} {state next : SearchState}
    {sink after : FileSink} {line : SinkMatch} {goOn : Bool}
    (h : (within state sink offered).Kept limits cap)
    (hmatched : sink.matchedEvent limits cap state line = some (goOn, after, next)) :
    next.limiter.resultStoreTruncated = true ↔
      state.limiter.resultStoreTruncated = true ∨ sink.Refused limits cap state line := by
  have hbeside := h.beside sink rfl
  unfold FileSink.Refused
  rcases FileSink.matchedEvent_cases hmatched with
    ⟨hfull, -, -, rfl⟩ | ⟨hfree, kept, hkeep, -, -⟩
  · simp [not_lt.2 hfull]
  · have hcases := @FileSink.keepLine_cases _ _
      { sink with reservedMatches := sink.reservedMatches + 1 } kept
      { state with matchSlots := state.matchSlots + 1 } next line
      h.charged ⟨hbeside.own, hbeside.charged, hbeside.apart⟩ hkeep
    rcases hcases with ⟨hlines, -, hnext⟩ | ⟨-, hfits, -, hnext⟩ | ⟨hlines, hfits, -, hnext⟩
    · have hmany : ¬sink.lines.length < cap := not_lt.2 hlines
      rw [hnext]
      simp [hmany]
    · have hroom : sink.Fits state (sink.candidate limits line).1 := hfits
      rw [hnext]
      simp [hroom]
    · have hfew : sink.lines.length < cap := hlines
      have hroom : ¬sink.Fits state (sink.candidate limits line).1 := hfits
      rw [hnext]
      simp [hfree, hfew, hroom]

theorem Kept.search_truncated {offered : List LineMatch} (search : Search)
    {reader last : PolledReader} {state after : SearchState} {sink kept : FileSink}
    {result : Except IoError Unit} (h : (within state sink offered).Kept limits cap)
    (hrun : MCode.Tools.searchReader limits cap search reader sink state =
      some (result, last, kept, after)) :
    after.limiter.resultStoreTruncated = true ↔
      state.limiter.resultStoreTruncated = true ∨ search.Refuses limits cap reader sink state := by
  induction search generalizing reader sink state with
  | done answer =>
      injection hrun with hrun
      obtain ⟨-, -, -, rfl⟩ : _ ∧ _ ∧ _ ∧ state = after := by simpa using hrun
      simp [Search.Refuses]
  | read length next ih =>
      have hreads := reader.read_reads state.limiter limits.scanBytes length
      have hkept := h.reads hreads
      have hmark : (reader.read state.limiter limits.scanBytes length).2.2.resultStoreTruncated =
          state.limiter.resultStoreTruncated := by rw [hreads.same]
      rw [ih _ hkept hrun]
      simp only [hmark]
      rfl
  | matched line next ih =>
      obtain ⟨⟨goOn, sink', state'⟩, hmatched, hrun⟩ := Option.bind_eq_some_iff.1 hrun
      rw [ih _ (h.searched_matched hmatched).kept hrun, h.matched_truncated hmatched,
        Search.Refuses, hmatched, or_assoc]
      simp
  | binaryData next ih =>
      exact ih _ (h.binary rfl) hrun

theorem Kept.classify_truncated {offered : List LineMatch} {search : Search} {file : OpenedFile}
    {state after : SearchState} {sink kept : FileSink} {kind : Classification}
    (h : (within state sink offered).Kept limits cap)
    (hrun : MCode.Tools.classify limits cap search file sink state = some (kind, kept, after)) :
    after.limiter.resultStoreTruncated = true ↔
      state.limiter.resultStoreTruncated = true ∨
        search.Refuses limits cap ⟨file, [], false, false⟩ sink state := by
  obtain ⟨⟨result, reader, sink', state'⟩, hsearch, hrun⟩ := Option.bind_eq_some_iff.1 hrun
  have htruncated := h.search_truncated search hsearch
  by_cases hbinary : (reader.nulSeen || sink'.binary) = true
  · simp only [hbinary, if_true, Option.pure_def, Option.some.injEq, Prod.mk.injEq] at hrun
    obtain ⟨-, -, rfl⟩ := hrun
    exact htruncated
  · simp only [hbinary] at hrun
    cases result with
    | error error =>
        simp only [Bool.false_eq_true, if_false, Option.pure_def, Option.some.injEq,
          Prod.mk.injEq] at hrun
        obtain ⟨-, -, rfl⟩ := hrun
        exact htruncated
    | ok done =>
        simp only [Bool.false_eq_true, if_false, Option.pure_def, Option.some.injEq,
          Prod.mk.injEq] at hrun
        obtain ⟨-, -, rfl⟩ := hrun
        have hreads := reader.classifyRest_reads state'.limiter limits.scanBytes
        rw [← htruncated, hreads.same]

/-- The end of a file does not touch the mark. -/
theorem ended_truncated (cap : Nat) (greatest : Greatest LineMatch.key) (sink : FileSink)
    (state : SearchState) :
    (sink.commitText cap greatest state).limiter.resultStoreTruncated =
        state.limiter.resultStoreTruncated ∧
      (sink.discard state).limiter.resultStoreTruncated = state.limiter.resultStoreTruncated := by
  constructor
  · have haside := FileSink.commitLines_aside cap greatest sink (sink.settled state)
    have hdone : (sink.commitLines cap greatest
        (sink.settled state)).limiter.resultStoreTruncated =
          state.limiter.resultStoreTruncated :=
      congrArg (fun state => state.limiter.resultStoreTruncated) haside
    rw [FileSink.commitText_eq, FileSink.stopFull]
    split <;> exact hdone
  · have hlines : ∀ (lines : List LineMatch) (state : SearchState),
        (lines.foldl (fun state line => state.releaseResultBytes line.storeBytes)
          state).limiter.resultStoreTruncated = state.limiter.resultStoreTruncated := by
      intro lines
      induction lines with
      | nil => exact fun state => rfl
      | cons line lines ih =>
          intro state
          rw [List.foldl_cons, ih]
          rfl
    unfold FileSink.discard FileSink.refundRetained FileSink.releasePathCharge
      SearchState.releaseProvisional
    split <;> split <;> exact hlines _ _

theorem Kept.searchOpenFile_truncated (greatest : Greatest LineMatch.key)
    {offered : List LineMatch} {search : Search} {file : OpenedFile} {path : PathOrderKey}
    {state after : SearchState} {result : Except IoError Unit}
    (h : (between state offered).Kept limits cap)
    (hrun : MCode.Tools.searchOpenFile limits cap greatest search file path state =
      some (result, after)) :
    after.limiter.resultStoreTruncated = true ↔
      state.limiter.resultStoreTruncated = true ∨
        search.Refuses limits cap ⟨file, [], false, false⟩ (MCode.Tools.beginFile path state)
          state := by
  obtain ⟨⟨kind, sink, last⟩, hclassify, hrun⟩ := Option.bind_eq_some_iff.1 hrun
  rw [← (h.beginFile path).classify_truncated hclassify]
  obtain ⟨hcommit, hdiscard⟩ := ended_truncated cap greatest sink last
  have hended : after.limiter.resultStoreTruncated = last.limiter.resultStoreTruncated := by
    cases kind with
    | Binary =>
        injection hrun with hrun
        rw [← (Prod.mk.inj hrun).2, hdiscard]
    | Failed error =>
        injection hrun with hrun
        rw [← (Prod.mk.inj hrun).2, FileSink.drop, hdiscard]
    | Text =>
        cases hhidden : file.isHidden with
        | error error =>
            simp only [hhidden] at hrun
            injection hrun with hrun
            rw [← (Prod.mk.inj hrun).2, FileSink.drop, hdiscard]
        | ok hidden =>
            cases hidden with
            | true =>
                simp only [hhidden] at hrun
                injection hrun with hrun
                rw [← (Prod.mk.inj hrun).2, hdiscard]
            | false =>
                simp only [hhidden] at hrun
                injection hrun with hrun
                rw [← (Prod.mk.inj hrun).2, hcommit]
  rw [hended]

theorem Kept.searchWalked_truncated (greatest : Greatest LineMatch.key) {offered : List LineMatch}
    {search : Search} {item : WalkedFile} {state after : SearchState}
    (h : (between state offered).Kept limits cap) (hgoing : state.limiter.quit = false)
    (hrun : MCode.Tools.searchWalked limits cap greatest search item state = some after) :
    after.limiter.resultStoreTruncated = true ↔
      state.limiter.resultStoreTruncated = true ∨ item.Refuses limits cap search state := by
  unfold MCode.Tools.searchWalked WalkLimiter.check at hrun
  rw [if_neg (by simp [hgoing])] at hrun
  unfold WalkedFile.Refuses
  cases hinterrupted : item.interrupted with
  | some interrupt =>
      simp only [hinterrupted, Option.some.injEq] at hrun
      subst hrun
      simp [WalkLimiter.stop]
  | none =>
      simp only [hinterrupted] at hrun
      cases hopened : item.opened with
      | error error =>
          simp only [hopened] at hrun
          by_cases hskip : isHiddenSkip error = true
          · rw [if_pos hskip] at hrun
            injection hrun with hrun
            simp [← hrun]
          · rw [if_neg hskip] at hrun
            injection hrun with hrun
            simp [← hrun]
      | ok file =>
          simp only [hopened] at hrun
          obtain ⟨⟨result, last⟩, hsearch, hrun⟩ := Option.bind_eq_some_iff.1 hrun
          have hlast := h.searchOpenFile_truncated greatest hsearch
          have hsame : after.limiter = last.limiter := by
            cases result with
            | ok done =>
                injection hrun with hrun
                rw [← hrun]
            | error error =>
                simp only at hrun
                split at hrun
                · injection hrun with hrun
                  rw [← hrun]
                · injection hrun with hrun
                  rw [← hrun]
          rw [hsame, hlast]
          simp only [Option.isNone_none, true_and, Except.ok.injEq, exists_eq_left']

theorem Kept.searchFiles_truncated (greatest : Greatest LineMatch.key) {offered : List LineMatch}
    {search : Search} {items : List WalkedFile} {state after : SearchState}
    (h : (between state offered).Kept limits cap) (hgoing : state.limiter.quit = false)
    (hrun : MCode.Tools.searchFiles limits cap greatest search items state = some after) :
    after.limiter.resultStoreTruncated = true ↔
      state.limiter.resultStoreTruncated = true ∨
        RefusesAmong limits cap greatest search items state := by
  induction items generalizing state offered with
  | nil =>
      injection hrun with hrun
      simp [hrun, RefusesAmong]
  | cons item items ih =>
      obtain ⟨next, hitem, hrun⟩ := Option.bind_eq_some_iff.1 hrun
      obtain ⟨offered', hkept⟩ := h.searchWalked greatest hitem
      have hnext := h.searchWalked_truncated greatest hgoing hitem
      unfold RefusesAmong
      rw [hitem, ← or_assoc, ← hnext]
      by_cases hquit : next.limiter.quit = true
      · simp only [hquit, if_true, Option.pure_def, Option.some.injEq] at hrun
        subst hrun
        simp [hquit]
      · rw [Bool.not_eq_true] at hquit
        simp only [hquit] at hrun
        rw [ih hkept hquit hrun]
        simp [hquit]

end Searching

/-! ## A binary file among the others -/

/-- What a search reports, but for the errors of files that could not be read. -/
structure Reported where
  heap : List LineMatch
  totalMatches : Nat
  filesSearched : Nat
  linesTruncated : Bool
  countIncomplete : Bool
  stopReason : Option String
  resultStoreTruncated : Bool
  deriving DecidableEq

def SearchState.reported (state : SearchState) : Reported where
  heap := state.heap
  totalMatches := state.totalMatches
  filesSearched := state.filesSearched
  linesTruncated := state.linesTruncated
  countIncomplete := state.countIncomplete
  stopReason := state.limiter.stopReason
  resultStoreTruncated := state.limiter.resultStoreTruncated

/-- The state with another number of bytes charged to the scan budget. -/
def SearchState.scanned (state : SearchState) (claimed : Nat) : SearchState :=
  { state with limiter := { state.limiter with claimed := claimed } }

/-- The file is opened and found to be binary before anything stops the search; `claimed` bytes
are then charged to the scan budget. -/
def WalkedFile.ReadsNul (limits : Limits) (cap : Nat) (search : Search) (item : WalkedFile)
    (state : SearchState) (claimed : Nat) : Prop :=
  item.interrupted = none ∧ ∃ file sink after, item.opened = .ok file ∧
    classify limits cap search file (beginFile (PathOrderKey.fromPath item.relative) state) state =
      some (.Binary, sink, after) ∧
    after.limiter.quit = false ∧ after.limiter.claimed = claimed

variable {limits : Limits} {cap : Nat} {search : Search}

/-- A binary file leaves the bytes it has read and, perhaps, the mark. -/
theorem searchWalked_binary (greatest : Greatest LineMatch.key) {offered : List LineMatch}
    {state : SearchState} {item : WalkedFile} {claimed : Nat}
    (h : (Searching.between state offered).Kept limits cap) (hgoing : state.limiter.quit = false)
    (hbinary : item.ReadsNul limits cap search state claimed) :
    ∃ marked, searchWalked limits cap greatest search item state =
        some ((state.scanned claimed).mark marked) ∧
      (marked = true → item.Refuses limits cap search state) ∧
      (item.Refuses limits cap search state →
        (state.limiter.resultStoreTruncated || marked) = true) := by
  obtain ⟨hinterrupted, file, sink, after, hopened, hclassify, hquit, hclaimed⟩ := hbinary
  have hsearched := (h.beginFile (PathOrderKey.fromPath item.relative)).classify hclassify
  have htruncated := (h.beginFile (PathOrderKey.fromPath item.relative)).classify_truncated
    hclassify
  obtain ⟨-, hreason⟩ := hsearched.searches.going hquit
  have hmax := hsearched.searches.max
  have hsame := hsearched.searches.same
  have htotal : after.totalMatches = state.matchSlots := by
    have hslots : state.matchSlots = state.totalMatches := h.slots
    rw [hsame, hslots]
  have hslots : after.matchSlots = state.matchSlots + sink.reservedMatches := by
    rw [← htotal]
    exact hsearched.kept.slots
  have hword : after.matchSlots < wordSize := by
    have hle : after.matchSlots ≤ after.matchLimit := hsearched.kept.slots_le
    have hlimit : after.matchLimit = limits.countBudget := hsearched.kept.limit
    have hlt := limits.countBudget_lt
    omega
  have hheap : after.heap = state.heap := by rw [hsame]
  have hbytes : state.limiter.resultBytes = lineBytes state.heap + pathBytes (pathsOf state.heap) := by
    have hcharged := h.charged.resultBytes
    rwa [show (Searching.between state offered).retained = state.heap from List.append_nil _]
      at hcharged
  have hdiscard : sink.discard after =
      (state.scanned claimed).mark
        (after.limiter.resultStoreTruncated && !state.limiter.resultStoreTruncated) := by
    have hmark : (state.limiter.resultStoreTruncated ||
        (after.limiter.resultStoreTruncated && !state.limiter.resultStoreTruncated)) =
          after.limiter.resultStoreTruncated := by
      cases hstate : state.limiter.resultStoreTruncated with
      | false => simp
      | true => simpa using (htruncated.2 (Or.inl hstate)).symm
    have hsound := h.charged.sound
    have hafterSound := hsearched.kept.charged.sound
    simp only [Searching.between, Searching.within] at hsound hafterSound
    rw [@FileSink.discard_eq sink after _ hsearched.kept.charged (hsearched.kept.beside sink rfl)
      hslots hword, hheap, ← hbytes, hsame]
    simp only [SearchState.mark, WalkLimiter.mark, SearchState.scanned, hmark, hgoing, hquit,
      hreason, hmax, hclaimed, hsound, hafterSound]
  refine ⟨after.limiter.resultStoreTruncated && !state.limiter.resultStoreTruncated, ?_, ?_, ?_⟩
  · unfold searchWalked WalkLimiter.check
    rw [if_neg (by simp [hgoing]), hinterrupted]
    simp only [hopened, searchOpenFile, hclassify, Option.bind_eq_bind, Option.bind_some,
      Option.pure_def]
    exact congrArg some hdiscard
  · intro hmarked
    rw [Bool.and_eq_true, Bool.not_eq_true'] at hmarked
    have hrefuses := htruncated.1 hmarked.1
    rw [hmarked.2] at hrefuses
    exact ⟨by rw [hinterrupted]; rfl, file, hopened, by simpa using hrefuses⟩
  · rintro ⟨-, other, hother, hrefuses⟩
    rw [hopened] at hother
    injection hother with hother
    subst hother
    have hafter := htruncated.2 (Or.inr hrefuses)
    cases state.limiter.resultStoreTruncated <;> simp [hafter]

theorem searchFiles_append {greatest : Greatest LineMatch.key} {before after : List WalkedFile}
    {state reached : SearchState}
    (h : searchFiles limits cap greatest search before state = some reached)
    (hgoing : reached.limiter.quit = false) :
    searchFiles limits cap greatest search (before ++ after) state =
      searchFiles limits cap greatest search after reached := by
  induction before generalizing state with
  | nil =>
      injection h with h
      rw [List.nil_append, h]
  | cons item before ih =>
      obtain ⟨next, hitem, h⟩ := Option.bind_eq_some_iff.1 h
      rw [List.cons_append, searchFiles, hitem]
      by_cases hquit : next.limiter.quit = true
      · simp only [hquit, if_true, Option.pure_def, Option.some.injEq] at h
        rw [← h, hquit] at hgoing
        cases hgoing
      · simp only [hquit] at h
        simpa [hquit] using ih h

/-- Reads a chunk, reports its first line and finds the NUL byte. -/
def oneLine : Search :=
  .read 16 fun _ => .matched ⟨[0x78, 0x0A], some 1⟩ fun _ => .binaryData fun _ => .done (.ok ())

def binaryFile : WalkedFile where
  relative := [⟨[0x62], by decide, by decide, by decide⟩]
  interrupted := none
  opened := .ok ⟨fun _ => none, fun _ => .ok [0x78, 0x0A, 0x00], .ok false⟩
  cancelled := false

/-- There is no room for the line. -/
def noRoom : Limits :=
  { Limits.default with maxResultBytes := 4 }

def noRoomStart : SearchState :=
  SearchState.new noRoom (WalkLimiter.new noRoom)

theorem binaryFile_readsNul : binaryFile.ReadsNul noRoom 10 oneLine noRoomStart 3 :=
  ⟨rfl, _, _, _, rfl, rfl, rfl, rfl⟩

end MCode.Tools
