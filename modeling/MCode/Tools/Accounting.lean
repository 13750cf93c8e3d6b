import MCode.Lib.Machine
import MCode.Tools.Grep

/-!
# The accounts of a search

What is charged to the limiter for results is, after every step of a search, what
is retained: the lines of the heap and of the file in progress, and the path of
each file that still has a line there.  Nothing is charged twice, nothing is
given back twice, and the slots of the matches are accounted for in the same
way.
-/

namespace MCode.Tools

open MCode.Lib
open MCode.Lib.TopN (Greatest Smallest)

/-! ## Bytes of lines and paths -/

@[simp] theorem lineBytes_nil : lineBytes [] = 0 := rfl

@[simp] theorem lineBytes_cons (line : LineMatch) (lines : List LineMatch) :
    lineBytes (line :: lines) = line.storeBytes + lineBytes lines := by
  simp [lineBytes]

@[simp] theorem lineBytes_append (first second : List LineMatch) :
    lineBytes (first ++ second) = lineBytes first + lineBytes second := by
  simp [lineBytes]

theorem lineBytes_perm {first second : List LineMatch} (h : first.Perm second) :
    lineBytes first = lineBytes second :=
  (h.map LineMatch.storeBytes).sum_eq

@[simp] theorem pathsOf_nil : pathsOf [] = ∅ := rfl

@[simp] theorem pathsOf_cons (line : LineMatch) (lines : List LineMatch) :
    pathsOf (line :: lines) = insert line.path (pathsOf lines) := by
  simp [pathsOf]

@[simp] theorem pathsOf_append (first second : List LineMatch) :
    pathsOf (first ++ second) = pathsOf first ∪ pathsOf second := by
  simp [pathsOf]

theorem mem_pathsOf {lines : List LineMatch} {path : Arc PathOrderKey} :
    path ∈ pathsOf lines ↔ ∃ line ∈ lines, line.path = path := by
  simp [pathsOf]

theorem pathsOf_perm {first second : List LineMatch} (h : first.Perm second) :
    pathsOf first = pathsOf second :=
  List.toFinset_eq_of_perm _ _ (h.map LineMatch.path)

theorem pathBytes_insert {path : Arc PathOrderKey} {paths : Finset (Arc PathOrderKey)}
    (h : path ∉ paths) :
    pathBytes (insert path paths) = path.value.storeBytes + pathBytes paths :=
  Finset.sum_insert h

/-- The lines of a file all have its path. -/
theorem pathsOf_same {lines : List LineMatch} {path : Arc PathOrderKey}
    (h : ∀ line ∈ lines, line.path = path) :
    pathsOf lines = if lines = [] then ∅ else {path} := by
  induction lines with
  | nil => rfl
  | cons line lines ih =>
      rw [pathsOf_cons, ih fun other hother => h other (List.mem_cons_of_mem _ hother),
        h line List.mem_cons_self]
      by_cases hlines : lines = [] <;> simp [hlines]

/-- One address is one path. -/
def Coherent (lines : List LineMatch) : Prop :=
  ∀ first ∈ lines, ∀ second ∈ lines, first.path.ptrEq second.path = true →
    first.path = second.path

theorem heapHasPath_iff {heap : List LineMatch} {path : Arc PathOrderKey}
    (h : ∀ line ∈ heap, line.path.ptrEq path = true → line.path = path) :
    heapHasPath heap path = true ↔ path ∈ pathsOf heap := by
  rw [heapHasPath, List.any_eq_true, mem_pathsOf]
  constructor
  · rintro ⟨line, hline, hptr⟩
    exact ⟨line, hline, h line hline hptr⟩
  · rintro ⟨line, hline, rfl⟩
    exact ⟨line, hline, by simp [Arc.ptrEq]⟩

/-! ## A line is kept -/

namespace FileSink

/-- What another line of the file takes: itself, and the path if it is the first one. -/
def lineCharge (sink : FileSink) (candidate : LineMatch) : Nat :=
  candidate.storeBytes + if sink.pathCharged then 0 else sink.path.value.storeBytes

/-- The line is kept if it fits, with the path where this is not charged yet. -/
theorem retain_fits {sink : FileSink} {state : SearchState} {candidate : LineMatch}
    (h : state.limiter.resultBytes + sink.lineCharge candidate ≤ state.limiter.maxResultBytes)
    (hroom : state.limiter.resultBytes + sink.lineCharge candidate < wordSize) :
    sink.retain state candidate =
      ({ sink with lines := sink.lines ++ [candidate], pathCharged := true },
        { state with
          limiter := { state.limiter with
            resultBytes := state.limiter.resultBytes + sink.lineCharge candidate } }) := by
  unfold lineCharge at *
  rw [retain, WalkLimiter.tryReserve_granted (by omega) (by omega)]
  by_cases hcharged : sink.pathCharged = true
  · simp [chargePath, hcharged]
  · rw [if_neg hcharged] at h hroom ⊢
    simp only [chargePath, hcharged, Bool.false_eq_true, if_false]
    rw [WalkLimiter.tryReserve_granted (by simpa [Nat.add_assoc] using h)
      (by simpa [Nat.add_assoc] using hroom)]
    simp [Nat.add_assoc]

/-- A line that does not fit leaves its mark and nothing else. -/
theorem retain_refused {sink : FileSink} {state : SearchState} {candidate : LineMatch}
    (h : state.limiter.maxResultBytes < state.limiter.resultBytes + sink.lineCharge candidate)
    (hroom : state.limiter.resultBytes + sink.lineCharge candidate < wordSize) :
    sink.retain state candidate =
      (sink, { state with limiter := { state.limiter with resultStoreTruncated := true } }) := by
  unfold lineCharge at *
  by_cases hline : state.limiter.maxResultBytes <
      state.limiter.resultBytes + candidate.storeBytes
  · rw [retain, WalkLimiter.tryReserve_refused (by omega) hline (by omega)]
  · rw [retain, WalkLimiter.tryReserve_granted (by omega) (by omega)]
    by_cases hcharged : sink.pathCharged = true
    · rw [if_pos hcharged] at h
      omega
    · rw [if_neg hcharged, ← Nat.add_assoc] at h hroom
      have hword : state.limiter.resultBytes + candidate.storeBytes < wordSize := by omega
      simp only [chargePath, hcharged, Bool.false_eq_true, if_false]
      rw [WalkLimiter.tryReserve_refused hword h hroom]
      simp only [SearchState.releaseResultBytes]
      rw [WalkLimiter.releaseResultBytes_eq hword rfl]

end FileSink

/-- The state without the heap and without what is charged for it. -/
def SearchState.aside (state : SearchState) : SearchState :=
  { state with
    heap := []
    limiter := { state.limiter with resultBytes := 0, underflown := false } }

@[simp] theorem SearchState.releaseResultBytes_heap (state : SearchState) (bytes : Nat) :
    (state.releaseResultBytes bytes).heap = state.heap := rfl

/-! ## What is charged -/

/-- The limiter is charged for these lines and these paths. -/
structure Charged (limiter : WalkLimiter) (lines : List LineMatch)
    (paths : Finset (Arc PathOrderKey)) : Prop where
  resultBytes : limiter.resultBytes = lineBytes lines + pathBytes paths
  within : limiter.resultBytes ≤ limiter.maxResultBytes
  word : limiter.maxResultBytes < wordSize
  sound : limiter.underflown = false

theorem Charged.release {limiter : WalkLimiter} {lines rest : List LineMatch}
    {paths left : Finset (Arc PathOrderKey)} {released : Nat} (h : Charged limiter lines paths)
    (hsplit : lineBytes lines + pathBytes paths = lineBytes rest + pathBytes left + released) :
    Charged (limiter.releaseResultBytes released) rest left := by
  have hword : limiter.resultBytes < wordSize := h.within.trans_lt h.word
  have hbytes := h.resultBytes
  have hwithin := h.within
  rw [WalkLimiter.releaseResultBytes_eq hword (hbytes.trans hsplit)]
  constructor
  · rfl
  · show lineBytes rest + pathBytes left ≤ limiter.maxResultBytes
    omega
  · exact h.word
  · exact h.sound

theorem Charged.mono {limiter : WalkLimiter} {lines other : List LineMatch}
    {paths otherPaths : Finset (Arc PathOrderKey)} (h : Charged limiter lines paths)
    (hlines : lineBytes other = lineBytes lines) (hpaths : otherPaths = paths) :
    Charged limiter other otherPaths := by
  subst hpaths
  constructor
  · rw [h.resultBytes, hlines]
  · exact h.within
  · exact h.word
  · exact h.sound

/-- The sink is in progress beside the heap: its lines have its path, which no line of the heap
has, and the path is charged if there is a line. -/
structure FileSink.Beside (sink : FileSink) (heap : List LineMatch) : Prop where
  own : ∀ line ∈ sink.lines, line.path = sink.path
  charged : sink.pathCharged = true ↔ sink.lines ≠ []
  apart : ∀ line ∈ heap, line.path.ptrEq sink.path = false

theorem FileSink.Beside.notMem {sink : FileSink} {heap : List LineMatch} (h : sink.Beside heap) :
    sink.path ∉ pathsOf heap := by
  rw [mem_pathsOf]
  rintro ⟨line, hline, hpath⟩
  have hapart := h.apart line hline
  simp [Arc.ptrEq, hpath] at hapart

/-- A file without lines has no path among those that are charged. -/
theorem FileSink.Beside.path_mem {sink : FileSink} {heap : List LineMatch}
    (h : sink.Beside heap) :
    sink.path ∈ pathsOf (heap ++ sink.lines) ↔ sink.pathCharged = true := by
  rw [pathsOf_append, Finset.mem_union, pathsOf_same h.own, h.charged]
  by_cases hlines : sink.lines = []
  · simp [hlines, h.notMem]
  · simp [hlines]

theorem liveBytes_eq {sink : FileSink} {state : SearchState}
    (hcharged : Charged state.limiter (state.heap ++ sink.lines)
      (pathsOf (state.heap ++ sink.lines)))
    (hbeside : sink.Beside state.heap) (candidate : LineMatch) :
    liveBytes sink state + candidate.storeBytes =
      state.limiter.resultBytes + sink.lineCharge candidate := by
  rw [liveBytes, hcharged.resultBytes, FileSink.lineCharge]
  by_cases hpath : sink.pathCharged = true
  · rw [Finset.insert_eq_of_mem (hbeside.path_mem.2 hpath), if_pos hpath]
    omega
  · rw [pathBytes_insert (mt hbeside.path_mem.1 hpath), if_neg hpath]
    omega

namespace FileSink

variable {limits : Limits} {cap : Nat}

/-- The line fits into what is left of the result bytes. -/
def Fits (sink : FileSink) (state : SearchState) (candidate : LineMatch) : Prop :=
  state.limiter.resultBytes + sink.lineCharge candidate ≤ state.limiter.maxResultBytes

instance (sink : FileSink) (state : SearchState) (candidate : LineMatch) :
    Decidable (sink.Fits state candidate) :=
  inferInstanceAs (Decidable (_ ≤ _))

/-- What `keepLine` comes to: the file has its lines, the line is kept, or it is refused. -/
theorem keepLine_cases {sink after : FileSink} {state next : SearchState} {matched : SinkMatch}
    (hcharged : Charged state.limiter (state.heap ++ sink.lines)
      (pathsOf (state.heap ++ sink.lines)))
    (hbeside : sink.Beside state.heap)
    (h : sink.keepLine limits cap state matched = some (after, next)) :
    (cap ≤ sink.lines.length ∧ after = sink ∧ next = state) ∨
    (sink.lines.length < cap ∧ sink.Fits state (sink.candidate limits matched).1 ∧
      after = { sink with
        lines := sink.lines ++ [(sink.candidate limits matched).1]
        lineTruncated := sink.lineTruncated || (sink.candidate limits matched).2
        pathCharged := true } ∧
      next = { state with
        limiter := { state.limiter with
          resultBytes := state.limiter.resultBytes +
            sink.lineCharge (sink.candidate limits matched).1 } }) ∨
    (sink.lines.length < cap ∧ ¬sink.Fits state (sink.candidate limits matched).1 ∧
      after = { sink with
        lineTruncated := sink.lineTruncated || (sink.candidate limits matched).2 } ∧
      next = { state with limiter := { state.limiter with resultStoreTruncated := true } }) := by
  unfold keepLine at h
  by_cases hroom : sink.lines.length < cap
  · right
    rw [if_pos hroom] at h
    obtain ⟨done, hlive, h⟩ := Option.bind_eq_some_iff.1 h
    rw [allocate_some, liveBytes_eq hcharged hbeside] at hlive
    change some (FileSink.retain
      { sink with lineTruncated := sink.lineTruncated || (sink.candidate limits matched).2 }
      state (sink.candidate limits matched).1) = some (after, next) at h
    by_cases hfits : sink.Fits state (sink.candidate limits matched).1
    · left
      refine ⟨hroom, hfits, ?_⟩
      have hretain := @retain_fits
        { sink with lineTruncated := sink.lineTruncated || (sink.candidate limits matched).2 }
        state (sink.candidate limits matched).1 hfits hlive
      rw [hretain] at h
      injection h with h
      exact ⟨(Prod.mk.inj h).1.symm, (Prod.mk.inj h).2.symm⟩
    · right
      refine ⟨hroom, hfits, ?_⟩
      have hretain := @retain_refused
        { sink with lineTruncated := sink.lineTruncated || (sink.candidate limits matched).2 }
        state (sink.candidate limits matched).1 (not_le.1 hfits) hlive
      rw [hretain] at h
      injection h with h
      exact ⟨(Prod.mk.inj h).1.symm, (Prod.mk.inj h).2.symm⟩
  · left
    rw [if_neg hroom] at h
    injection h with h
    exact ⟨not_lt.1 hroom, (Prod.mk.inj h).1.symm, (Prod.mk.inj h).2.symm⟩

/-- Keeping a line changes nothing of the state but its limiter, and keeps the books. -/
theorem keepLine_keeps {sink after : FileSink} {state next : SearchState} {matched : SinkMatch}
    (hcharged : Charged state.limiter (state.heap ++ sink.lines)
      (pathsOf (state.heap ++ sink.lines)))
    (hbeside : sink.Beside state.heap)
    (h : sink.keepLine limits cap state matched = some (after, next)) :
    next = { state with limiter := next.limiter } ∧
      next.limiter = { state.limiter with
        resultBytes := next.limiter.resultBytes
        resultStoreTruncated := next.limiter.resultStoreTruncated } ∧
      Charged next.limiter (state.heap ++ after.lines) (pathsOf (state.heap ++ after.lines)) ∧
      after.Beside state.heap ∧ after.reservedMatches = sink.reservedMatches ∧
      after.path = sink.path := by
  rcases keepLine_cases hcharged hbeside h with
    ⟨-, rfl, rfl⟩ | ⟨-, hfits, rfl, rfl⟩ | ⟨-, -, rfl, rfl⟩
  · exact ⟨rfl, rfl, hcharged, hbeside, rfl, rfl⟩
  · refine ⟨rfl, rfl, ⟨?_, hfits, hcharged.word, hcharged.sound⟩, ⟨?_, ?_, hbeside.apart⟩, rfl,
      rfl⟩
    · have hpaths : pathsOf (state.heap ++ (sink.lines ++ [(sink.candidate limits matched).1])) =
          insert sink.path (pathsOf (state.heap ++ sink.lines)) := by
        rw [← List.append_assoc, pathsOf_append, pathsOf_cons, pathsOf_nil, Finset.union_comm,
          Finset.insert_union, Finset.empty_union]
        rfl
      have hlive := liveBytes_eq hcharged hbeside (sink.candidate limits matched).1
      show state.limiter.resultBytes + sink.lineCharge (sink.candidate limits matched).1 = _
      rw [hpaths, ← hlive, liveBytes]
      simp only [lineBytes_append, lineBytes_cons, lineBytes_nil]
      omega
    · intro line hline
      rcases List.mem_append.1 hline with hline | hline
      · exact hbeside.own line hline
      · rw [List.mem_singleton.1 hline]
        rfl
    · simp
  · exact ⟨rfl, rfl, ⟨hcharged.resultBytes, hcharged.within, hcharged.word, hcharged.sound⟩,
      ⟨hbeside.own, hbeside.charged, hbeside.apart⟩, rfl, rfl⟩

/-- There is no slot for the line, or it is counted and may be kept. -/
theorem matchedEvent_cases {sink after : FileSink} {state next : SearchState}
    {matched : SinkMatch} {goOn : Bool}
    (h : sink.matchedEvent limits cap state matched = some (goOn, after, next)) :
    (state.matchLimit ≤ state.matchSlots ∧ goOn = false ∧
      after = { sink with callbacksStopped := true } ∧ next = state) ∨
    (state.matchSlots < state.matchLimit ∧ ∃ kept : FileSink,
      FileSink.keepLine limits cap { sink with reservedMatches := sink.reservedMatches + 1 }
        { state with matchSlots := state.matchSlots + 1 } matched = some (kept, next) ∧
      goOn = decide (state.matchSlots + 1 < next.matchLimit) ∧
      after = { kept with callbacksStopped := kept.callbacksStopped || !goOn }) := by
  unfold matchedEvent SearchState.reserveMatch at h
  by_cases hfull : state.matchLimit ≤ state.matchSlots
  · left
    rw [if_pos hfull] at h
    simp only [Option.some.injEq, Prod.mk.injEq] at h
    obtain ⟨rfl, rfl, rfl⟩ := h
    exact ⟨hfull, rfl, rfl, rfl⟩
  · right
    rw [if_neg hfull] at h
    obtain ⟨⟨kept, stored⟩, hkeep, h⟩ := Option.map_eq_some_iff.1 h
    refine ⟨not_le.1 hfull, kept, ?_⟩
    by_cases hlast : stored.matchLimit ≤ state.matchSlots + 1
    · simp only [if_pos hlast, Prod.mk.injEq] at h
      obtain ⟨rfl, rfl, rfl⟩ := h
      exact ⟨hkeep, by simp [hlast], by simp⟩
    · simp only [if_neg hlast, Prod.mk.injEq] at h
      obtain ⟨rfl, rfl, rfl⟩ := h
      exact ⟨hkeep, by simpa using hlast, by simp⟩

/-! ## A file is given up -/

theorem release_lines {lines : List LineMatch} {state : SearchState} {rest : Nat}
    (hword : state.limiter.resultBytes < wordSize)
    (h : state.limiter.resultBytes = rest + lineBytes lines) :
    lines.foldl (fun state line => state.releaseResultBytes line.storeBytes) state =
      { state with limiter := { state.limiter with resultBytes := rest } } := by
  induction lines generalizing state with
  | nil =>
      have hrest : state.limiter.resultBytes = rest := h
      rw [List.foldl_nil, ← hrest]
  | cons line lines ih =>
      rw [lineBytes_cons, Nat.add_left_comm, Nat.add_comm] at h
      have hstep : state.releaseResultBytes line.storeBytes =
          { state with limiter := { state.limiter with resultBytes := rest + lineBytes lines } } := by
        rw [SearchState.releaseResultBytes, WalkLimiter.releaseResultBytes_eq hword h]
      rw [List.foldl_cons, hstep]
      apply ih
      · show rest + lineBytes lines < wordSize
        omega
      · rfl

/-- The refund leaves the charges of the heap. -/
theorem refundRetained_eq {sink : FileSink} {state : SearchState}
    (hcharged : Charged state.limiter (state.heap ++ sink.lines)
      (pathsOf (state.heap ++ sink.lines)))
    (hbeside : sink.Beside state.heap) :
    sink.refundRetained state =
      { state with limiter := { state.limiter with
          resultBytes := lineBytes state.heap + pathBytes (pathsOf state.heap) } } := by
  have hword : state.limiter.resultBytes < wordSize := hcharged.within.trans_lt hcharged.word
  have hbytes := hcharged.resultBytes
  rw [lineBytes_append, pathsOf_append, pathsOf_same hbeside.own] at hbytes
  unfold refundRetained releasePathCharge
  by_cases hempty : sink.lines = []
  · have huncharged : ¬sink.pathCharged = true := by simp [hbeside.charged, hempty]
    simp only [hempty, lineBytes_nil, Nat.add_zero, if_true, Finset.union_empty] at hbytes
    rw [if_neg huncharged, hempty, List.foldl_nil, ← hbytes]
  · have hpath : sink.pathCharged = true := hbeside.charged.2 hempty
    rw [if_neg hempty, Finset.union_comm, ← Finset.insert_eq, pathBytes_insert hbeside.notMem]
      at hbytes
    have hlines : state.limiter.resultBytes =
        lineBytes state.heap + pathBytes (pathsOf state.heap) + sink.path.value.storeBytes +
          lineBytes sink.lines := by
      omega
    rw [if_pos hpath, release_lines hword hlines, SearchState.releaseResultBytes]
    have hleft : lineBytes state.heap + pathBytes (pathsOf state.heap) +
        sink.path.value.storeBytes < wordSize := by
      omega
    rw [WalkLimiter.releaseResultBytes_eq hleft rfl]

/-- A file that is given up leaves the slots and the charges as they were before it. -/
theorem discard_eq {sink : FileSink} {state : SearchState} {slots : Nat}
    (hcharged : Charged state.limiter (state.heap ++ sink.lines)
      (pathsOf (state.heap ++ sink.lines)))
    (hbeside : sink.Beside state.heap) (hslots : state.matchSlots = slots + sink.reservedMatches)
    (hword : state.matchSlots < wordSize) :
    sink.discard state =
      { state with
        matchSlots := slots
        limiter := { state.limiter with
          resultBytes := lineBytes state.heap + pathBytes (pathsOf state.heap) } } := by
  have hsub : fetchSub state.matchSlots sink.reservedMatches = slots := by
    rw [fetchSub_eq hword (by omega)]
    omega
  rw [discard, refundRetained_eq hcharged hbeside]
  unfold SearchState.releaseProvisional
  by_cases hsome : 0 < sink.reservedMatches
  · rw [if_pos hsome]
    simp only [hsub]
  · have hzero : state.matchSlots = slots := by omega
    rw [if_neg hsome, ← hzero]

/-! ## A line is offered to the heap -/

variable {greatest : Greatest LineMatch.key}

/-- The bytes of a path go with its last line, unless the file in progress has the path. -/
def evict (sink : FileSink) (state : SearchState) (worst : LineMatch) : SearchState :=
  let state := state.releaseResultBytes worst.storeBytes
  if !worst.path.ptrEq sink.path && !heapHasPath (state.heap.erase worst) worst.path then
    state.releaseResultBytes worst.path.value.storeBytes
  else state

/-- There is room in the heap, the line takes the place of a greatest one, or it is refused. -/
theorem commitLine_cases (cap : Nat) (greatest : Greatest LineMatch.key) (sink : FileSink)
    (state : SearchState) (line : LineMatch) :
    (state.heap.length < cap ∧
      sink.commitLine cap greatest state line = { state with heap := line :: state.heap }) ∨
    (cap ≤ state.heap.length ∧ ∃ worst ∈ state.heap, (∀ b ∈ state.heap, b.key ≤ worst.key) ∧
      line.key < worst.key ∧ sink.commitLine cap greatest state line =
        { sink.evict state worst with heap := line :: state.heap.erase worst }) ∨
    (cap ≤ state.heap.length ∧ (∀ b ∈ state.heap, b.key ≤ line.key) ∧
      sink.commitLine cap greatest state line = state.releaseResultBytes line.storeBytes) := by
  unfold commitLine
  by_cases hroom : state.heap.length < cap
  · exact Or.inl ⟨hroom, if_pos hroom⟩
  · right
    rw [if_neg hroom]
    cases hpeek : greatest.peek state.heap with
    | none =>
        right
        refine ⟨not_lt.1 hroom, ?_, rfl⟩
        rw [greatest.peek_none hpeek]
        intro b hb
        cases hb
    | some worst =>
        have hle := greatest.peek_le hpeek
        by_cases hlt : line.key < worst.key
        · left
          exact ⟨not_lt.1 hroom, worst, greatest.peek_mem hpeek, hle, hlt, if_pos hlt⟩
        · right
          refine ⟨not_lt.1 hroom, ?_, if_neg hlt⟩
          intro b hb
          exact (hle b hb).trans (not_lt.1 hlt)

/-- The state of a committed file, before its lines are offered to the heap. -/
def settled (sink : FileSink) (state : SearchState) : SearchState :=
  { state with
    totalMatches := fetchAdd state.totalMatches sink.reservedMatches
    countIncomplete := state.countIncomplete || sink.callbacksStopped
    linesTruncated := state.linesTruncated || sink.lineTruncated
    filesSearched := fetchAdd state.filesSearched 1 }

/-- A search whose slots are full stops behind the file that has filled them. -/
def stopFull (sink : FileSink) (total : Nat) (state : SearchState) : SearchState :=
  if sink.callbacksStopped && state.matchLimit ≤ total then
    { state with limiter := state.limiter.stop "match-count budget reached" }
  else state

theorem commitText_eq (greatest : Greatest LineMatch.key) (sink : FileSink)
    (state : SearchState) :
    sink.commitText cap greatest state =
      sink.stopFull (state.totalMatches + sink.reservedMatches)
        (sink.commitLines cap greatest (sink.settled state)) := by
  unfold commitText settled stopFull SearchState.settleText
  cases sink.callbacksStopped <;> cases sink.lineTruncated <;> simp

/-- In the middle of a commit: `rest` is still to be offered. -/
structure Offering (sink : FileSink) (rest : List LineMatch) (state : SearchState) : Prop where
  charged : Charged state.limiter (state.heap ++ rest) (insert sink.path (pathsOf state.heap))
  own : ∀ line ∈ rest, line.path = sink.path
  coherent : Coherent state.heap
  mine : ∀ line ∈ state.heap, line.path.ptrEq sink.path = true → line.path = sink.path

/-- A line of the file put into a heap that is coherent with it. -/
theorem Offering.coherent_cons {sink : FileSink} {rest : List LineMatch} {state : SearchState}
    (h : sink.Offering rest state) {line : LineMatch} (hline : line.path = sink.path)
    {heap : List LineMatch} (hsub : heap ⊆ state.heap) :
    Coherent (line :: heap) ∧
      ∀ other ∈ line :: heap, other.path.ptrEq sink.path = true → other.path = sink.path := by
  constructor
  · intro first hfirst second hsecond hptr
    cases hfirst with
    | head =>
        cases hsecond with
        | head => rfl
        | tail _ hsecond =>
            rw [hline] at hptr ⊢
            exact (h.mine second (hsub hsecond) (by simpa [Arc.ptrEq, eq_comm] using hptr)).symm
    | tail _ hfirst =>
        cases hsecond with
        | head =>
            rw [hline] at hptr ⊢
            exact h.mine first (hsub hfirst) hptr
        | tail _ hsecond => exact h.coherent first (hsub hfirst) second (hsub hsecond) hptr
  · intro other hother hptr
    cases hother with
    | head => exact hline
    | tail _ hother => exact h.mine other (hsub hother) hptr

/-- What an evicted line gives back. -/
theorem Offering.evict {sink : FileSink} {rest : List LineMatch} {state : SearchState}
    {worst : LineMatch} (h : sink.Offering rest state) (hworst : worst ∈ state.heap) :
    Charged (sink.evict state worst).limiter (state.heap.erase worst ++ rest)
      (insert sink.path (pathsOf (state.heap.erase worst))) := by
  have hperm := List.perm_cons_erase hworst
  have hpaths : pathsOf state.heap = insert worst.path (pathsOf (state.heap.erase worst)) := by
    rw [pathsOf_perm hperm, pathsOf_cons]
  have hbytes : lineBytes (state.heap ++ rest) =
      lineBytes (state.heap.erase worst ++ rest) + worst.storeBytes := by
    rw [lineBytes_append, lineBytes_perm hperm, lineBytes_cons, lineBytes_append]
    omega
  have hline : Charged (state.releaseResultBytes worst.storeBytes).limiter
      (state.heap.erase worst ++ rest) (insert sink.path (pathsOf state.heap)) := by
    apply h.charged.release
    omega
  have hsub : state.heap.erase worst ⊆ state.heap := List.erase_subset
  have hhas : heapHasPath (state.heap.erase worst) worst.path = true ↔
      worst.path ∈ pathsOf (state.heap.erase worst) :=
    heapHasPath_iff fun line hin hptr => h.coherent line (hsub hin) worst hworst hptr
  unfold FileSink.evict
  by_cases hlast : (!worst.path.ptrEq sink.path &&
      !heapHasPath (state.heap.erase worst) worst.path) = true
  · have hgone : worst.path ∉ insert sink.path (pathsOf (state.heap.erase worst)) := by
      rw [Bool.and_eq_true, Bool.not_eq_true', Bool.not_eq_true'] at hlast
      rw [Finset.mem_insert, not_or, ← hhas]
      constructor
      · intro hsame
        simp [Arc.ptrEq, hsame] at hlast
      · simp [hlast.2]
    rw [if_pos (by exact hlast)]
    apply hline.release
    rw [hpaths, Finset.insert_comm, pathBytes_insert hgone]
    omega
  · have hkept : worst.path ∈ insert sink.path (pathsOf (state.heap.erase worst)) := by
      rw [Bool.and_eq_true, Bool.not_eq_true', Bool.not_eq_true', not_and_or] at hlast
      rw [Finset.mem_insert, ← hhas]
      cases hlast with
      | inl hsame => exact Or.inl (h.mine worst hworst (by simpa using hsame))
      | inr hhere => exact Or.inr (by simpa using hhere)
    rw [if_neg (by exact hlast)]
    apply hline.mono rfl
    rw [hpaths, Finset.insert_comm, Finset.insert_eq_of_mem hkept]

/-- Offering a line keeps the books. -/
theorem Offering.step {sink : FileSink} {line : LineMatch} {rest : List LineMatch}
    {state : SearchState} (h : sink.Offering (line :: rest) state) :
    sink.Offering rest (sink.commitLine cap greatest state line) := by
  have hline : line.path = sink.path := h.own line List.mem_cons_self
  have hown : ∀ other ∈ rest, other.path = sink.path :=
    fun other hother => h.own other (List.mem_cons_of_mem _ hother)
  rcases sink.commitLine_cases cap greatest state line with
    ⟨-, hstep⟩ | ⟨-, worst, hworst, -, -, hstep⟩ | ⟨-, -, hstep⟩
  · rw [hstep]
    obtain ⟨hcoherent, hmine⟩ := h.coherent_cons hline (List.Subset.refl state.heap)
    refine ⟨?_, hown, hcoherent, hmine⟩
    apply h.charged.mono
    · simp only [lineBytes_append, lineBytes_cons, List.cons_append]
      omega
    · rw [pathsOf_cons, hline, Finset.insert_idem]
  · rw [hstep]
    obtain ⟨hcoherent, hmine⟩ := h.coherent_cons hline (List.erase_subset (l := state.heap))
    refine ⟨?_, hown, hcoherent, hmine⟩
    apply (h.evict hworst).mono
    · simp only [lineBytes_append, lineBytes_cons, List.cons_append]
      omega
    · rw [pathsOf_cons, hline, Finset.insert_idem]
  · rw [hstep]
    refine ⟨?_, hown, h.coherent, h.mine⟩
    have hbytes : lineBytes (state.heap ++ line :: rest) =
        lineBytes (state.heap ++ rest) + line.storeBytes := by
      simp only [lineBytes_append, lineBytes_cons]
      omega
    apply h.charged.release
    rw [hbytes]
    exact Nat.add_right_comm _ _ _

theorem Offering.run (cap : Nat) (greatest : Greatest LineMatch.key) {sink : FileSink} {lines : List LineMatch} {state : SearchState}
    (h : sink.Offering lines state) :
    sink.Offering [] (lines.foldl (sink.commitLine cap greatest) state) := by
  induction lines generalizing state with
  | nil => exact h
  | cons line lines ih => exact ih h.step

/-- The heap keeps the smallest lines. -/
theorem commitLine_smallest (greatest : Greatest LineMatch.key) (sink : FileSink)
    {state : SearchState} {offered : Multiset LineMatch}
    (h : Smallest LineMatch.key cap offered state.heap) (line : LineMatch) :
    Smallest LineMatch.key cap (line ::ₘ offered)
      (sink.commitLine cap greatest state line).heap := by
  rcases sink.commitLine_cases cap greatest state line with
    ⟨hroom, hstep⟩ | ⟨hfull, worst, hworst, hle, hlt, hstep⟩ | ⟨hfull, hle, hstep⟩
  · rw [hstep]
    exact h.push hroom line
  · rw [hstep]
    exact h.replace hfull hworst hle hlt
  · rw [hstep]
    exact h.refuse hfull hle

theorem offered_smallest (greatest : Greatest LineMatch.key) (sink : FileSink)
    (lines : List LineMatch) {state : SearchState} {offered : Multiset LineMatch}
    (h : Smallest LineMatch.key cap offered state.heap) :
    Smallest LineMatch.key cap (offered + ↑lines)
      (lines.foldl (sink.commitLine cap greatest) state).heap := by
  induction lines generalizing state offered with
  | nil => simpa using h
  | cons line lines ih =>
      have hnext := ih (commitLine_smallest greatest sink h line)
      rwa [Multiset.cons_add, ← Multiset.add_cons, Multiset.cons_coe] at hnext

/-! ### What a commit leaves alone -/

theorem commitLine_aside (greatest : Greatest LineMatch.key) (sink : FileSink)
    (state : SearchState) (line : LineMatch) :
    (sink.commitLine cap greatest state line).aside = state.aside := by
  rcases sink.commitLine_cases cap greatest state line with
    ⟨-, hstep⟩ | ⟨-, worst, -, -, -, hstep⟩ | ⟨-, -, hstep⟩
  · rw [hstep]
    rfl
  · rw [hstep, FileSink.evict]
    split <;> rfl
  · rw [hstep]
    rfl

theorem commitLines_aside (cap : Nat) (greatest : Greatest LineMatch.key) (sink : FileSink)
    (state : SearchState) : (sink.commitLines cap greatest state).aside = state.aside := by
  have hrelease : ∀ state : SearchState, (sink.releasePathCharge state).aside = state.aside := by
    intro state
    unfold releasePathCharge
    split <;> rfl
  have hfold : ∀ (lines : List LineMatch) (state : SearchState),
      (lines.foldl (sink.commitLine cap greatest) state).aside = state.aside := by
    intro lines
    induction lines with
    | nil => exact fun state => rfl
    | cons line lines ih =>
        intro state
        rw [List.foldl_cons, ih, commitLine_aside]
  unfold commitLines
  by_cases hempty : sink.lines.isEmpty = true
  · rw [if_pos hempty, hrelease]
  · rw [if_neg hempty]
    by_cases hlast : (sink.pathCharged && !heapHasPath
        (sink.lines.foldl (sink.commitLine cap greatest) state).heap sink.path) = true
    · rw [if_pos hlast, hrelease, hfold]
    · rw [if_neg hlast, hfold]

/-- A commit charges the limiter for the heap, which keeps the smallest lines. -/
theorem commitLines_keeps (greatest : Greatest LineMatch.key) {sink : FileSink}
    {state : SearchState} {offered : Multiset LineMatch}
    (hcharged : Charged state.limiter (state.heap ++ sink.lines)
      (pathsOf (state.heap ++ sink.lines)))
    (hbeside : sink.Beside state.heap) (hcoherent : Coherent state.heap)
    (hsmallest : Smallest LineMatch.key cap offered state.heap) :
    Charged (sink.commitLines cap greatest state).limiter
        (sink.commitLines cap greatest state).heap
        (pathsOf (sink.commitLines cap greatest state).heap) ∧
      Coherent (sink.commitLines cap greatest state).heap ∧
      Smallest LineMatch.key cap (offered + ↑sink.lines)
        (sink.commitLines cap greatest state).heap := by
  unfold commitLines
  by_cases hempty : sink.lines = []
  · have huncharged : ¬sink.pathCharged = true := by simp [hbeside.charged, hempty]
    rw [hempty, List.append_nil] at hcharged
    rw [if_pos (by simp [hempty]), releasePathCharge, if_neg huncharged, hempty]
    refine ⟨hcharged, hcoherent, ?_⟩
    simpa using hsmallest
  · have hpath : sink.pathCharged = true := hbeside.charged.2 hempty
    have hstart : sink.Offering sink.lines state := by
      refine ⟨hcharged.mono rfl ?_, hbeside.own, hcoherent, ?_⟩
      · rw [pathsOf_append, pathsOf_same hbeside.own, if_neg hempty, Finset.union_comm,
          Finset.insert_eq]
      · intro line hline hptr
        rw [hbeside.apart line hline] at hptr
        cases hptr
    have hrun := hstart.run cap greatest
    have hoffered := offered_smallest greatest sink sink.lines hsmallest
    have hhas := heapHasPath_iff hrun.mine
    rw [if_neg (by simp [hempty])]
    by_cases hlast : (sink.pathCharged && !heapHasPath
        (sink.lines.foldl (sink.commitLine cap greatest) state).heap sink.path) = true
    · have hgone : sink.path ∉
          pathsOf (sink.lines.foldl (sink.commitLine cap greatest) state).heap := by
        rw [← hhas]
        simpa [hpath] using hlast
      rw [if_pos hlast, releasePathCharge, if_pos hpath]
      refine ⟨?_, hrun.coherent, hoffered⟩
      apply hrun.charged.release
      rw [pathBytes_insert hgone, List.append_nil, SearchState.releaseResultBytes_heap]
      omega
    · have hkept : sink.path ∈
          pathsOf (sink.lines.foldl (sink.commitLine cap greatest) state).heap := by
        rw [← hhas]
        simpa [hpath] using hlast
      rw [if_neg hlast]
      refine ⟨hrun.charged.mono ?_ ?_, hrun.coherent, hoffered⟩
      · rw [List.append_nil]
      · rw [Finset.insert_eq_of_mem hkept]

end FileSink

/-! ## Runs -/

/-- A file is begun, a line of it matches, and it ends in one of three ways. -/
inductive SearchOp where
  | begin (path : Arc PathOrderKey)
  | matched (line : SinkMatch)
  | commitText
  | discard
  | drop

/-- A search, the sink of the file in progress, and every line that the heap has been offered. -/
structure Searching where
  state : SearchState
  sink : Option FileSink
  offered : List LineMatch

namespace Searching

def start (limits : Limits) : Searching where
  state := SearchState.new limits (WalkLimiter.new limits)
  sink := none
  offered := []

/-- A new path is at an address that no line of the heap still points to. -/
def step (greatest : Greatest LineMatch.key) (limits : Limits) (cap : Nat) (search : Searching) :
    SearchOp → Option Searching
  | .begin path =>
      if search.sink.isSome || heapHasPath search.state.heap path then none
      else some { search with sink := some (FileSink.new path) }
  | .matched line => do
      let sink ← search.sink
      let (_, sink, state) ← sink.matchedEvent limits cap search.state line
      return { search with state := state, sink := some sink }
  | .commitText => do
      let sink ← search.sink
      return {
        state := sink.commitText cap greatest search.state
        sink := none
        offered := search.offered ++ sink.lines }
  | .discard => do
      let sink ← search.sink
      return { search with state := sink.discard search.state, sink := none }
  | .drop => do
      let sink ← search.sink
      return { search with state := sink.drop search.state, sink := none }

/-- The lines of the file in progress. -/
def provisional (search : Searching) : List LineMatch :=
  (search.sink.map FileSink.lines).getD []

def provisionalMatches (search : Searching) : Nat :=
  (search.sink.map FileSink.reservedMatches).getD 0

/-- The lines that are retained. -/
def retained (search : Searching) : List LineMatch :=
  search.state.heap ++ search.provisional

/-- The books of a search are in order. -/
structure Accounts (limits : Limits) (cap : Nat) (search : Searching) : Prop where
  resultBytes : search.state.limiter.resultBytes =
    lineBytes search.retained + pathBytes (pathsOf search.retained)
  within : search.state.limiter.resultBytes ≤ limits.maxResultBytes
  sound : search.state.limiter.underflown = false
  slots : search.state.matchSlots = search.state.totalMatches + search.provisionalMatches
  slots_le : search.state.matchSlots ≤ limits.countBudget
  smallest : Smallest LineMatch.key cap ↑search.offered search.state.heap

/-- What keeps the books in order. -/
structure Kept (limits : Limits) (cap : Nat) (search : Searching) : Prop where
  charged : Charged search.state.limiter search.retained (pathsOf search.retained)
  max : search.state.limiter.maxResultBytes ≤ limits.maxResultBytes
  coherent : Coherent search.state.heap
  beside : ∀ sink ∈ search.sink, sink.Beside search.state.heap
  slots : search.state.matchSlots = search.state.totalMatches + search.provisionalMatches
  slots_le : search.state.matchSlots ≤ search.state.matchLimit
  limit : search.state.matchLimit = limits.countBudget
  smallest : Smallest LineMatch.key cap ↑search.offered search.state.heap

theorem Kept.accounts {limits : Limits} {cap : Nat} {search : Searching}
    (h : search.Kept limits cap) : search.Accounts limits cap where
  resultBytes := h.charged.resultBytes
  within := h.charged.within.trans h.max
  sound := h.charged.sound
  slots := h.slots
  slots_le := h.limit ▸ h.slots_le
  smallest := h.smallest

theorem kept_start (limits : Limits) (cap : Nat) : (start limits).Kept limits cap where
  charged := by
    constructor
    · rfl
    · exact Nat.zero_le _
    · show min limits.maxResultBytes (wordSize - 1) < wordSize
      have hpos : 0 < wordSize := by decide
      omega
    · rfl
  max := Nat.min_le_left _ _
  coherent := fun first hfirst => absurd hfirst List.not_mem_nil
  beside := fun sink hsink => by cases hsink
  slots := rfl
  slots_le := Nat.zero_le _
  limit := rfl
  smallest := Smallest.empty _ _

variable {limits : Limits} {cap : Nat}

theorem retained_some {search : Searching} {sink : FileSink} (h : search.sink = some sink) :
    search.retained = search.state.heap ++ sink.lines := by
  rw [retained, provisional, h]
  rfl

theorem provisionalMatches_some {search : Searching} {sink : FileSink}
    (h : search.sink = some sink) : search.provisionalMatches = sink.reservedMatches := by
  rw [provisionalMatches, h]
  rfl

theorem Kept.begin {search : Searching} (h : search.Kept limits cap) {path : Arc PathOrderKey}
    (hnone : search.sink = none) (hfree : heapHasPath search.state.heap path = false) :
    ({ search with sink := some (FileSink.new path) } : Searching).Kept limits cap := by
  have hretained : search.retained = search.state.heap ++ [] := by
    rw [retained, provisional, hnone]
    rfl
  constructor
  · have hcharged := h.charged
    rw [hretained] at hcharged
    exact hcharged
  · exact h.max
  · exact h.coherent
  · intro sink hsink
    injection hsink with hsink
    subst hsink
    constructor
    · exact fun line hline => absurd hline List.not_mem_nil
    · simp [FileSink.new]
    · intro line hline
      simpa [FileSink.new] using List.any_eq_false.1 hfree line hline
  · have hslots := h.slots
    rw [provisionalMatches, hnone] at hslots
    exact hslots
  · exact h.slots_le
  · exact h.limit
  · exact h.smallest

/-- The sink goes on, with the books of another state. -/
theorem Kept.matched {search : Searching} (h : search.Kept limits cap) {sink after : FileSink}
    {next : SearchState} {goOn : Bool} {line : SinkMatch} (hsink : search.sink = some sink)
    (hmatched : sink.matchedEvent limits cap search.state line = some (goOn, after, next)) :
    ({ search with state := next, sink := some after } : Searching).Kept limits cap := by
  have hbeside := h.beside sink hsink
  have hcharged := h.charged
  have hslots := h.slots
  rw [retained_some hsink] at hcharged
  rw [provisionalMatches_some hsink] at hslots
  rcases FileSink.matchedEvent_cases hmatched with
    ⟨-, -, rfl, rfl⟩ | ⟨hfree, kept, hkeep, -, rfl⟩
  · refine ⟨hcharged, h.max, h.coherent, ?_, hslots, h.slots_le, h.limit, h.smallest⟩
    intro other hother
    injection hother with hother
    subst hother
    exact ⟨hbeside.own, hbeside.charged, hbeside.apart⟩
  · obtain ⟨hnext, hlimiter, hcharged, hkept, hreserved, -⟩ :=
      @FileSink.keepLine_keeps _ _ { sink with reservedMatches := sink.reservedMatches + 1 } kept
        { search.state with matchSlots := search.state.matchSlots + 1 } next line
        hcharged ⟨hbeside.own, hbeside.charged, hbeside.apart⟩ hkeep
    rw [hnext]
    refine ⟨hcharged, ?_, h.coherent, ?_, ?_, hfree, h.limit, h.smallest⟩
    · rw [hlimiter]
      exact h.max
    · intro other hother
      injection hother with hother
      subst hother
      exact ⟨hkept.own, hkept.charged, hkept.apart⟩
    · show search.state.matchSlots + 1 = search.state.totalMatches + kept.reservedMatches
      rw [hreserved]
      show _ = _ + (sink.reservedMatches + 1)
      omega

/-- The file is given up: no line of it is left. -/
theorem Kept.discard {search : Searching} (h : search.Kept limits cap) {sink : FileSink}
    (hsink : search.sink = some sink) :
    ({ search with state := sink.discard search.state, sink := none } : Searching).Kept
      limits cap := by
  have hcharged := h.charged
  have hslots := h.slots
  rw [retained_some hsink] at hcharged
  rw [provisionalMatches_some hsink] at hslots
  have hword : search.state.matchSlots < wordSize :=
    (h.limit ▸ h.slots_le).trans_lt limits.countBudget_lt
  have hbytes := hcharged.resultBytes
  have hwithin := hcharged.within
  rw [FileSink.discard_eq hcharged (h.beside sink hsink) hslots hword]
  have hsub : pathBytes (pathsOf search.state.heap) ≤
      pathBytes (pathsOf (search.state.heap ++ sink.lines)) := by
    rw [pathsOf_append]
    exact Finset.sum_le_sum_of_subset Finset.subset_union_left
  rw [lineBytes_append] at hbytes
  have hretained : ∀ state, retained ⟨state, none, search.offered⟩ = state.heap :=
    fun state => List.append_nil _
  refine ⟨?_, h.max, h.coherent, ?_, rfl, ?_, h.limit, h.smallest⟩
  · rw [hretained]
    refine ⟨rfl, ?_, hcharged.word, hcharged.sound⟩
    show lineBytes search.state.heap + pathBytes (pathsOf search.state.heap) ≤
      search.state.limiter.maxResultBytes
    omega
  · intro other hother
    cases hother
  · have hle := h.slots_le
    show search.state.totalMatches ≤ search.state.matchLimit
    omega

theorem Kept.stopFull {search : Searching} (h : search.Kept limits cap) (sink : FileSink)
    (total : Nat) :
    ({ search with state := sink.stopFull total search.state } : Searching).Kept limits cap := by
  unfold FileSink.stopFull
  by_cases hfull : (sink.callbacksStopped && decide (search.state.matchLimit ≤ total)) = true
  · rw [if_pos hfull]
    exact ⟨⟨h.charged.resultBytes, h.charged.within, h.charged.word, h.charged.sound⟩, h.max,
      h.coherent, h.beside, h.slots, h.slots_le, h.limit, h.smallest⟩
  · rw [if_neg hfull]
    exact h

/-- The lines of the file are offered to the heap. -/
theorem Kept.commitText (greatest : Greatest LineMatch.key) {search : Searching}
    (h : search.Kept limits cap) {sink : FileSink} (hsink : search.sink = some sink) :
    ({ state := sink.commitText cap greatest search.state
       sink := none
       offered := search.offered ++ sink.lines } : Searching).Kept limits cap := by
  have hcharged := h.charged
  have hslots := h.slots
  have hle := h.slots_le
  rw [retained_some hsink] at hcharged
  rw [provisionalMatches_some hsink] at hslots
  have hword : search.state.matchSlots < wordSize :=
    (h.limit ▸ h.slots_le).trans_lt limits.countBudget_lt
  obtain ⟨hcharged, hcoherent, hsmallest⟩ :=
    @FileSink.commitLines_keeps cap greatest sink (sink.settled search.state) _
      hcharged (h.beside sink hsink) h.coherent h.smallest
  have haside := FileSink.commitLines_aside cap greatest sink (sink.settled search.state)
  generalize hdone : sink.commitLines cap greatest (sink.settled search.state) = done
    at hcharged hcoherent hsmallest haside
  have hmax : done.limiter.maxResultBytes = search.state.limiter.maxResultBytes :=
    congrArg (fun state => state.limiter.maxResultBytes) haside
  have hdoneSlots : done.matchSlots = search.state.matchSlots :=
    congrArg (fun state => state.matchSlots) haside
  have hdoneLimit : done.matchLimit = search.state.matchLimit :=
    congrArg (fun state => state.matchLimit) haside
  have htotal : done.totalMatches =
      fetchAdd search.state.totalMatches sink.reservedMatches :=
    congrArg (fun state => state.totalMatches) haside
  rw [fetchAdd_eq (by omega)] at htotal
  have hkept : ({ state := done, sink := none, offered := search.offered ++ sink.lines } :
      Searching).Kept limits cap := by
    have hretained : retained ⟨done, none, search.offered ++ sink.lines⟩ = done.heap :=
      List.append_nil _
    refine ⟨?_, hmax ▸ h.max, hcoherent, ?_, ?_, ?_, hdoneLimit.trans h.limit, ?_⟩
    · rw [hretained]
      exact hcharged
    · intro other hother
      cases hother
    · show done.matchSlots = done.totalMatches + 0
      omega
    · show done.matchSlots ≤ done.matchLimit
      omega
    · rw [← Multiset.coe_add]
      exact hsmallest
  rw [FileSink.commitText_eq, hdone]
  exact hkept.stopFull sink _

theorem Kept.step (greatest : Greatest LineMatch.key) {search after : Searching} {op : SearchOp}
    (h : search.Kept limits cap) (hstep : search.step greatest limits cap op = some after) :
    after.Kept limits cap := by
  cases op with
  | begin path =>
      simp only [Searching.step] at hstep
      by_cases hbusy : (search.sink.isSome || heapHasPath search.state.heap path) = true
      · rw [if_pos hbusy] at hstep
        cases hstep
      · rw [if_neg hbusy] at hstep
        injection hstep with hstep
        subst hstep
        rw [Bool.or_eq_true, not_or, Option.not_isSome_iff_eq_none] at hbusy
        exact h.begin hbusy.1 (by simpa using hbusy.2)
  | matched line =>
      obtain ⟨sink, hsink, hstep⟩ := Option.bind_eq_some_iff.1 hstep
      obtain ⟨⟨goOn, kept, state⟩, hmatched, hstep⟩ := Option.bind_eq_some_iff.1 hstep
      injection hstep with hstep
      subst hstep
      exact h.matched hsink hmatched
  | commitText =>
      obtain ⟨sink, hsink, hstep⟩ := Option.bind_eq_some_iff.1 hstep
      injection hstep with hstep
      subst hstep
      exact h.commitText greatest hsink
  | discard =>
      obtain ⟨sink, hsink, hstep⟩ := Option.bind_eq_some_iff.1 hstep
      injection hstep with hstep
      subst hstep
      exact h.discard hsink
  | drop =>
      obtain ⟨sink, hsink, hstep⟩ := Option.bind_eq_some_iff.1 hstep
      injection hstep with hstep
      subst hstep
      exact h.discard hsink

/-- After every run of a search its books are in order. -/
theorem run_accounts (greatest : Greatest LineMatch.key) (limits : Limits) (cap : Nat)
    {ops : List SearchOp} {search : Searching}
    (h : Machine.run (step greatest limits cap) (start limits) ops = some search) :
    search.Accounts limits cap := by
  have hkept : search.Kept limits cap :=
    Machine.run_preserves (P := fun _ => True) (fun s op t hs _ hstep => hs.step greatest hstep)
      (fun _ _ => trivial) (kept_start limits cap) h
  exact hkept.accounts

/-- A text with two matching lines. -/
def twoLines : List SearchOp :=
  [.begin ⟨0, toLex (['a'], [0x61])⟩, .matched ⟨[0x78, 0x0A], some 1⟩,
    .matched ⟨[0x78, 0x0A], some 2⟩, .commitText]

theorem run_accounts_twoLines :
    ∃ search : Searching,
      Machine.run (step (Greatest.first LineMatch.key) Limits.default 1) (start Limits.default)
        twoLines = some search ∧ search.Accounts Limits.default 1 :=
  ⟨_, rfl, @run_accounts (Greatest.first LineMatch.key) Limits.default 1 twoLines _ rfl⟩

end Searching

end MCode.Tools
