import MCode.Lib.TopN
import MCode.Tools.FileTree
import MCode.Tools.Limiter

/-!
# Searching a file

The sink of one file keeps its matching lines until the file is known to be a
text: the lines are provisional, counted and charged to the limiter, and then
either committed to the heap of the search or given back.  The reader sees every
byte of the file and remembers whether one of them was NUL.

The searcher is not part of the program: it is any computation that reads and
reports lines.  What a file answers to a read, and when the search is cancelled
or out of time, is up to the environment.
-/

namespace MCode.Tools

open MCode.Lib

/-! ## Lines -/

/-- A shared value; two pointers are the same if their addresses are. -/
structure Arc (α : Type) where
  address : Nat
  value : α
  deriving DecidableEq

def Arc.ptrEq {α : Type} (first second : Arc α) : Bool :=
  first.address = second.address

def PathOrderKey.storeBytes (key : PathOrderKey) : Nat :=
  saturatingAdd (Utf8.encode (ofLex key).1).length (ofLex key).2.length

structure LineMatch where
  path : Arc PathOrderKey
  lineNo : Nat
  line : List Char
  deriving DecidableEq

def LineMatch.storeBytes (line : LineMatch) : Nat :=
  saturatingAdd (Utf8.encode line.line).length 8

/-- Lines are ordered by their path and number alone. -/
def LineMatch.key (line : LineMatch) : PathOrderKey ×ₗ Nat :=
  toLex (line.path.value, line.lineNo)

/-- The end of what is shown of a line: not within a character. -/
def lineEnd (bytes : List UInt8) : Nat → Nat
  | 0 => 0
  | n + 1 =>
      match bytes[n + 1]? with
      | none => n + 1
      | some byte => if byte &&& 0xC0 = 0x80 then lineEnd bytes n else n + 1

/-- The line as it is shown, and whether it is cut off. -/
def displayLine (bytes : List UInt8) (cap : Nat) : List Char × Bool :=
  let last := lineEnd bytes (min bytes.length cap)
  (Utf8.lossy (bytes.take last), last < bytes.length)

/-- A matching line as the searcher reports it. -/
structure SinkMatch where
  bytes : List UInt8
  lineNumber : Option Nat

/-- The line without its terminator. -/
def SinkMatch.content (matched : SinkMatch) : List UInt8 :=
  let bytes := matched.bytes
  let bytes := if bytes.getLast? = some 0x0A then bytes.dropLast else bytes
  if bytes.getLast? = some 0x0D then bytes.dropLast else bytes

/-! ## The state of a search -/

structure IoErrors where
  samples : List String
  count : Nat
  deriving DecidableEq

def ioErrorSamples : Nat := 5

def IoErrors.record (errors : IoErrors) (rel : String) (error : IoError) : IoErrors where
  count := errors.count + 1
  samples :=
    if errors.samples.length < ioErrorSamples then
      errors.samples ++ [rel ++ ": " ++ error.message]
    else errors.samples

structure SearchState where
  heap : List LineMatch
  totalMatches : Nat
  matchSlots : Nat
  countIncomplete : Bool
  matchLimit : Nat
  filesSearched : Nat
  linesTruncated : Bool
  ioErrors : IoErrors
  limiter : WalkLimiter

namespace SearchState

def new (limits : Limits) (limiter : WalkLimiter) : SearchState where
  heap := []
  totalMatches := 0
  matchSlots := 0
  countIncomplete := false
  matchLimit := limits.countBudget
  filesSearched := 0
  linesTruncated := false
  ioErrors := ⟨[], 0⟩
  limiter := limiter

/-- The number of slots after the reservation. -/
def reserveMatch (state : SearchState) : Option (Nat × SearchState) :=
  if state.matchLimit ≤ state.matchSlots then none
  else some (state.matchSlots + 1, { state with matchSlots := state.matchSlots + 1 })

def releaseProvisional (state : SearchState) (count : Nat) : SearchState :=
  if 0 < count then { state with matchSlots := fetchSub state.matchSlots count } else state

def settleText (state : SearchState) (count : Nat) : Nat × SearchState :=
  (state.totalMatches + count,
    { state with totalMatches := fetchAdd state.totalMatches count })

def releaseResultBytes (state : SearchState) (bytes : Nat) : SearchState :=
  { state with limiter := state.limiter.releaseResultBytes bytes }

end SearchState

/-! ## The sink of a file -/

structure FileSink where
  path : Arc PathOrderKey
  lines : List LineMatch
  binary : Bool
  reservedMatches : Nat
  callbacksStopped : Bool
  lineTruncated : Bool
  pathCharged : Bool

def FileSink.new (path : Arc PathOrderKey) : FileSink where
  path := path
  lines := []
  binary := false
  reservedMatches := 0
  callbacksStopped := false
  lineTruncated := false
  pathCharged := false

def heapHasPath (heap : List LineMatch) (path : Arc PathOrderKey) : Bool :=
  heap.any fun line => line.path.ptrEq path

/-! ### What is live -/

def lineBytes (lines : List LineMatch) : Nat :=
  (lines.map LineMatch.storeBytes).sum

def pathsOf (lines : List LineMatch) : Finset (Arc PathOrderKey) :=
  (lines.map LineMatch.path).toFinset

def pathBytes (paths : Finset (Arc PathOrderKey)) : Nat :=
  ∑ path ∈ paths, path.value.storeBytes

/-- The lines and paths of the heap and of the file in progress. -/
def liveBytes (sink : FileSink) (state : SearchState) : Nat :=
  lineBytes (state.heap ++ sink.lines) +
    pathBytes (insert sink.path (pathsOf (state.heap ++ sink.lines)))

namespace FileSink

variable (limits : Limits) (cap : Nat)

def chargePath (sink : FileSink) (state : SearchState) : Bool × FileSink × SearchState :=
  if sink.pathCharged then (true, sink, state)
  else
    match state.limiter.tryReserveResultBytes sink.path.value.storeBytes with
    | (false, limiter) => (false, sink, { state with limiter := limiter })
    | (true, limiter) => (true, { sink with pathCharged := true }, { state with limiter := limiter })

def releasePathCharge (sink : FileSink) (state : SearchState) : SearchState :=
  if sink.pathCharged then state.releaseResultBytes sink.path.value.storeBytes else state

/-- Keeps a line if there is room for it and for the path of the file. -/
def retain (sink : FileSink) (state : SearchState) (candidate : LineMatch) :
    FileSink × SearchState :=
  match state.limiter.tryReserveResultBytes candidate.storeBytes with
  | (false, limiter) => (sink, { state with limiter := limiter })
  | (true, limiter) =>
      match sink.chargePath { state with limiter := limiter } with
      | (false, sink, state) => (sink, state.releaseResultBytes candidate.storeBytes)
      | (true, sink, state) => ({ sink with lines := sink.lines ++ [candidate] }, state)

/-- The matching line as it would be kept, and whether it is cut off. -/
def candidate (sink : FileSink) (matched : SinkMatch) : LineMatch × Bool :=
  let (line, truncated) := displayLine matched.content limits.lineBytes
  (⟨sink.path, matched.lineNumber.getD 0, line⟩, truncated)

/-- Only the first `cap` lines of a file can be among the results. -/
def keepLine (sink : FileSink) (state : SearchState) (matched : SinkMatch) :
    Option (FileSink × SearchState) :=
  if sink.lines.length < cap then do
    let found := sink.candidate limits matched
    allocate (liveBytes sink state) found.1.storeBytes
    let sink := { sink with lineTruncated := sink.lineTruncated || found.2 }
    some (sink.retain state found.1)
  else some (sink, state)

/-- A line of the file matches: whether the searcher is to go on. -/
def matchedEvent (sink : FileSink) (state : SearchState) (matched : SinkMatch) :
    Option (Bool × FileSink × SearchState) :=
  match state.reserveMatch with
  | none => some (false, { sink with callbacksStopped := true }, state)
  | some (slotsAfter, state) =>
      let counted := { sink with reservedMatches := sink.reservedMatches + 1 }
      (counted.keepLine limits cap state matched).map fun kept =>
        if kept.2.matchLimit ≤ slotsAfter then
          (false, { kept.1 with callbacksStopped := true }, kept.2)
        else (true, kept.1, kept.2)

def refundRetained (sink : FileSink) (state : SearchState) : SearchState :=
  sink.releasePathCharge
    (sink.lines.foldl (fun state line => state.releaseResultBytes line.storeBytes) state)

/-- The file was binary, or hidden. -/
def discard (sink : FileSink) (state : SearchState) : SearchState :=
  (sink.refundRetained state).releaseProvisional sink.reservedMatches

/-- The sink is dropped before it is settled. -/
def drop (sink : FileSink) (state : SearchState) : SearchState :=
  sink.discard state

/-- Offers a line of the file to the heap. -/
def commitLine (greatest : TopN.Greatest LineMatch.key) (sink : FileSink) (state : SearchState)
    (line : LineMatch) : SearchState :=
  if state.heap.length < cap then { state with heap := line :: state.heap }
  else
    match greatest.peek state.heap with
    | none => state.releaseResultBytes line.storeBytes
    | some worst =>
        if line.key < worst.key then
          let heap := state.heap.erase worst
          let state := state.releaseResultBytes worst.storeBytes
          let state :=
            if !worst.path.ptrEq sink.path && !heapHasPath heap worst.path then
              state.releaseResultBytes worst.path.value.storeBytes
            else state
          { state with heap := line :: heap }
        else state.releaseResultBytes line.storeBytes

def commitLines (greatest : TopN.Greatest LineMatch.key) (sink : FileSink)
    (state : SearchState) : SearchState :=
  if sink.lines.isEmpty then sink.releasePathCharge state
  else
    let state := sink.lines.foldl (commitLine cap greatest sink) state
    if sink.pathCharged && !heapHasPath state.heap sink.path then sink.releasePathCharge state
    else state

/-- The file was a text. -/
def commitText (greatest : TopN.Greatest LineMatch.key) (sink : FileSink)
    (state : SearchState) : SearchState :=
  let (total, state) := state.settleText sink.reservedMatches
  let state := if sink.callbacksStopped then { state with countIncomplete := true } else state
  let state := if sink.lineTruncated then { state with linesTruncated := true } else state
  let state := { state with filesSearched := fetchAdd state.filesSearched 1 }
  let state := sink.commitLines cap greatest state
  if sink.callbacksStopped && state.matchLimit ≤ total then
    { state with limiter := state.limiter.stop "match-count budget reached" }
  else state

end FileSink

/-! ## Reading a file -/

/-- An open file.  What it answers to a read depends on the sizes of all reads of it so far, the
last one first; before each read the search may have been interrupted. -/
structure OpenedFile where
  interrupted : Nat → Option Interrupt
  read : List Nat → Except IoError (List UInt8)
  isHidden : Except IoError Bool

structure PolledReader where
  file : OpenedFile
  asked : List Nat
  eofSeen : Bool
  nulSeen : Bool

namespace PolledReader

def stoppedEarly : IoError := ⟨.Other, "search stopped early"⟩

def read (reader : PolledReader) (limiter : WalkLimiter) (scanCap length : Nat) :
    Except IoError (List UInt8) × PolledReader × WalkLimiter :=
  if length = 0 then (.ok [], reader, limiter)
  else
    match limiter.check (reader.file.interrupted reader.asked.length) with
    | (true, limiter) => (.error stoppedEarly, reader, limiter)
    | (false, limiter) =>
        match limiter.reserveScan length scanCap with
        | (none, limiter) =>
            (.error stoppedEarly, reader, limiter.stop "scanned-bytes limit reached")
        | (some reserved, limiter) =>
            let reader := { reader with asked := reserved :: reader.asked }
            match reader.file.read reader.asked with
            | .error error => (.error error, reader, limiter.settleScan reserved 0)
            | .ok answer =>
                let bytes := answer.take reserved
                (.ok bytes,
                  { reader with
                    eofSeen := reader.eofSeen || bytes.isEmpty
                    nulSeen := reader.nulSeen || bytes.contains 0 },
                  limiter.settleScan reserved bytes.length)

/-- Reads on to the end of the file or a NUL byte, in at most `fuel` reads. -/
def drainWithin (scanCap : Nat) :
    Nat → PolledReader → WalkLimiter → Except IoError Unit × PolledReader × WalkLimiter
  | 0, reader, limiter => (.ok (), reader, limiter)
  | fuel + 1, reader, limiter =>
      if reader.eofSeen || reader.nulSeen then (.ok (), reader, limiter)
      else
        match reader.read limiter scanCap (8 * 1024) with
        | (.error error, reader, limiter) => (.error error, reader, limiter)
        | (.ok bytes, reader, limiter) =>
            if bytes.isEmpty then (.ok (), reader, limiter)
            else drainWithin scanCap fuel reader limiter

/-- A read that does not end the loop has charged at least one byte to the budget. -/
def drainClassification (reader : PolledReader) (limiter : WalkLimiter) (scanCap : Nat) :
    Except IoError Unit × PolledReader × WalkLimiter :=
  drainWithin scanCap (scanCap - limiter.claimed + 2) reader limiter

end PolledReader

/-! ## Searching a file -/

/-- What a searcher does next with its reader and its sink. -/
inductive Search where
  | done (result : Except IoError Unit)
  | read (length : Nat) (next : Except IoError (List UInt8) → Search)
  | matched (line : SinkMatch) (next : Bool → Search)
  | binaryData (next : Bool → Search)

inductive Classification where
  | Binary
  | Text
  | Failed (error : IoError)

/-- Reads what the searcher has left of a file: what the file is. -/
def PolledReader.classifyRest (reader : PolledReader) (limiter : WalkLimiter) (scanCap : Nat) :
    Classification × WalkLimiter :=
  let (drained, reader, limiter) :=
    if !reader.eofSeen then reader.drainClassification limiter scanCap
    else (.ok (), reader, limiter)
  match drained with
  | .error error => (.Failed error, limiter)
  | .ok () =>
      if reader.nulSeen then (.Binary, limiter)
      else if reader.eofSeen then (.Text, limiter)
      else (.Failed ⟨.Other, "file classification did not reach EOF"⟩, limiter)

section

variable (limits : Limits) (cap : Nat)

def searchReader : Search → PolledReader → FileSink → SearchState →
    Option (Except IoError Unit × PolledReader × FileSink × SearchState)
  | .done result, reader, sink, state => some (result, reader, sink, state)
  | .read length next, reader, sink, state =>
      let (answer, reader, limiter) := reader.read state.limiter limits.scanBytes length
      searchReader (next answer) reader sink { state with limiter := limiter }
  | .matched line next, reader, sink, state => do
      let (goOn, sink, state) ← sink.matchedEvent limits cap state line
      searchReader (next goOn) reader sink state
  | .binaryData next, reader, sink, state =>
      searchReader (next false) reader { sink with binary := true } state

/-- Searches the file and reads the rest of it: what it is. -/
def classify (search : Search) (file : OpenedFile) (sink : FileSink) (state : SearchState) :
    Option (Classification × FileSink × SearchState) := do
  let (result, reader, sink, state) ←
    searchReader limits cap search ⟨file, [], false, false⟩ sink state
  if reader.nulSeen || sink.binary then return (.Binary, sink, state)
  match result with
  | .error error => return (.Failed error, sink, state)
  | .ok () =>
      let (kind, limiter) := reader.classifyRest state.limiter limits.scanBytes
      return (kind, sink, { state with limiter := limiter })

/-- An address that no line of the heap points to. -/
def freshAddress (heap : List LineMatch) : Nat :=
  (heap.map fun line => line.path.address + 1).foldr max 0

/-- The sink of a file that is about to be searched. -/
def beginFile (path : PathOrderKey) (state : SearchState) : FileSink :=
  FileSink.new ⟨freshAddress state.heap, path⟩

def searchOpenFile (greatest : TopN.Greatest LineMatch.key) (search : Search) (file : OpenedFile)
    (path : PathOrderKey) (state : SearchState) : Option (Except IoError Unit × SearchState) := do
  let (kind, sink, state) ← classify limits cap search file (beginFile path state) state
  match kind with
  | .Binary => return (.ok (), sink.discard state)
  | .Failed error => return (.error error, sink.drop state)
  | .Text =>
      match file.isHidden with
      | .error error => return (.error error, sink.drop state)
      | .ok true => return (.ok (), sink.discard state)
      | .ok false => return (.ok (), sink.commitText cap greatest state)

/-! ## Searching files -/

/-- A file that the walk comes to and that the globs let through. -/
structure WalkedFile where
  relative : RelPath
  /-- The search may have been interrupted before the file is opened, -/
  interrupted : Option Interrupt
  opened : Except IoError OpenedFile
  /-- or be cancelled when the search of the file has failed. -/
  cancelled : Bool

def isHiddenSkip (error : IoError) : Bool :=
  error.kind = .NotFound && decide ("hidden entry".toList <:+: error.message.toList)

/-- The visit of a file; the walk goes on unless the limiter says to quit. -/
def searchWalked (greatest : TopN.Greatest LineMatch.key) (search : Search) (item : WalkedFile)
    (state : SearchState) : Option SearchState :=
  match state.limiter.check item.interrupted with
  | (true, limiter) => some { state with limiter := limiter }
  | (false, limiter) =>
      let state := { state with limiter := limiter }
      let relative := String.ofList (toPosix item.relative)
      match item.opened with
      | .error error =>
          if isHiddenSkip error then some state
          else some { state with ioErrors := state.ioErrors.record relative error }
      | .ok file => do
          let (result, state) ← searchOpenFile limits cap greatest search file
            (PathOrderKey.fromPath item.relative) state
          match result with
          | .error error =>
              if !state.limiter.quit && !item.cancelled then
                return { state with ioErrors := state.ioErrors.record relative error }
              else return state
          | .ok () => return state

/-- The files in the order of the walk. -/
def searchFiles (greatest : TopN.Greatest LineMatch.key) (search : Search) :
    List WalkedFile → SearchState → Option SearchState
  | [], state => some state
  | item :: items, state => do
      let state ← searchWalked limits cap greatest search item state
      if state.limiter.quit then return state
      searchFiles greatest search items state

end

end MCode.Tools
