import MCode.Edit.Planner

/-!
# Fuzzy operations

`mcode-tools/src/builtin/edit/fuzzy.rs`: the pattern and the text are cut into
tokens, windows of tokens are ranked by a capped Levenshtein distance of the tokens
joined by spaces, and only a best window that beats the runner-up by the margin is
planned.

Places of the text count bytes.  Places of the joined tokens count characters; they
do not leave this module.
-/

namespace MCode.Edit.Fuzzy

open MCode.Lib MCode.Tools
open MCode.Files (Bytes isCharBoundary)
open MCode.Edit.Literal (Text MAX_PATTERN_BYTES)
open MCode.Edit.Template (Failure)

def MAX_FUZZY_DISTANCE : Nat := 3
def MIN_FUZZY_DISTANCE : Nat := 1
def MAX_FUZZY_NORM_CHARS : Nat := 256
def FUZZY_MARGIN_STEP : Nat := 8
def MAX_FUZZY_PREVIEW : Nat := 3
def MAX_FUZZY_TOKENS : Nat := 262144
def MAX_FUZZY_WINDOWS : Nat := 8192
def FUZZY_CANCEL_INTERVAL : Nat := 4 * 1024

/-- `u32::MAX`. -/
def U32_MAX : Nat := 4294967295

/-- The tables of `char::is_alphanumeric`, where the space is none. -/
structure Alphanumeric where
  holds : Char → Bool
  space : holds ' ' = false

/-! ## Tokens -/

structure Token where
  origStart : Nat
  origEnd : Nat
  normStart : Nat
  normEnd : Nat
  isWord : Bool
  deriving DecidableEq

structure Normalized where
  norm : Text
  tokens : List Token
  deriving DecidableEq

def isWordChar (table : Alphanumeric) (c : Char) : Bool := table.holds c || c == '_'

/-- The check at intervals, and where the next one is due. -/
def checkInterval (cancelled : Bool) (index next : Nat) : Except ToolError Nat :=
  if next ≤ index then (checkCancel cancelled).map fun _ => index + FUZZY_CANCEL_INTERVAL
  else .ok next

/-- What is read of a word: its characters, the rest, and where they end. -/
structure Word where
  chars : Text
  rest : Text
  stop : Nat
  next : Nat

/-- The loop over the characters of a word, which `end` has passed. -/
def wordLoop (table : Alphanumeric) (cancelled : Bool) : Text → Nat → Nat → Except ToolError Word
  | [], stop, next => .ok ⟨[], [], stop, next⟩
  | c :: rest, stop, next => do
      let next ← checkInterval cancelled stop next
      if isWordChar table c then
        let word ← wordLoop table cancelled rest (stop + c.utf8Size) next
        .ok { word with chars := c :: word.chars }
      else .ok ⟨[], c :: rest, stop, next⟩

/-- A token is pushed behind a space. -/
def Normalized.push (normalized : Normalized) (start stop : Nat) (chars : Text) (isWord : Bool) :
    Normalized :=
  let norm := if normalized.norm.isEmpty then normalized.norm else normalized.norm ++ [' ']
  { norm := norm ++ chars
    tokens := normalized.tokens ++
      [⟨start, stop, norm.length, (norm ++ chars).length, isWord⟩] }

/-- The loop over the text, which each round shortens. -/
def normalizeLoop (table : Alphanumeric) (maxTokens : Nat) (cancelled : Bool) :
    Nat → Text → Nat → Nat → Normalized → Except ToolError Normalized
  | 0, _, _, _, normalized => .ok normalized
  | _ + 1, [], _, _, normalized => .ok normalized
  | fuel + 1, c :: rest, index, next, normalized => do
      let next ← checkInterval cancelled index next
      if isWhiteSpace c then
        normalizeLoop table maxTokens cancelled fuel rest (index + c.utf8Size) next normalized
      else if maxTokens ≤ normalized.tokens.length then
        .error (.InvalidArgs ("fuzzy input exceeds " ++ toString maxTokens ++ " tokens"))
      else
        let isWord := isWordChar table c
        let word ←
          if isWord then wordLoop table cancelled rest (index + c.utf8Size) next
          else .ok ⟨[], rest, index + c.utf8Size, next⟩
        normalizeLoop table maxTokens cancelled fuel word.rest word.stop word.next
          (normalized.push index word.stop (c :: word.chars) isWord)

def normalize (table : Alphanumeric) (text : Text) (maxTokens : Nat) (cancelled : Bool) :
    Except ToolError Normalized := do
  let normalized ←
    normalizeLoop table maxTokens cancelled text.length text 0 FUZZY_CANCEL_INTERVAL ⟨[], []⟩
  checkCancel cancelled
  .ok normalized

/-- `norm[start..stop]`. -/
def Normalized.slice (normalized : Normalized) (start stop : Nat) : Text :=
  (normalized.norm.take stop).drop start

def Normalized.text (normalized : Normalized) (token : Token) : Text :=
  normalized.slice token.normStart token.normEnd

/-- `PreparedOp::Fuzzy`. -/
structure FuzzyOp where
  pattern : Text
  replacement : Text
  maxDistance : Nat

def prepare (table : Alphanumeric) (pattern replacement : Text) (maxDistance : Nat) :
    Except ToolError FuzzyOp :=
  if pattern = [] then .error (.InvalidArgs "fuzzy pattern must not be empty")
  else if MAX_PATTERN_BYTES < (Utf8.encode pattern).length then
    .error (.InvalidArgs ("fuzzy pattern exceeds " ++ toString MAX_PATTERN_BYTES ++ " bytes"))
  else if MAX_PATTERN_BYTES < (Utf8.encode replacement).length then
    .error (.InvalidArgs ("fuzzy replacement exceeds " ++ toString MAX_PATTERN_BYTES ++ " bytes"))
  else if maxDistance < MIN_FUZZY_DISTANCE ∨ MAX_FUZZY_DISTANCE < maxDistance then
    .error (.InvalidArgs ("max_distance must be " ++ toString MIN_FUZZY_DISTANCE ++ "..=" ++
      toString MAX_FUZZY_DISTANCE))
  else do
    let normalized ← normalize table pattern MAX_FUZZY_TOKENS false
    if normalized.tokens = [] then
      .error (.InvalidArgs "fuzzy pattern is only whitespace after tokenization")
    else if MAX_FUZZY_NORM_CHARS < normalized.norm.length then
      .error (.InvalidArgs ("fuzzy pattern exceeds " ++ toString MAX_FUZZY_NORM_CHARS ++
        " normalized characters"))
    else .ok ⟨pattern, replacement, maxDistance⟩

/-! ## Distances -/

/-- The cells of one row from `j` on, in a row that is written from left to right. -/
def rowLoop {α : Type} [DecidableEq α] (short : List α) (item : α) (prev : List Nat)
    (outside : Nat) : Nat → Nat → List Nat → List Nat
  | 0, _, curr => curr
  | count + 1, j, curr =>
      let cost := if short[j - 1]? = some item then 0 else 1
      let insert := min U32_MAX (curr.getD (j - 1) outside + 1)
      let delete := min U32_MAX (prev.getD j outside + 1)
      let subst := min U32_MAX (prev.getD (j - 1) outside + cost)
      rowLoop short item prev outside count (j + 1)
        (curr.set j (min (min (min insert delete) subst) outside))

/-- The loop over the longer list: the two rows are swapped after each round. -/
def rowsLoop {α : Type} [DecidableEq α] (short : List α) (max outside : Nat) :
    List α → Nat → List Nat → List Nat → List Nat
  | [], _, prev, _ => prev
  | item :: long, row, prev, curr =>
      let first := Nat.max (row - max) 1
      let last := min (row + max) short.length
      let curr := curr.set 0 (if row ≤ max then row else outside)
      let curr := if 1 < first then curr.set (first - 1) outside else curr
      let curr := rowLoop short item prev outside (last + 1 - first) first curr
      let curr := if last < short.length then curr.set (last + 1) outside else curr
      rowsLoop short max outside long (row + 1) curr prev

def boundedLevenshtein {α : Type} [DecidableEq α] (a b : List α) (maxDistance : Nat) : Option Nat :=
  let (short, long) := if a.length ≤ b.length then (a, b) else (b, a)
  if maxDistance < long.length - short.length then none
  else
    let outside := min U32_MAX (maxDistance + 1)
    let blank := List.replicate (short.length + 1) outside
    let prev := (List.range (short.length + 1)).map fun index =>
      if index ≤ min maxDistance short.length then index else outside
    let prev := rowsLoop short maxDistance outside long 1 prev blank
    let distance := prev.getD short.length outside
    if distance ≤ maxDistance then some distance else none

def isAscii (text : Text) : Bool := text.all fun c => c.toNat < 128

def boundedLevenshteinStr (a b : Text) (maxDistance : Nat) : Option Nat :=
  if a = b then some 0
  else
    let bLen := (b.take (a.length + maxDistance + 1)).length
    if MAX_FUZZY_NORM_CHARS < a.length ∨
        maxDistance < Nat.max (a.length - bLen) (bLen - a.length) then none
    else if isAscii a ∧ isAscii b then
      boundedLevenshtein (Utf8.encode a) (Utf8.encode b) maxDistance
    else boundedLevenshtein a b maxDistance

/-! ## Ranking -/

structure Candidate where
  start : Nat
  stop : Nat
  distance : Nat
  deriving DecidableEq

inductive PreviewDistance where
  | Exact (distance : Nat)
  | GreaterThan (limit : Nat)

def PreviewDistance.isExact : PreviewDistance → Bool
  | .Exact _ => true
  | .GreaterThan _ => false

def PreviewDistance.lowerBound : PreviewDistance → Nat
  | .Exact distance => distance
  | .GreaterThan limit => min U32_MAX (limit + 1)

structure PreviewCandidate where
  start : Nat
  stop : Nat
  distance : PreviewDistance

/-- The order of `sort_by_key` by lower bound, start and end, which is stable. -/
def PreviewCandidate.le (first second : PreviewCandidate) : Prop :=
  first.distance.lowerBound < second.distance.lowerBound ∨
    first.distance.lowerBound = second.distance.lowerBound ∧
      (first.start < second.start ∨ first.start = second.start ∧ first.stop ≤ second.stop)

instance : DecidableRel PreviewCandidate.le := fun _ _ => inferInstanceAs (Decidable (_ ∨ _))

structure Rank where
  best : Option Candidate
  second : Option Candidate
  preview : List PreviewCandidate

def rememberPreview (preview : List PreviewCandidate) (candidate : PreviewCandidate) :
    List PreviewCandidate :=
  let exact := candidate.distance.isExact
  let preview := if exact then preview.filter fun row => row.distance.isExact else preview
  if exact = false ∧ preview.any fun row => row.distance.isExact then preview
  else if preview.any fun row => row.start == candidate.start && row.stop == candidate.stop then
    preview
  else ((preview ++ [candidate]).insertionSort PreviewCandidate.le).take MAX_FUZZY_PREVIEW

def consider (rank : Rank) (candidate : Candidate) : Rank :=
  let rank := { rank with
    preview := rememberPreview rank.preview
      ⟨candidate.start, candidate.stop, .Exact candidate.distance⟩ }
  match rank.best with
  | none => { rank with best := some candidate }
  | some best =>
      if candidate.start = best.start ∧ candidate.stop = best.stop then
        if candidate.distance < best.distance then { rank with best := some candidate } else rank
      else if candidate.distance < best.distance then
        { rank with second := rank.best, best := some candidate }
      else if candidate.distance = best.distance then { rank with second := some candidate }
      else
        match rank.second with
        | none => { rank with second := some candidate }
        | some second =>
            if candidate.distance < second.distance then { rank with second := some candidate }
            else rank

/-! ## Windows -/

def tooManyStarts : ToolError :=
  .InvalidArgs ("fuzzy search exceeded " ++ toString MAX_FUZZY_WINDOWS ++ " candidate starts")

/-- An insertion into the set of starts, which is kept sorted. -/
def insertStart (starts : List Nat) (start : Nat) : Except ToolError (List Nat) :=
  let starts := if start ∈ starts then starts else starts.orderedInsert (· ≤ ·) start
  if MAX_FUZZY_WINDOWS < starts.length then .error tooManyStarts else .ok starts

/-- The loop over the tokens, from `index` on. -/
def startsLoop (needleWords : List Text) (haystack : Normalized) (maxToks : Nat)
    (cancelled : Bool) : List Token → Nat → List Nat → Except ToolError (List Nat)
  | [], _, starts => .ok starts
  | token :: tokens, index, starts => do
      if index % FUZZY_CANCEL_INTERVAL = 0 then checkCancel cancelled
      if token.isWord ∧ haystack.text token ∈ needleWords then
        let first := index - (maxToks - 1)
        let starts ← (List.range' first (index + 1 - first)).foldlM insertStart starts
        startsLoop needleWords haystack maxToks cancelled tokens (index + 1) starts
      else startsLoop needleWords haystack maxToks cancelled tokens (index + 1) starts

def candidateStarts (needle haystack : Normalized) (maxToks rankingDistance : Nat)
    (cancelled : Bool) : Except ToolError (List Nat) :=
  let needleWords := (needle.tokens.filter Token.isWord).map needle.text
  if rankingDistance * 2 < needleWords.length then
    startsLoop needleWords haystack maxToks cancelled haystack.tokens 0 []
  else if MAX_FUZZY_WINDOWS < haystack.tokens.length then .error tooManyStarts
  else .ok (List.range haystack.tokens.length)

/-- The loop over the lengths of windows from one start, and how many are attempted. -/
def windowLoop (needle haystack : Normalized) (rankingDistance : Nat) (cancelled : Bool)
    (start : Nat) : Nat → Nat → Rank × Nat → Except Failure (Rank × Nat)
  | 0, _, state => .ok state
  | count + 1, wlen, (rank, attempted) =>
      if haystack.tokens.length < start + wlen then .ok (rank, attempted)
      else
        let attempted := attempted + 1
        if MAX_FUZZY_WINDOWS < attempted then
          .error (.Error (.InvalidArgs ("fuzzy search exceeded " ++ toString MAX_FUZZY_WINDOWS ++
            " candidate windows")))
        else do
          if attempted % 256 = 0 then (checkCancel cancelled).mapError .Error
          match haystack.tokens[start]?, haystack.tokens[start + wlen - 1]? with
          | some first, some last =>
              let windowNorm := haystack.slice first.normStart last.normEnd
              let rank :=
                match boundedLevenshteinStr needle.norm windowNorm rankingDistance with
                | none => { rank with
                    preview := rememberPreview rank.preview
                      ⟨first.origStart, last.origEnd, .GreaterThan rankingDistance⟩ }
                | some distance => consider rank ⟨first.origStart, last.origEnd, distance⟩
              windowLoop needle haystack rankingDistance cancelled start count (wlen + 1)
                (rank, attempted)
          | _, _ => .error .Panic

def scoreWindows (needle haystack : Normalized) (rankingDistance : Nat) (cancelled : Bool) :
    Except Failure Rank :=
  if haystack.tokens = [] then .ok ⟨none, none, []⟩
  else do
    let minToks := Nat.max (needle.tokens.length - rankingDistance) 1
    let maxToks := needle.tokens.length + rankingDistance
    let starts ←
      (candidateStarts needle haystack maxToks rankingDistance cancelled).mapError .Error
    let (rank, _) ← starts.foldlM (fun state start =>
      windowLoop needle haystack rankingDistance cancelled start (maxToks + 1 - minToks) minToks
        state) (⟨none, none, []⟩, 0)
    if rank.preview.isEmpty then
      -- a search without an anchor still needs one line to show
      match haystack.tokens[0]?, haystack.tokens[min maxToks haystack.tokens.length - 1]? with
      | some first, some last => .ok { rank with
          preview := rememberPreview rank.preview
            ⟨first.origStart, last.origEnd, .GreaterThan rankingDistance⟩ }
      | _, _ => .error .Panic
    else .ok rank

/-! ## Rejections -/

/-- The loop of `line_location`, which goes on by a byte at least. -/
def locationLoop (bytes : Bytes) (offset : Nat) : Nat → Nat → Nat → Nat → Nat × Nat × Nat
  | 0, _, lineNo, lineStart => (lineNo, lineStart, bytes.length)
  | fuel + 1, index, lineNo, lineStart =>
      if bytes.length ≤ index then (lineNo, lineStart, bytes.length)
      else
        let termLen := lineTerminatorLen bytes index
        if termLen = 0 then locationLoop bytes offset fuel (index + 1) lineNo lineStart
        else if offset < index + termLen then (lineNo, lineStart, index)
        else locationLoop bytes offset fuel (index + termLen) (lineNo + 1) (index + termLen)

/-- The number of the line of an offset, and the range of what the line contains. -/
def lineLocation (bytes : Bytes) (offset : Nat) : Nat × Nat × Nat :=
  locationLoop bytes (min offset bytes.length) bytes.length 0 1 0

def previewExcerpt (body : Bytes) (lineStart lineEnd candidateStart : Nat) : Bytes :=
  let start := min (Nat.max candidateStart lineStart) lineEnd
  let anchored :=
    if isCharBoundary body start then between body start lineEnd
    else between body lineStart lineEnd
  if lineStart < start then Utf8.encode ['…'] ++ snippet anchored else snippet anchored

def appendPreview (body : Bytes) : List PreviewCandidate → Bytes → Bytes
  | [], msg => msg
  | candidate :: ranked, msg =>
      if MAX_DIFF_SUMMARY_BYTES ≤ msg.length then
        msg ++ Utf8.encode " [preview truncated]".toList
      else
        let (line, lineStart, lineEnd) := lineLocation body candidate.start
        let label :=
          match candidate.distance with
          | .Exact distance => " d=" ++ toString distance
          | .GreaterThan limit => " d>" ++ toString limit
        appendPreview body ranked (msg ++
          Utf8.encode ("\n  line " ++ toString line ++ label ++ ": ").toList ++
          previewExcerpt body lineStart lineEnd candidate.start)

/-- A message with the near misses. -/
def withPreview (msg : String) (ranked : List PreviewCandidate) (body : Bytes) : ToolError :=
  let bytes :=
    if ranked.isEmpty then Utf8.encode msg.toList
    else appendPreview body (ranked.take MAX_FUZZY_PREVIEW)
      (Utf8.encode (msg ++ "; near-misses:").toList)
  .Execution (String.ofList (Utf8.lossy bytes))

def distanceOverflowError (maxDistance : Nat) (preview : List PreviewCandidate) (body : Bytes) :
    ToolError :=
  let nearest :=
    match preview with
    | [] => ""
    | best :: _ =>
        match best.distance with
        | .Exact distance => " (nearest distance " ++ toString distance ++ ")"
        | .GreaterThan limit => " (nearest distance > " ++ toString limit ++ ")"
  withPreview ("fuzzy pattern has no match within max_distance=" ++ toString maxDistance ++ nearest)
    preview body

def ambiguousError (ranked : List PreviewCandidate) (body : Bytes) (best : Candidate)
    (requiredMargin : Nat) : ToolError :=
  withPreview ("fuzzy match is not a unique best (best distance " ++ toString best.distance ++
    ", required margin " ++ toString requiredMargin ++ ")") ranked body

/-! ## Planning -/

def requiredMargin (normalizedLen : Nat) : Nat :=
  min U32_MAX (1 + min U32_MAX (normalizedLen / FUZZY_MARGIN_STEP))

def planFuzzy (table : Alphanumeric) (body : Text) (op : FuzzyOp) (bomLen : Nat)
    (cancelled : Bool) : Planner Unit := do
  let needle ← .check (normalize table op.pattern MAX_FUZZY_TOKENS cancelled)
  let haystack ← .check (normalize table body MAX_FUZZY_TOKENS cancelled)
  let margin := requiredMargin needle.norm.length
  let rankingDistance := min U32_MAX (op.maxDistance + (margin - 1))
  let rank ← fun plan => (scoreWindows needle haystack rankingDistance cancelled).map (·, plan)
  match rank.best with
  | none => .refuse (distanceOverflowError op.maxDistance rank.preview (Utf8.encode body))
  | some best =>
      if op.maxDistance < best.distance then
        .refuse (distanceOverflowError op.maxDistance rank.preview (Utf8.encode body))
      else
        let uniqueWithMargin :=
          match rank.second with
          | none => true
          | some second =>
              best.distance < second.distance && margin ≤ second.distance - best.distance
        if uniqueWithMargin then
          .reserve (best.start + bomLen) (best.stop + bomLen) (Utf8.encode op.replacement)
        else .refuse (ambiguousError rank.preview (Utf8.encode body) best margin)

end MCode.Edit.Fuzzy
