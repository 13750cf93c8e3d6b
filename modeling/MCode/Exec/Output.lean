import MCode.Exec.Argv
import MCode.Lib.Checked
import MCode.Lib.Results
import MCode.Tools.Ignore
import MCode.Tools.Limiter

/-!
# The output of a command

`mcode-tools/src/builtin/process/output.rs` keeps the beginning of what a
command writes and counts the rest, and `format_result` of `exec/mod.rs` and
`shell.rs` shows the decoded beginnings in one text, which is cut again.

Only the second cut is reported.  It follows from the first one: what is kept of
a stream that was cut is longer than the output may be once it is decoded, in
each of the encodings.  But a text of white space is not shown, and that is
decided from what was kept.
-/

namespace MCode.Exec

open MCode.Lib MCode.Core MCode.Tools
open MCode.Lib.Results (bind_ok)

abbrev Bytes := List UInt8

def MAX_OUTPUT_BYTES : Nat := 50 * 1024

/-- A byte order mark and two bytes for each one of the output, and one more. -/
def MAX_RETAINED_OUTPUT_BYTES : Nat := 2 + 2 * (MAX_OUTPUT_BYTES + 1)

/-- `u64::MAX`. -/
def U64_MAX : Nat := 18446744073709551615

/-- The bytes of a text. -/
def byteLen (text : List Char) : Nat :=
  (Utf8.encode text).length

@[simp] theorem byteLen_append (first second : List Char) :
    byteLen (first ++ second) = byteLen first + byteLen second := by
  simp [byteLen, Utf8.encode]

/-! ## What is kept of a stream -/

structure CapturedStream where
  retained : Bytes
  totalBytes : Nat

def CapturedStream.new : CapturedStream := ⟨[], 0⟩

/-- The loop of `read_bounded` over what the reader gives, which is nothing at
the end of the stream. -/
def readBounded : List (Except String Bytes) → CapturedStream → Except String CapturedStream
  | [], captured => .ok captured
  | .error err :: _, _ => .error err
  | .ok chunk :: reads, captured =>
      if chunk.length = 0 then .ok captured
      else do
        let totalBytes ← (Checked.add U64_MAX captured.totalBytes chunk.length).elim
          (.error "process output length overflowed u64") .ok
        let retained := MAX_RETAINED_OUTPUT_BYTES - captured.retained.length
        readBounded reads ⟨captured.retained ++ chunk.take retained, totalBytes⟩

/-- All that the reader gives. -/
def streamBytes : List (Except String Bytes) → Bytes
  | [] => []
  | .error _ :: _ => []
  | .ok chunk :: reads => if chunk.length = 0 then [] else chunk ++ streamBytes reads

/-- Elements past the limit are dropped with or without those before them. -/
theorem take_take_append {α : Type} (limit : Nat) (chunk rest : List α) :
    (chunk.take limit ++ rest).take limit = (chunk ++ rest).take limit := by
  by_cases hfits : chunk.length ≤ limit
  · rw [List.take_of_length_le hfits]
  · have hlength : (chunk.take limit).length = limit := by
      rw [List.length_take]
      omega
    rw [List.take_append_of_le_length (by omega), List.take_append_of_le_length (by omega),
      List.take_take, Nat.min_self]

theorem readBounded_retained {reads : List (Except String Bytes)}
    {captured result : CapturedStream}
    (hroom : captured.retained.length ≤ MAX_RETAINED_OUTPUT_BYTES)
    (h : readBounded reads captured = .ok result) :
    result.retained = (captured.retained ++ streamBytes reads).take MAX_RETAINED_OUTPUT_BYTES := by
  induction reads generalizing captured with
  | nil =>
      cases h
      rw [streamBytes, List.append_nil, List.take_of_length_le hroom]
  | cons read reads ih =>
      cases read with
      | error err => cases h
      | ok chunk =>
          rw [readBounded] at h
          rw [streamBytes]
          by_cases hend : chunk.length = 0
          · rw [if_pos hend] at h
            cases h
            rw [if_pos hend, List.append_nil, List.take_of_length_le hroom]
          · rw [if_neg hend, bind_ok] at h
            obtain ⟨totalBytes, -, hrest⟩ := h
            have hkept := ih (by
              dsimp only
              rw [List.length_append, List.length_take]
              omega) hrest
            rw [if_neg hend, hkept]
            dsimp only
            rw [List.append_assoc, List.take_append, take_take_append, ← List.take_append]

theorem readBounded_new {reads : List (Except String Bytes)} {result : CapturedStream}
    (h : readBounded reads .new = .ok result) :
    result.retained = (streamBytes reads).take MAX_RETAINED_OUTPUT_BYTES :=
  readBounded_retained (Nat.zero_le _) h

/-! ## What is shown -/

def stripMark (mark bytes : Bytes) : Option Bytes :=
  if bytes.take mark.length = mark then some (bytes.drop mark.length) else none

def fromLeBytes (low high : UInt8) : UInt16 := UInt16.ofNat (low.toNat + 256 * high.toNat)

def fromBeBytes (high low : UInt8) : UInt16 := fromLeBytes low high

def unitsOf (decodeUnit : UInt8 → UInt8 → UInt16) : Bytes → List UInt16
  | [] => []
  | [_] => []
  | first :: second :: payload => decodeUnit first second :: unitsOf decodeUnit payload

def decodeUtf16 (payload : Bytes) (decodeUnit : UInt8 → UInt8 → UInt16) : List Char :=
  let decoded := Utf16.lossy (unitsOf decodeUnit payload)
  if payload.length % 2 = 0 then decoded else decoded ++ ['\uFFFD']

def decodeCapturedText (bytes : Bytes) : List Char :=
  match stripMark [0xEF, 0xBB, 0xBF] bytes with
  | some payload => Utf8.lossy payload
  | none =>
      match stripMark [0xFF, 0xFE] bytes with
      | some payload => decodeUtf16 payload fromLeBytes
      | none =>
          match stripMark [0xFE, 0xFF] bytes with
          | some payload => decodeUtf16 payload fromBeBytes
          | none => Utf8.lossy bytes

/-- The longest front of whole characters within a number of bytes. -/
def frontWithin : Nat → List Char → List Char
  | _, [] => []
  | maxBytes, c :: text =>
      if c.utf8Size ≤ maxBytes then c :: frontWithin (maxBytes - c.utf8Size) text else []

def truncateBytes (text : List Char) (maxBytes : Nat) : List Char × Bool :=
  if byteLen text ≤ maxBytes then (text, false) else (frontWithin maxBytes text, true)

structure ExitStatus where
  code : Option Int32

def ExitStatus.success (self : ExitStatus) : Bool := self.code = some 0

def displayExit (status : ExitStatus) : Int32 := status.code.getD (-1)

def number (n : Nat) : Value := .number (toString n)

/-- The texts of both streams in one, each unless it is white space. -/
def shownText (stdoutText stderrText : List Char) : List Char :=
  let text := if (trim stdoutText).isEmpty then [] else stdoutText
  if (trim stderrText).isEmpty then text
  else (if text.isEmpty then text else text ++ ['\n']) ++ "[stderr]\n".toList ++ stderrText

/-- What stands behind the output: the status, or why there is none. -/
def trailer (status : Option ExitStatus) (isError : Bool) (notice : Option String) : List Char :=
  if isError then
    match status with
    | some status => ("\n[exit code: " ++ toString (displayExit status) ++ "]").toList
    | none =>
        match notice with
        | some notice => '\n' :: notice.toList
        | none => "\n[no exit status: command did not finish]".toList
  else notice.elim [] fun notice => '\n' :: notice.toList

/-- What the `format_result` of both tools does.  The first fields of the
details are those of the tool. -/
def formatOutput (fields : List (String × Value)) (status : Option ExitStatus)
    (stdout stderr : CapturedStream) (durationMs : Nat) (forcedError : Bool)
    (notice : Option String) : ToolResult :=
  let text := shownText (decodeCapturedText stdout.retained) (decodeCapturedText stderr.retained)
  let (text, truncated) := truncateBytes text MAX_OUTPUT_BYTES
  let total := min (stdout.totalBytes + stderr.totalBytes) U64_MAX
  let text := if truncated then text ++ ("\n[output truncated: showed first " ++
    toString MAX_OUTPUT_BYTES ++ " of " ++ toString total ++ " bytes]").toList else text
  let isError := forcedError || status.any fun status => !status.success
  let text := text ++ trailer status isError notice
  let details := fields ++ [("stdout_bytes", number stdout.totalBytes),
    ("stderr_bytes", number stderr.totalBytes), ("duration_ms", number durationMs),
    ("truncated", .bool truncated)]
  let details := details ++ status.elim [] fun status =>
    [("exit_code", Value.number (toString (displayExit status)))]
  ⟨[.Text ⟨String.ofList text⟩], isError, some (.object details)⟩

/-! ## The tools -/

def MAX_ARGUMENT_LENGTH_SUMMARY : Nat := 64

def encodeHex (bytes : Bytes) : String :=
  let hex := "0123456789abcdef".toList
  String.ofList (bytes.flatMap fun byte =>
    [hex.getD (byte.toNat / 16) '0', hex.getD (byte.toNat % 16) '0'])

/-- `u64::to_be_bytes`, of a length. -/
def toBeBytes (length : Nat) : Bytes :=
  [7, 6, 5, 4, 3, 2, 1, 0].map fun place => UInt8.ofNat (min length U64_MAX / 256 ^ place % 256)

def argumentDigest (sha256 : Bytes → Bytes) (argv : List String) : String :=
  encodeHex (sha256 (toBeBytes argv.length ++ argv.flatMap fun argument =>
    toBeBytes (byteLen argument.toList) ++ Utf8.encode argument.toList))

def argumentSummary (argv : List String) : Value :=
  .object [("byte_lengths", .array ((argv.take MAX_ARGUMENT_LENGTH_SUMMARY).map fun argument =>
      number (byteLen argument.toList))),
    ("omitted", number (argv.length - MAX_ARGUMENT_LENGTH_SUMMARY))]

def execFields (sha256 : Bytes → Bytes) (program : String) (argv : List String)
    (identity digest : String) : List (String × Value) :=
  [("program", .string program), ("args_count", number argv.length),
    ("args_digest_sha256", .string (argumentDigest sha256 argv)),
    ("args_summary", argumentSummary argv), ("identity", .string identity),
    ("digest_sha256", .string digest)]

/-- `format_result` of `exec`. -/
def formatResult (sha256 : Bytes → Bytes) (status : Option ExitStatus) (program : String)
    (argv : List String) (identity digest : String) (stdout stderr : CapturedStream)
    (durationMs : Nat) (forcedError : Bool) (notice : Option String) : ToolResult :=
  formatOutput (execFields sha256 program argv identity digest) status stdout stderr durationMs
    forcedError notice

def shellFields (command shell : String) : List (String × Value) :=
  [("command", .string command), ("shell", .string shell)]

/-- `format_result` of `shell`. -/
def Shell.formatResult (status : Option ExitStatus) (command shell : String)
    (stdout stderr : CapturedStream) (durationMs : Nat) (forcedError : Bool)
    (notice : Option String) : ToolResult :=
  formatOutput (shellFields command shell) status stdout stderr durationMs forcedError notice

/-! ## The sizes of decoded bytes -/

theorem stripMark_eq_some {mark bytes payload : Bytes} :
    stripMark mark bytes = some payload ↔ bytes = mark ++ payload := by
  unfold stripMark
  constructor
  · intro h
    split at h
    · rename_i hmark
      rw [← Option.some.inj h]
      calc bytes = bytes.take mark.length ++ bytes.drop mark.length :=
            (List.take_append_drop ..).symm
        _ = mark ++ bytes.drop mark.length := by rw [hmark]
    · cases h
  · rintro rfl
    rw [List.take_left, List.drop_left, if_pos rfl]

theorem unitsOf_length (decodeUnit : UInt8 → UInt8 → UInt16) (payload : Bytes) :
    (unitsOf decodeUnit payload).length = payload.length / 2 := by
  induction payload using unitsOf.induct with
  | case1 => rfl
  | case2 byte => simp [unitsOf]
  | case3 first second payload ih =>
      simp only [unitsOf, List.length_cons, ih]
      omega

theorem decodeUtf16_size (payload : Bytes) (decodeUnit : UInt8 → UInt8 → UInt16) :
    payload.length / 2 ≤ byteLen (decodeUtf16 payload decodeUnit) := by
  have hunits := Utf16.lossy_size (unitsOf decodeUnit payload)
  rw [unitsOf_length] at hunits
  unfold decodeUtf16
  dsimp only
  split
  · exact hunits
  · rw [byteLen_append]
    exact Nat.le_add_right_of_le hunits

/-- As many bytes as are kept of a stream are too many once they are decoded. -/
theorem decodeCapturedText_size {bytes : Bytes}
    (h : MAX_RETAINED_OUTPUT_BYTES ≤ bytes.length) :
    MAX_OUTPUT_BYTES < byteLen (decodeCapturedText bytes) := by
  unfold MAX_RETAINED_OUTPUT_BYTES MAX_OUTPUT_BYTES at *
  have hlossy (payload : Bytes) : payload.length ≤ byteLen (Utf8.lossy payload) :=
    Utf8.lossy_size payload
  unfold decodeCapturedText
  split
  · rename_i payload hmark
    have hbytes := congrArg List.length (stripMark_eq_some.1 hmark)
    have hsize := hlossy payload
    simp only [List.length_append, List.length_cons, List.length_nil] at hbytes
    omega
  · split
    · rename_i payload hmark
      have hbytes := congrArg List.length (stripMark_eq_some.1 hmark)
      have hsize := decodeUtf16_size payload fromLeBytes
      simp only [List.length_append, List.length_cons, List.length_nil] at hbytes
      omega
    · split
      · rename_i payload hmark
        have hbytes := congrArg List.length (stripMark_eq_some.1 hmark)
        have hsize := decodeUtf16_size payload fromBeBytes
        simp only [List.length_append, List.length_cons, List.length_nil] at hbytes
        omega
      · have hsize := hlossy bytes
        omega

/-! ## White space -/

def Blank (text : List Char) : Prop := ∀ c ∈ text, isWhiteSpace c = true

theorem trim_eq_nil (text : List Char) : trim text = [] ↔ Blank text := by
  rw [trim, List.reverse_eq_nil_iff, List.dropWhile_eq_nil_iff]
  constructor
  · intro h c hc
    rw [← List.takeWhile_append_dropWhile (p := isWhiteSpace) (l := text)] at hc
    cases List.mem_append.1 hc with
    | inl hfront => exact List.mem_takeWhile_imp hfront
    | inr hrest => exact h c (List.mem_reverse.2 hrest)
  · intro h c hc
    exact h c ((List.dropWhile_sublist _).subset (List.mem_reverse.1 hc))

/-- What is replaced shows. -/
theorem Blank.whole {text : List Char} (h : Blank text) : '\uFFFD' ∉ text := fun hin =>
  absurd (h _ hin) (by decide)

/-! ## Bytes behind a white front -/

theorem stripMark_append {mark front : Bytes} (more : Bytes) (h : mark.length ≤ front.length) :
    stripMark mark (front ++ more) = (stripMark mark front).map (· ++ more) := by
  unfold stripMark
  rw [List.take_append_of_le_length h, List.drop_append_of_le_length h]
  split <;> rfl

theorem unitsOf_append (decodeUnit : UInt8 → UInt8 → UInt16) {front : Bytes} (more : Bytes)
    (h : front.length % 2 = 0) :
    unitsOf decodeUnit (front ++ more) = unitsOf decodeUnit front ++ unitsOf decodeUnit more := by
  induction front using unitsOf.induct with
  | case1 => rfl
  | case2 byte => cases h
  | case3 first second front ih =>
      rw [List.length_cons, List.length_cons] at h
      rw [List.cons_append, List.cons_append, unitsOf, unitsOf, ih (by omega), List.cons_append]

theorem decodeUtf16_append (decodeUnit : UInt8 → UInt8 → UInt16) {front : Bytes} (more : Bytes)
    (heven : front.length % 2 = 0) (hwhole : '\uFFFD' ∉ decodeUtf16 front decodeUnit) :
    decodeUtf16 (front ++ more) decodeUnit =
      decodeUtf16 front decodeUnit ++ decodeUtf16 more decodeUnit := by
  have hlength : (front ++ more).length % 2 = more.length % 2 := by
    rw [List.length_append]
    omega
  unfold decodeUtf16 at hwhole ⊢
  dsimp only at hwhole ⊢
  rw [if_pos heven] at hwhole
  rw [if_pos heven, hlength, unitsOf_append decodeUnit more heven, Utf16.lossy_append _ hwhole]
  split
  · rfl
  · rw [List.append_assoc]

/-- A front of whole characters is the beginning of the text. -/
theorem decodeCapturedText_append {front : Bytes} (more : Bytes) (hmarks : 3 ≤ front.length)
    (heven : front.length % 2 = 0) (hwhole : '\uFFFD' ∉ decodeCapturedText front) :
    ∃ rest, decodeCapturedText (front ++ more) = decodeCapturedText front ++ rest := by
  have hthree := @stripMark_append [0xEF, 0xBB, 0xBF] front more hmarks
  have hlittle := @stripMark_append [0xFF, 0xFE] front more (Nat.le_of_succ_le hmarks)
  have hbig := @stripMark_append [0xFE, 0xFF] front more (Nat.le_of_succ_le hmarks)
  unfold decodeCapturedText at hwhole ⊢
  rw [hthree, hlittle, hbig]
  cases hmark : stripMark [0xEF, 0xBB, 0xBF] front with
  | some payload =>
      rw [hmark] at hwhole
      exact ⟨_, Utf8.lossy_append more hwhole⟩
  | none =>
      rw [hmark] at hwhole
      cases hmark : stripMark [0xFF, 0xFE] front with
      | some payload =>
          rw [hmark] at hwhole
          have hbytes := congrArg List.length (stripMark_eq_some.1 hmark)
          rw [List.length_append] at hbytes
          exact ⟨_, decodeUtf16_append _ more (by simp at hbytes; omega) hwhole⟩
      | none =>
          rw [hmark] at hwhole
          cases hmark : stripMark [0xFE, 0xFF] front with
          | some payload =>
              rw [hmark] at hwhole
              have hbytes := congrArg List.length (stripMark_eq_some.1 hmark)
              rw [List.length_append] at hbytes
              exact ⟨_, decodeUtf16_append _ more (by simp at hbytes; omega) hwhole⟩
          | none =>
              rw [hmark] at hwhole
              exact ⟨_, Utf8.lossy_append more hwhole⟩

/-! ## Long runs of white space -/

/-- A character that is not in the run lies before it or behind it. -/
theorem run_split {run before after : List Char} {c : Char} (hc : c ∉ run)
    (h : run <:+: before ++ c :: after) : run <:+: before ∨ run <:+: after := by
  obtain ⟨first, last, heq⟩ := h
  rw [List.append_assoc, List.append_eq_append_iff] at heq
  cases heq with
  | inl hinside =>
      obtain ⟨middle, rfl, hrest⟩ := hinside
      rw [List.append_eq_append_iff] at hrest
      cases hrest with
      | inl hshort =>
          obtain ⟨rest, rfl, -⟩ := hshort
          exact Or.inl ⟨first, rest, List.append_assoc ..⟩
      | inr hlong =>
          obtain ⟨rest, rfl, hlast⟩ := hlong
          cases rest with
          | nil => exact Or.inl ⟨first, [], by rw [List.append_nil, List.append_nil]⟩
          | cons d rest =>
              obtain ⟨rfl, -⟩ := List.cons_eq_cons.1 hlast
              exact absurd (List.mem_append_right _ (List.mem_cons_self ..)) hc
  | inr hbehind =>
      obtain ⟨middle, -, hrest⟩ := hbehind
      cases middle with
      | nil =>
          cases run with
          | nil => exact Or.inl (List.nil_infix)
          | cons d run =>
              obtain ⟨rfl, -⟩ := List.cons_eq_cons.1 hrest
              exact absurd (List.mem_cons_self ..) hc
      | cons d middle =>
          obtain ⟨rfl, rfl⟩ := List.cons_eq_cons.1 hrest
          exact Or.inr ⟨middle, last, List.append_assoc ..⟩

theorem byteLen_within {run text : List Char} (h : run <:+: text) : byteLen run ≤ byteLen text := by
  obtain ⟨before, after, rfl⟩ := h
  rw [byteLen_append, byteLen_append]
  omega

/-- A run of white space that is longer than the output is not in the output, nor
in a short text of the form of a status line behind it. -/
theorem run_not_shown {run shown behind : List Char} (hrun : Blank run)
    (hlong : MAX_OUTPUT_BYTES < byteLen run) (hfits : byteLen shown ≤ MAX_OUTPUT_BYTES)
    (hshown : Blank shown → shown = [])
    (hbehind : behind = [] ∨
      ∃ rest, behind = '\n' :: '[' :: rest ∧ byteLen rest ≤ MAX_OUTPUT_BYTES) :
    ¬ run <:+: shown ++ behind := by
  intro hin
  have hnot {text : List Char} (h : byteLen text ≤ MAX_OUTPUT_BYTES) : ¬ run <:+: text :=
    fun hin => absurd (byteLen_within hin) (by omega)
  have hnonwhite {c : Char} (h : isWhiteSpace c = false) : c ∉ run := fun hc =>
    absurd (hrun c hc) (by rw [h]; exact Bool.false_ne_true)
  cases hbehind with
  | inl hnone =>
      rw [hnone, List.append_nil] at hin
      exact hnot hfits hin
  | inr hline =>
      obtain ⟨rest, rfl, hrest⟩ := hline
      rw [List.append_cons] at hin
      refine (run_split (hnonwhite (by decide)) hin).elim (fun hin => ?_) (hnot hrest)
      -- the newline makes the run longer by a byte, and what is not white takes that byte
      by_cases hwhite : Blank shown
      · rw [hshown hwhite] at hin
        exact hnot (by decide) hin
      · obtain ⟨c, hc, hplain⟩ : ∃ c ∈ shown, isWhiteSpace c = false := by
          simpa [Blank] using hwhite
        obtain ⟨before, after, rfl⟩ := List.append_of_mem hc
        rw [List.append_assoc, List.cons_append] at hin
        have hsize : byteLen (before ++ c :: after) =
            byteLen before + (c.utf8Size + byteLen after) := by
          rw [byteLen_append]
          exact congrArg _ (Utf8.encode_cons_length c after)
        have hpos := c.utf8Size_pos
        have hnewline : byteLen (after ++ ['\n']) = byteLen after + 1 := byteLen_append ..
        refine (run_split (hnonwhite hplain) hin).elim (hnot (by omega)) (hnot (by omega))

/-! ## What a result says -/

theorem truncateBytes_fits {text : List Char} {maxBytes : Nat} (h : byteLen text ≤ maxBytes) :
    truncateBytes text maxBytes = (text, false) := if_pos h

theorem truncateBytes_cut {text : List Char} {maxBytes : Nat} (h : maxBytes < byteLen text) :
    truncateBytes text maxBytes = (frontWithin maxBytes text, true) :=
  if_neg (Nat.not_le_of_lt h)

/-- The details say that the output was cut. -/
def Marked (result : ToolResult) : Prop :=
  ∃ fields, result.details = some (.object fields) ∧ ("truncated", Value.bool true) ∈ fields

/-- Each text that is not white space is in a result that is not marked. -/
def Reported (result : ToolResult) (streams : List Bytes) : Prop :=
  ¬ Marked result → ∀ stream ∈ streams, ¬ Blank (decodeCapturedText stream) →
    ∃ text : String, result.content = [.Text ⟨text⟩] ∧
      decodeCapturedText stream <:+: text.toList

theorem shownText_eq (out err : List Char) :
    (Blank out ∧ Blank err ∧ shownText out err = []) ∨
    (¬ Blank out ∧ Blank err ∧ shownText out err = out) ∨
    (Blank out ∧ ¬ Blank err ∧ shownText out err = "[stderr]\n".toList ++ err) ∨
    (¬ Blank out ∧ ¬ Blank err ∧
      shownText out err = out ++ ['\n'] ++ "[stderr]\n".toList ++ err) := by
  by_cases hout : Blank out
  · by_cases herr : Blank err
    · simp [shownText, trim_eq_nil, hout, herr]
    · simp [shownText, trim_eq_nil, hout, herr]
  · have hne : out ≠ [] := fun h => hout (h ▸ fun c hc => nomatch hc)
    by_cases herr : Blank err
    · simp [shownText, trim_eq_nil, hout, herr]
    · simp [shownText, trim_eq_nil, hout, herr, hne]

section

variable {fields : List (String × Value)} (hfields : ∀ field ∈ fields, field.1 ≠ "truncated")
  (status : Option ExitStatus) (stdout stderr : CapturedStream) (durationMs : Nat)
  (forcedError : Bool) (notice : Option String)

include hfields in
theorem formatOutput_marked :
    Marked (formatOutput fields status stdout stderr durationMs forcedError notice) ↔
      MAX_OUTPUT_BYTES < byteLen (shownText (decodeCapturedText stdout.retained)
        (decodeCapturedText stderr.retained)) := by
  have hexit : ("truncated", Value.bool true) ∉ status.elim [] fun status =>
      [("exit_code", Value.number (toString (displayExit status)))] := by
    cases status <;> simp
  constructor
  · rintro ⟨all, hall, hin⟩
    refine Nat.lt_of_not_le fun hfits => ?_
    unfold formatOutput at hall
    dsimp only at hall
    rw [truncateBytes_fits hfits] at hall
    obtain rfl := Value.object.inj (Option.some.inj hall)
    rw [List.mem_append, List.mem_append] at hin
    obtain (hin | hin) | hin := hin
    · exact hfields _ hin rfl
    · simp at hin
    · exact hexit hin
  · intro hlong
    unfold Marked formatOutput
    dsimp only
    rw [truncateBytes_cut hlong]
    exact ⟨_, rfl, by simp⟩

theorem formatOutput_text (hfits : byteLen (shownText (decodeCapturedText stdout.retained)
      (decodeCapturedText stderr.retained)) ≤ MAX_OUTPUT_BYTES) :
    (formatOutput fields status stdout stderr durationMs forcedError notice).content =
      [.Text ⟨String.ofList (shownText (decodeCapturedText stdout.retained)
        (decodeCapturedText stderr.retained) ++
          trailer status (forcedError || status.any fun status => !status.success) notice)⟩] := by
  unfold formatOutput
  dsimp only
  rw [truncateBytes_fits hfits]
  rfl

end

theorem shownText_out {out : List Char} (err : List Char) (h : ¬ Blank out) : out <:+: shownText out err := by
  obtain ⟨hout, -⟩ | ⟨-, -, heq⟩ | ⟨hout, -⟩ | ⟨-, -, heq⟩ := shownText_eq out err
  · exact absurd hout h
  · rw [heq]
  · exact absurd hout h
  · rw [heq, List.append_assoc, List.append_assoc]
    exact List.infix_append_left

theorem shownText_err (out : List Char) {err : List Char} (h : ¬ Blank err) :
    "[stderr]\n".toList ++ err <:+: shownText out err := by
  obtain ⟨-, herr, -⟩ | ⟨-, herr, -⟩ | ⟨-, -, heq⟩ | ⟨-, -, heq⟩ := shownText_eq out err
  · exact absurd herr h
  · exact absurd herr h
  · rw [heq]
  · rw [heq, List.append_assoc]
    exact List.infix_append_right

theorem shownText_long {out err : List Char}
    (hfits : byteLen (shownText out err) ≤ MAX_OUTPUT_BYTES) :
    (¬ Blank out → byteLen out ≤ MAX_OUTPUT_BYTES) ∧
    (¬ Blank err → byteLen "[stderr]\n".toList + byteLen err ≤ MAX_OUTPUT_BYTES) := by
  refine ⟨fun hout => Nat.le_trans (byteLen_within (shownText_out err hout)) hfits, fun herr => ?_⟩
  rw [← byteLen_append]
  exact Nat.le_trans (byteLen_within (shownText_err out herr)) hfits

/-- What is white as a whole is empty. -/
theorem shownText_blank {out err : List Char} (h : Blank (shownText out err)) :
    shownText out err = [] := by
  obtain ⟨-, -, heq⟩ | ⟨hout, -, heq⟩ | ⟨-, herr, heq⟩ | ⟨hout, -, heq⟩ := shownText_eq out err
  · exact heq
  · exact absurd (heq ▸ h) hout
  · rw [heq] at h
    exact absurd (fun c hc => h c (List.mem_append_right _ hc)) herr
  · rw [heq, List.append_assoc, List.append_assoc] at h
    exact absurd (fun c hc => h c (List.mem_append_left _ hc)) hout

/-! ## Losses that are not reported -/

/-- What is kept of a stream is white space, and the stream is not. -/
def HidesText (stream : Bytes) : Prop :=
  Blank (decodeCapturedText (stream.take MAX_RETAINED_OUTPUT_BYTES)) ∧
    ¬ Blank (decodeCapturedText stream)

/-- Where one stream hides text, what is kept of the other one is too long. -/
def Covered (stdout stderr : Bytes) : Prop :=
  let out := decodeCapturedText (stdout.take MAX_RETAINED_OUTPUT_BYTES)
  let err := decodeCapturedText (stderr.take MAX_RETAINED_OUTPUT_BYTES)
  (HidesText stdout →
    ¬ Blank err ∧ MAX_OUTPUT_BYTES < byteLen "[stderr]\n".toList + byteLen err) ∧
  (HidesText stderr → ¬ Blank out ∧ MAX_OUTPUT_BYTES < byteLen out)

/-- A stream is kept as a whole, or too much of it is kept, or it hides text. -/
theorem stream_cases (stream : Bytes) (h : ¬ Blank (decodeCapturedText stream)) :
    stream.take MAX_RETAINED_OUTPUT_BYTES = stream ∨
    (¬ Blank (decodeCapturedText (stream.take MAX_RETAINED_OUTPUT_BYTES)) ∧
      MAX_OUTPUT_BYTES < byteLen (decodeCapturedText (stream.take MAX_RETAINED_OUTPUT_BYTES))) ∨
    HidesText stream := by
  by_cases hfits : stream.length ≤ MAX_RETAINED_OUTPUT_BYTES
  · exact Or.inl (List.take_of_length_le hfits)
  · by_cases hwhite : Blank (decodeCapturedText (stream.take MAX_RETAINED_OUTPUT_BYTES))
    · exact Or.inr (Or.inr ⟨hwhite, h⟩)
    · refine Or.inr (Or.inl ⟨hwhite, decodeCapturedText_size ?_⟩)
      rw [List.length_take]
      omega

theorem HidesText.long {stream : Bytes} (h : HidesText stream) :
    MAX_RETAINED_OUTPUT_BYTES < stream.length :=
  Nat.lt_of_not_le fun hfits => h.2 (List.take_of_length_le hfits ▸ h.1)

/-- The text of a stream that hides text begins with a run that is too long. -/
theorem HidesText.run {stream : Bytes} (h : HidesText stream) :
    ∃ run rest, decodeCapturedText stream = run ++ rest ∧ Blank run ∧
      MAX_OUTPUT_BYTES < byteLen run := by
  have hlong := h.long
  have hlength : (stream.take MAX_RETAINED_OUTPUT_BYTES).length = MAX_RETAINED_OUTPUT_BYTES := by
    rw [List.length_take]
    omega
  obtain ⟨rest, hrest⟩ := decodeCapturedText_append (stream.drop MAX_RETAINED_OUTPUT_BYTES)
    (by rw [hlength]; decide) (by rw [hlength]; decide) h.1.whole
  rw [List.take_append_drop] at hrest
  exact ⟨_, rest, hrest, h.1, decodeCapturedText_size (Nat.le_of_eq hlength.symm)⟩

/-- The notices of the callers. -/
def StatusLine (text : List Char) : Prop :=
  ∃ rest, text = '[' :: rest ∧ byteLen rest ≤ MAX_OUTPUT_BYTES

theorem byteLen_le (text : List Char) : byteLen text ≤ 4 * text.length := by
  induction text with
  | nil => exact Nat.le_refl _
  | cons c text ih =>
      have hsize := Utf8.encode_cons_length c text
      have hle := c.utf8Size_le_four
      unfold byteLen at ih ⊢
      rw [hsize, List.length_cons]
      omega

theorem exit_length (code : Int32) : (toString code).length ≤ 11 := by
  have hlow := code.le_toInt
  have hhigh := code.toInt_lt
  show (Int.repr code.toInt).length ≤ 11
  generalize code.toInt = value at hlow hhigh
  cases value with
  | ofNat n =>
      rw [Int.ofNat_eq_natCast] at hhigh
      have hn : n.repr.length ≤ 10 := (Nat.length_repr_le_iff (by decide)).2 (by omega)
      exact Nat.le_succ_of_le hn
  | negSucc n =>
      have hn : (n + 1).repr.length ≤ 10 := (Nat.length_repr_le_iff (by decide)).2 (by omega)
      show ("-" ++ (n + 1).repr).length ≤ 11
      rw [String.length_append]
      exact Nat.add_le_add_left hn 1

theorem trailer_cases (status : Option ExitStatus) (isError : Bool) {notice : Option String}
    (hnotice : ∀ text ∈ notice, StatusLine text.toList) :
    trailer status isError notice = [] ∨ ∃ rest, trailer status isError notice =
      '\n' :: '[' :: rest ∧ byteLen rest ≤ MAX_OUTPUT_BYTES := by
  have hline : ∀ text ∈ notice, ∃ rest, '\n' :: text.toList = '\n' :: '[' :: rest ∧
      byteLen rest ≤ MAX_OUTPUT_BYTES := by
    intro text htext
    obtain ⟨rest, heq, hrest⟩ := hnotice text htext
    exact ⟨rest, by rw [heq], hrest⟩
  unfold trailer
  cases isError with
  | false =>
      cases notice with
      | none => exact Or.inl rfl
      | some text => exact Or.inr (hline text rfl)
  | true =>
      cases status with
      | some status =>
          have hlength := exit_length (displayExit status)
          refine Or.inr ⟨"exit code: ".toList ++ (toString (displayExit status)).toList ++ [']'],
            by simp [String.toList_append], Nat.le_trans (byteLen_le _) ?_⟩
          rw [List.length_append, List.length_append, String.length_toList, String.length_toList]
          show 4 * (11 + _ + 1) ≤ 51200
          omega
      | none =>
          cases notice with
          | none => exact Or.inr ⟨_, rfl, by decide⟩
          | some text => exact Or.inr (hline text rfl)

section

variable {fields : List (String × Value)} (hfields : ∀ field ∈ fields, field.1 ≠ "truncated")
  (status : Option ExitStatus) {out err : Bytes} {stdout stderr : CapturedStream}
  (hstdout : stdout.retained = out.take MAX_RETAINED_OUTPUT_BYTES)
  (hstderr : stderr.retained = err.take MAX_RETAINED_OUTPUT_BYTES) (durationMs : Nat)
  (forcedError : Bool) (notice : Option String)

include hfields hstdout hstderr

theorem reported_of_covered (h : Covered out err) :
    Reported (formatOutput fields status stdout stderr durationMs forcedError notice)
      [out, err] := by
  intro hunmarked stream hin hshow
  rw [formatOutput_marked hfields, Nat.not_lt] at hunmarked
  refine ⟨_, formatOutput_text _ _ _ _ _ _ hunmarked, ?_⟩
  rw [hstdout, hstderr] at hunmarked ⊢
  rw [String.toList_ofList]
  refine List.infix_append_of_infix_left ?_
  have hshort := shownText_long hunmarked
  rw [List.mem_cons, List.mem_singleton] at hin
  cases hin with
  | inl hin =>
      subst hin
      obtain hkept | ⟨hwhite, hlong⟩ | hhides := stream_cases stream hshow
      · rw [hkept]
        exact shownText_out _ hshow
      · exact absurd (hshort.1 hwhite) (Nat.not_le_of_lt hlong)
      · obtain ⟨hwhite, hlong⟩ := h.1 hhides
        exact absurd (hshort.2 hwhite) (Nat.not_le_of_lt hlong)
  | inr hin =>
      subst hin
      obtain hkept | ⟨hwhite, hlong⟩ | hhides := stream_cases stream hshow
      · rw [hkept]
        exact List.infix_append_right.trans (shownText_err _ hshow)
      · have hfits := hshort.2 hwhite
        omega
      · obtain ⟨hwhite, hlong⟩ := h.2 hhides
        exact absurd (hshort.1 hwhite) (Nat.not_le_of_lt hlong)

theorem covered_of_reported (hnotice : ∀ text ∈ notice, StatusLine text.toList)
    (h : Reported (formatOutput fields status stdout stderr durationMs forcedError notice)
      [out, err]) : Covered out err := by
  -- a hidden text would have to be in an output that is short enough
  have hhidden : ∀ stream ∈ [out, err], HidesText stream →
      MAX_OUTPUT_BYTES < byteLen (shownText
        (decodeCapturedText (out.take MAX_RETAINED_OUTPUT_BYTES))
        (decodeCapturedText (err.take MAX_RETAINED_OUTPUT_BYTES))) := by
    intro stream hin hhides
    refine Nat.lt_of_not_le fun hfits => ?_
    have hunmarked : ¬ Marked
        (formatOutput fields status stdout stderr durationMs forcedError notice) := by
      rw [formatOutput_marked hfields, hstdout, hstderr]
      exact Nat.not_lt_of_le hfits
    obtain ⟨text, htext, hshown⟩ := h hunmarked stream hin hhides.2
    rw [formatOutput_text _ _ _ _ _ _ (by rw [hstdout, hstderr]; exact hfits), hstdout,
      hstderr] at htext
    obtain ⟨run, rest, heq, hrun, hlong⟩ := hhides.run
    have hwhole : text = _ := (TextBlock.mk.inj (ContentBlock.Text.inj
      (List.cons_eq_cons.1 htext).1)).symm
    rw [hwhole, String.toList_ofList, heq] at hshown
    exact run_not_shown hrun hlong hfits shownText_blank (trailer_cases _ _ hnotice)
      (List.infix_append_left.trans hshown)
  refine ⟨fun hhides => ?_, fun hhides => ?_⟩
  · have hlong := hhidden out (List.mem_cons_self ..) hhides
    obtain ⟨-, -, heq⟩ | ⟨hout, -⟩ | ⟨-, herr, heq⟩ | ⟨hout, -⟩ := shownText_eq
        (decodeCapturedText (out.take MAX_RETAINED_OUTPUT_BYTES))
        (decodeCapturedText (err.take MAX_RETAINED_OUTPUT_BYTES))
    · rw [heq] at hlong
      exact absurd hlong (Nat.not_lt_zero _)
    · exact absurd hhides.1 hout
    · rw [heq, byteLen_append] at hlong
      exact ⟨herr, hlong⟩
    · exact absurd hhides.1 hout
  · have hlong := hhidden err (by simp) hhides
    obtain ⟨-, -, heq⟩ | ⟨hout, -, heq⟩ | ⟨-, herr, -⟩ | ⟨-, herr, -⟩ := shownText_eq
        (decodeCapturedText (out.take MAX_RETAINED_OUTPUT_BYTES))
        (decodeCapturedText (err.take MAX_RETAINED_OUTPUT_BYTES))
    · rw [heq] at hlong
      exact absurd hlong (Nat.not_lt_zero _)
    · rw [heq] at hlong
      exact ⟨hout, hlong⟩
    · exact absurd hhides.1 herr
    · exact absurd hhides.1 herr

end

theorem execFields_free (sha256 : Bytes → Bytes) (program : String) (argv : List String)
    (identity digest : String) :
    ∀ field ∈ execFields sha256 program argv identity digest, field.1 ≠ "truncated" := by
  simp [execFields]

theorem shellFields_free (command shell : String) :
    ∀ field ∈ shellFields command shell, field.1 ≠ "truncated" := by
  simp [shellFields]

/-- A result that is not marked has the text of both streams, if and only if
where a stream hides text behind a white front the other one is cut. -/
theorem output_reported_iff (sha256 : Bytes → Bytes) (status : Option ExitStatus)
    (program : String) (argv : List String) (identity digest command shell : String)
    (durationMs : Nat) (forcedError : Bool) (notice : Option String)
    {outReads errReads : List (Except String Bytes)} {stdout stderr : CapturedStream}
    (hout : readBounded outReads .new = .ok stdout)
    (herr : readBounded errReads .new = .ok stderr) :
    let exec := formatResult sha256 status program argv identity digest stdout stderr durationMs
      forcedError notice
    let shell := Shell.formatResult status command shell stdout stderr durationMs forcedError notice
    let streams := [streamBytes outReads, streamBytes errReads]
    let covered := Covered (streamBytes outReads) (streamBytes errReads)
    (covered → Reported exec streams ∧ Reported shell streams) ∧
    ((∀ text ∈ notice, StatusLine text.toList) →
      (Reported exec streams ↔ covered) ∧ (Reported shell streams ↔ covered)) := by
  have hstdout := readBounded_new hout
  have hstderr := readBounded_new herr
  have hexec := execFields_free sha256 program argv identity digest
  have hshell := shellFields_free command shell
  exact ⟨fun h => ⟨reported_of_covered hexec status hstdout hstderr durationMs forcedError notice h,
      reported_of_covered hshell status hstdout hstderr durationMs forcedError notice h⟩,
    fun hnotice => ⟨⟨covered_of_reported hexec status hstdout hstderr durationMs forcedError
        notice hnotice,
      reported_of_covered hexec status hstdout hstderr durationMs forcedError notice⟩,
      covered_of_reported hshell status hstdout hstderr durationMs forcedError notice hnotice,
      reported_of_covered hshell status hstdout hstderr durationMs forcedError notice⟩⟩

/-- A command that wrote `a` before it was killed. -/
theorem output_reported_iff_killed :
    Reported (Shell.formatResult none "c" "sh" ⟨[0x61], 1⟩ .new 0 true (some "[killed]"))
      [[0x61], []] := by
  have hiff := @output_reported_iff id none "p" [] "" "" "c" "sh" 0 true (some "[killed]")
    [.ok [0x61]] [] ⟨[0x61], 1⟩ .new rfl rfl
  have hnotice : ∀ text ∈ some "[killed]", StatusLine text.toList := by
    rintro text ⟨⟩
    exact ⟨_, rfl, by decide⟩
  exact (hiff.2 hnotice).2.2
    ⟨fun h => absurd h.long (by decide), fun h => absurd h.long (by decide)⟩

/-! ## A loss -/

theorem lossy_spaces (count : Nat) (more : Bytes) :
    Utf8.lossy (List.replicate count 0x20 ++ more) =
      List.replicate count ' ' ++ Utf8.lossy more := by
  induction count with
  | zero => rfl
  | succ count ih =>
      rw [List.replicate_succ, List.replicate_succ, List.cons_append, List.cons_append, ← ih]
      unfold Utf8.lossy
      rw [Utf8.chunks_cons]
      rfl

theorem decode_spaces (count : Nat) (more : Bytes) (h : 0 < count) :
    decodeCapturedText (List.replicate count 0x20 ++ more) =
      List.replicate count ' ' ++ Utf8.lossy more := by
  have hmark : ∀ mark : Bytes, (∃ first rest, mark = first :: rest ∧ first ≠ 0x20) →
      stripMark mark (List.replicate count 0x20 ++ more) = none := by
    rintro mark ⟨first, rest, rfl, hne⟩
    obtain ⟨count, rfl⟩ : ∃ n, count = n + 1 := ⟨count - 1, by omega⟩
    refine if_neg fun heq => hne ?_
    exact (List.cons_eq_cons.1 heq).1.symm
  unfold decodeCapturedText
  rw [hmark _ ⟨_, _, rfl, by decide⟩, hmark _ ⟨_, _, rfl, by decide⟩,
    hmark _ ⟨_, _, rfl, by decide⟩, lossy_spaces]

theorem streamBytes_chunks (count size : Nat) (byte : UInt8) (hsize : 0 < size)
    (reads : List (Except String Bytes)) :
    streamBytes (List.replicate count (.ok (List.replicate size byte)) ++ reads) =
      List.replicate (count * size) byte ++ streamBytes reads := by
  induction count with
  | zero => rw [Nat.zero_mul]; rfl
  | succ count ih =>
      rw [List.replicate_succ, List.cons_append, streamBytes,
        if_neg (by rw [List.length_replicate]; omega), ih, ← List.append_assoc,
        List.replicate_append_replicate, Nat.succ_mul, Nat.add_comm size]

/-- Reads without errors of at most 2^64 bytes in all are kept. -/
theorem readBounded_total {reads : List (Except String Bytes)} {captured : CapturedStream}
    (hreads : ∀ read ∈ reads, ∃ chunk, read = .ok chunk)
    (htotal : captured.totalBytes + (streamBytes reads).length ≤ U64_MAX) :
    ∃ result, readBounded reads captured = .ok result := by
  induction reads generalizing captured with
  | nil => exact ⟨_, rfl⟩
  | cons read reads ih =>
      obtain ⟨chunk, rfl⟩ := hreads read (List.mem_cons_self ..)
      rw [readBounded]
      rw [streamBytes] at htotal
      by_cases hend : chunk.length = 0
      · exact ⟨_, if_pos hend⟩
      · rw [if_neg hend, List.length_append] at htotal
        rw [if_neg hend, Checked.add, Checked.within_eq_some.2 ⟨by omega, rfl⟩]
        exact ih (fun read hin => hreads read (List.mem_cons_of_mem _ hin)) (by dsimp only; omega)

theorem spaces_hide {count : Nat} (h : MAX_RETAINED_OUTPUT_BYTES ≤ count) :
    HidesText (List.replicate count 0x20 ++ [0x78]) := by
  have hpos : 0 < MAX_RETAINED_OUTPUT_BYTES := by decide
  have hfront : (List.replicate count (0x20 : UInt8) ++ [0x78]).take MAX_RETAINED_OUTPUT_BYTES =
      List.replicate MAX_RETAINED_OUTPUT_BYTES 0x20 ++ [] := by
    rw [List.take_append_of_le_length (by rw [List.length_replicate]; exact h),
      List.take_replicate, Nat.min_eq_left h, List.append_nil]
  unfold HidesText
  rw [hfront, decode_spaces _ _ hpos, decode_spaces _ _ (Nat.lt_of_lt_of_le hpos h)]
  refine ⟨fun c hc => ?_, fun hwhite => ?_⟩
  · cases List.mem_append.1 hc with
    | inl hc => rw [(List.mem_replicate.1 hc).2]; decide
    | inr hc => nomatch hc
  · exact absurd (hwhite 'x' (List.mem_append_right _ (by decide))) (by decide)

/-- Seven reads of spaces, and then a letter. -/
def hiddenReads : List (Except String Bytes) :=
  List.replicate 7 (.ok (List.replicate 16384 0x20)) ++ [.ok [0x78]]

/-- The letter is lost, and nothing says so. -/
theorem letter_lost : ∃ stdout, readBounded hiddenReads .new = .ok stdout ∧
    ¬ Reported (Shell.formatResult (some ⟨some 0⟩) "c" "sh" stdout .new 0 false none)
      [streamBytes hiddenReads, []] ∧
    ¬ Reported (formatResult id (some ⟨some 0⟩) "p" [] "" "" stdout .new 0 false none)
      [streamBytes hiddenReads, []] := by
  have hbytes : streamBytes hiddenReads = List.replicate 114688 0x20 ++ [0x78] :=
    streamBytes_chunks 7 16384 0x20 (by decide) _
  have hreads : ∀ read ∈ hiddenReads, ∃ chunk, read = .ok chunk := by
    intro read hin
    cases List.mem_append.1 hin with
    | inl hin => exact ⟨_, (List.mem_replicate.1 hin).2⟩
    | inr hin => exact ⟨_, List.mem_singleton.1 hin⟩
  obtain ⟨stdout, hstdout⟩ := @readBounded_total hiddenReads .new hreads (by
    rw [hbytes, List.length_append, List.length_replicate]
    decide)
  have hretained := readBounded_new hstdout
  have hempty : CapturedStream.new.retained = ([] : Bytes).take MAX_RETAINED_OUTPUT_BYTES :=
    List.take_nil.symm
  have hhides : HidesText (streamBytes hiddenReads) := hbytes ▸ spaces_hide (by decide)
  have huncovered : ¬ Covered (streamBytes hiddenReads) [] := fun h =>
    (h.1 hhides).1 fun c hc => nomatch hc
  refine ⟨stdout, hstdout, fun h => huncovered ?_, fun h => huncovered ?_⟩
  · exact covered_of_reported (shellFields_free _ _) _ hretained hempty 0 false none
      (fun _ h => nomatch h) h
  · exact covered_of_reported (execFields_free _ _ _ _ _) _ hretained hempty 0 false none
      (fun _ h => nomatch h) h

end MCode.Exec
