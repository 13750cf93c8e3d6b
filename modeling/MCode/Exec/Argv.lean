import MCode.Lib.Utf16
import MCode.Tools.Stream

/-!
# The command line of a Windows process

`mcode-tools/src/builtin/exec/argv.rs`: `CreateProcessW` gets one line of
UTF-16 units, in which the program and its arguments are quoted so that the
started process takes them apart again.

`commandLineToArgvW` is written from the documented rules of the function of
that name, not from the encoder.  The lines that are produced are read back as
what they were made of, with runs of backslashes and quotes as they were.
-/

namespace MCode.Exec

open MCode.Lib MCode.Tools

def SPACE : UInt16 := 0x20
def TAB : UInt16 := 0x09
def QUOTE : UInt16 := 0x22
def BACKSLASH : UInt16 := 0x5C

/-! ## The encoder -/

def WINDOWS_COMMAND_LINE_LIMIT_UTF16_UNITS : Nat := 32767

def needsQuotes (chars : List Char) : Bool :=
  chars.isEmpty || chars.any fun c =>
    c = ' ' || c = '\t' || c = '\n' || c = '\r' || c = '"'

/-- What the loop of `append_quoted` appends after `backslashes` that it has
just appended, with the closing quote. -/
def appendUnits (quote : Bool) : Nat → List UInt16 → List UInt16
  | backslashes, [] => if quote then List.replicate backslashes BACKSLASH ++ [QUOTE] else []
  | backslashes, unit :: units =>
      if unit = BACKSLASH then unit :: appendUnits quote (backslashes + 1) units
      else if unit = QUOTE then
        List.replicate (backslashes + 1) BACKSLASH ++ unit :: appendUnits quote 0 units
      else unit :: appendUnits quote 0 units

def appendQuoted (cmd : List UInt16) (units : List UInt16) (quote : Bool) : List UInt16 :=
  cmd ++ (if quote then [QUOTE] else []) ++ appendUnits quote 0 units

def rejectNul (value : List Char) (what : String) : Except ToolError Unit :=
  if '\x00' ∈ value then .error (.InvalidArgs (what ++ " contains an interior NUL")) else .ok ()

/-- `encode_os` on Windows, where a program path is UTF-16 units. -/
def encodeOs (value : List UInt16) : Except ToolError (List UInt16) :=
  if 0 ∈ value then .error (.InvalidArgs "program path contains an interior NUL") else .ok value

/-- The loop over the arguments. -/
def appendArgs (cmd : List UInt16) : List String → Except ToolError (List UInt16)
  | [] => .ok cmd
  | arg :: args => do
      rejectNul arg.toList "argument"
      appendArgs (appendQuoted (cmd ++ [SPACE]) (Utf16.encode arg.toList)
        (needsQuotes arg.toList)) args

def windowsCommandLineUtf16 (argv0 : List UInt16) (args : List String) :
    Except ToolError (List UInt16) := do
  let units ← encodeOs argv0
  let cmd ← appendArgs (appendQuoted [] units true) args
  let withTerminator := cmd.length + 1
  if WINDOWS_COMMAND_LINE_LIMIT_UTF16_UNITS < withTerminator then
    .error (.InvalidArgs
      ("command line is too long for CreateProcessW's 32,767 UTF-16-code-unit limit " ++
        "(including the terminator): encoded length is " ++ toString withTerminator))
  else .ok cmd

/-- The line before its length is checked. -/
def commandLine (argv0 : List UInt16) (args : List String) : List UInt16 :=
  args.foldl (fun cmd arg =>
    appendQuoted (cmd ++ [SPACE]) (Utf16.encode arg.toList) (needsQuotes arg.toList))
    (appendQuoted [] argv0 true)

/-! ## The rules by which a process reads its line -/

def isBlank (unit : UInt16) : Bool := unit = SPACE || unit = TAB

/-- An argument that is being read: what it is so far, whether a quote is open,
and the backslashes that wait for what follows them. -/
structure Reading where
  text : List UInt16
  quoted : Bool
  pending : Nat

def Reading.start : Reading := ⟨[], false, 0⟩

/-- The argument where it ends here. -/
def Reading.done (self : Reading) : List UInt16 :=
  self.text ++ List.replicate self.pending BACKSLASH

/-- `2n` backslashes before a quote are `n` backslashes and a delimiter, `2n + 1`
are `n` backslashes and a quote, and others stand for themselves.  A blank
outside quotes ends the argument. -/
def Reading.take (self : Reading) (unit : UInt16) : Option Reading :=
  if unit = BACKSLASH then some { self with pending := self.pending + 1 }
  else if unit = QUOTE then
    let text := self.text ++ List.replicate (self.pending / 2) BACKSLASH
    if self.pending % 2 = 1 then some ⟨text ++ [QUOTE], self.quoted, 0⟩
    else some ⟨text, !self.quoted, 0⟩
  else if !self.quoted && isBlank unit then none
  else some ⟨self.done ++ [unit], self.quoted, 0⟩

/-- The arguments of the rest of a line, in the middle of one or between two. -/
def readArguments : Option Reading → List UInt16 → List (List UInt16)
  | none, [] => []
  | some reading, [] => [reading.done]
  | none, unit :: units =>
      if isBlank unit then readArguments none units
      else readArguments (Reading.start.take unit) units
  | some reading, unit :: units =>
      match reading.take unit with
      | some reading => readArguments (some reading) units
      | none => reading.done :: readArguments none units

/-- The program comes first, up to its closing quote, or up to a blank. -/
def commandLineToArgvW (line : List UInt16) : List (List UInt16) :=
  match line with
  | [] => []
  | unit :: units =>
      if unit = QUOTE then
        units.takeWhile (· ≠ QUOTE) :: readArguments none (units.dropWhile (· ≠ QUOTE)).tail
      else
        line.takeWhile (fun unit => !isBlank unit) ::
          readArguments none (line.dropWhile fun unit => !isBlank unit)

/-! ## Reading what was quoted -/

/-- The rest of a line behind an argument. -/
def Ends (rest : List UInt16) : Prop := ∀ unit ∈ rest.head?, isBlank unit = true

theorem take_backslashes (reading : Reading) (n : Nat) (rest : List UInt16) :
    readArguments (some reading) (List.replicate n BACKSLASH ++ rest) =
      readArguments (some { reading with pending := reading.pending + n }) rest := by
  induction n generalizing reading with
  | zero => rfl
  | succ n ih =>
      rw [List.replicate_succ, List.cons_append, readArguments]
      have htake : reading.take BACKSLASH =
          some { reading with pending := reading.pending + 1 } := if_pos rfl
      rw [htake]
      dsimp only
      rw [ih]
      dsimp only
      rw [Nat.add_assoc, Nat.add_comm 1]

theorem quote_ne_backslash : QUOTE ≠ BACKSLASH := by decide

/-- The units of a quoted argument are read up to its closing quote. -/
theorem read_quoted (units : List UInt16) (n : Nat) (text rest : List UInt16) :
    readArguments (some ⟨text, true, n⟩) (appendUnits true n units ++ rest) =
      readArguments (some ⟨text ++ List.replicate n BACKSLASH ++ units, false, 0⟩) rest := by
  induction units generalizing n text with
  | nil =>
      -- the backslashes have been doubled, so the quote closes
      have htake : (Reading.mk text true (n + n)).take QUOTE =
          some ⟨text ++ List.replicate n BACKSLASH, false, 0⟩ := by
        have heven : ¬ (n + n) % 2 = 1 := by omega
        have hhalf : (n + n) / 2 = n := by omega
        simp [Reading.take, quote_ne_backslash, heven, hhalf]
      rw [appendUnits, if_pos rfl, List.append_assoc, take_backslashes, List.singleton_append,
        readArguments]
      dsimp only
      rw [htake, List.append_nil]
  | cons unit units ih =>
      rw [appendUnits]
      by_cases hbackslash : unit = BACKSLASH
      · rw [if_pos hbackslash, hbackslash, List.cons_append, readArguments]
        have htake : (Reading.mk text true n).take BACKSLASH = some ⟨text, true, n + 1⟩ :=
          if_pos rfl
        rw [htake]
        dsimp only
        rw [ih, List.replicate_succ', ← List.append_assoc, List.append_assoc _ [BACKSLASH]]
        rfl
      · rw [if_neg hbackslash]
        by_cases hquote : unit = QUOTE
        · -- one more backslash makes their number odd, so the quote is literal
          have htake : (Reading.mk text true (n + (n + 1))).take QUOTE =
              some ⟨text ++ List.replicate n BACKSLASH ++ [QUOTE], true, 0⟩ := by
            have hodd : (n + (n + 1)) % 2 = 1 := by omega
            have hhalf : (n + (n + 1)) / 2 = n := by omega
            simp [Reading.take, quote_ne_backslash, hodd, hhalf]
          rw [if_pos hquote, hquote, List.append_assoc, take_backslashes, List.cons_append,
            readArguments]
          dsimp only
          rw [htake]
          dsimp only
          rw [ih]
          simp
        · rw [if_neg hquote, List.cons_append, readArguments]
          have htake : (Reading.mk text true n).take unit =
              some ⟨text ++ List.replicate n BACKSLASH ++ [unit], true, 0⟩ := by
            simp [Reading.take, hbackslash, hquote, Reading.done]
          rw [htake]
          dsimp only
          rw [ih]
          simp

/-- The units of an argument that is not quoted are read up to the next blank. -/
theorem read_plain (units : List UInt16) (n : Nat) (text rest : List UInt16)
    (hplain : ∀ unit ∈ units, unit ≠ QUOTE ∧ isBlank unit = false) (hends : Ends rest) :
    readArguments (some ⟨text, false, n⟩) (appendUnits false n units ++ rest) =
      (text ++ List.replicate n BACKSLASH ++ units) :: readArguments none rest.tail := by
  induction units generalizing n text with
  | nil =>
      rw [appendUnits, if_neg Bool.false_ne_true, List.nil_append, List.append_nil]
      cases rest with
      | nil => rfl
      | cons unit rest =>
          have hblank : isBlank unit = true := hends unit rfl
          have hbackslash : unit ≠ BACKSLASH := fun h =>
            absurd (h ▸ hblank : isBlank BACKSLASH = true) (by decide)
          have hquote : unit ≠ QUOTE := fun h =>
            absurd (h ▸ hblank : isBlank QUOTE = true) (by decide)
          have htake : (Reading.mk text false n).take unit = none := by
            simp [Reading.take, hbackslash, hquote, hblank]
          rw [readArguments, htake]
          rfl
  | cons unit units ih =>
      have hrest : ∀ unit ∈ units, unit ≠ QUOTE ∧ isBlank unit = false := fun other hin =>
        hplain other (List.mem_cons_of_mem _ hin)
      obtain ⟨hquote, hblank⟩ := hplain unit (List.mem_cons_self ..)
      rw [appendUnits]
      by_cases hbackslash : unit = BACKSLASH
      · rw [if_pos hbackslash, hbackslash, List.cons_append, readArguments]
        have htake : (Reading.mk text false n).take BACKSLASH = some ⟨text, false, n + 1⟩ :=
          if_pos rfl
        rw [htake]
        dsimp only
        rw [ih _ _ hrest, List.replicate_succ', ← List.append_assoc,
          List.append_assoc _ [BACKSLASH]]
        rfl
      · rw [if_neg hbackslash, if_neg hquote, List.cons_append, readArguments]
        have htake : (Reading.mk text false n).take unit =
            some ⟨text ++ List.replicate n BACKSLASH ++ [unit], false, 0⟩ := by
          simp [Reading.take, hbackslash, hquote, hblank, Reading.done]
        rw [htake]
        dsimp only
        rw [ih _ _ hrest]
        simp

/-- An argument starts at its first unit, also at a closing quote that makes it
empty. -/
theorem read_start {unit : UInt16} (h : isBlank unit = false) (units : List UInt16) :
    readArguments none (unit :: units) = readArguments (some .start) (unit :: units) := by
  have htake : ∃ reading, Reading.start.take unit = some reading := by
    unfold Reading.take
    split_ifs with hbackslash hquote hodd hblank
    · exact ⟨_, rfl⟩
    · exact ⟨_, rfl⟩
    · exact ⟨_, rfl⟩
    · rw [h, Bool.and_false] at hblank
      exact absurd hblank Bool.false_ne_true
    · exact ⟨_, rfl⟩
  obtain ⟨reading, htake⟩ := htake
  rw [readArguments, readArguments, if_neg (by simp [h]), htake]

/-- A unit of an argument that needs no quotes is no quote and no blank. -/
theorem plain_of_not_needsQuotes {text : List Char} (h : needsQuotes text = false) :
    text ≠ [] ∧ ∀ unit ∈ Utf16.encode text, unit ≠ QUOTE ∧ isBlank unit = false := by
  simp only [needsQuotes, Bool.or_eq_false_iff, List.isEmpty_eq_false_iff, List.any_eq_false,
    Bool.or_eq_true, decide_eq_true_eq, not_or] at h
  refine ⟨h.1, fun unit hin => ?_⟩
  have hnot : ∀ c : Char, c ∉ text → c.toNat < 0xD800 → unit.toNat ≠ c.toNat := by
    intro c hc hlt hsame
    obtain ⟨d, hd, hcode⟩ := (Utf16.mem_encode (by omega)).1 hin
    exact hc (Char.toNat_inj.1 (hcode.trans hsame) ▸ hd)
  have hspace := hnot ' ' (fun hc => (h.2 _ hc).1.1.1.1 rfl) (by decide)
  have htab := hnot '\t' (fun hc => (h.2 _ hc).1.1.1.2 rfl) (by decide)
  have hquote := hnot '"' (fun hc => (h.2 _ hc).2 rfl) (by decide)
  refine ⟨fun heq => hquote (by rw [heq]; rfl), ?_⟩
  simp only [isBlank, Bool.or_eq_false_iff, decide_eq_false_iff_not]
  exact ⟨fun heq => hspace (by rw [heq]; rfl), fun heq => htab (by rw [heq]; rfl)⟩

theorem read_skip (units : List UInt16) :
    readArguments none (SPACE :: units) = readArguments none units := by
  rw [readArguments, if_pos (by decide)]

/-- What `append_quoted` appends is one argument. -/
theorem read_argument (arg : String) {rest : List UInt16} (hends : Ends rest) :
    readArguments none (appendQuoted [] (Utf16.encode arg.toList) (needsQuotes arg.toList) ++
        rest) =
      Utf16.encode arg.toList :: readArguments none rest.tail := by
  rw [appendQuoted, List.nil_append]
  cases hquotes : needsQuotes arg.toList with
  | true =>
      have hopen : Reading.start.take QUOTE = some ⟨[], true, 0⟩ := rfl
      have hclosed := read_plain [] 0 (Utf16.encode arg.toList) rest (by simp) hends
      rw [appendUnits, if_neg Bool.false_ne_true, List.nil_append, List.replicate_zero,
        List.append_nil, List.append_nil] at hclosed
      rw [if_pos rfl, List.singleton_append, List.cons_append, readArguments,
        if_neg (by decide), hopen, read_quoted, List.replicate_zero, List.nil_append,
        List.nil_append, hclosed]
  | false =>
      obtain ⟨hne, hplain⟩ := plain_of_not_needsQuotes hquotes
      obtain ⟨unit, units, hunits⟩ : ∃ unit units, Utf16.encode arg.toList = unit :: units :=
        List.exists_cons_of_ne_nil (mt Utf16.encode_eq_nil.1 hne)
      have hread := read_plain (Utf16.encode arg.toList) 0 [] rest hplain hends
      rw [List.replicate_zero, List.nil_append, List.nil_append] at hread
      rw [if_neg Bool.false_ne_true, List.nil_append, ← hread, hunits]
      rw [hunits] at hplain
      obtain ⟨hquote, hblank⟩ := hplain unit (List.mem_cons_self ..)
      obtain ⟨more, hmore⟩ : ∃ more, appendUnits false 0 (unit :: units) = unit :: more := by
        rw [appendUnits, if_neg hquote]
        split_ifs <;> exact ⟨_, rfl⟩
      rw [hmore]
      exact read_start hblank _

/-! ## The whole line -/

theorem appendQuoted_eq (cmd units : List UInt16) (quote : Bool) :
    appendQuoted cmd units quote = cmd ++ appendQuoted [] units quote := by
  simp [appendQuoted]

/-- The line is its program and then, behind a space each, its arguments. -/
theorem commandLine_eq (argv0 : List UInt16) (args : List String) :
    commandLine argv0 args = appendQuoted [] argv0 true ++ args.flatMap fun arg =>
      SPACE :: appendQuoted [] (Utf16.encode arg.toList) (needsQuotes arg.toList) := by
  rw [commandLine]
  generalize appendQuoted [] argv0 true = cmd
  induction args generalizing cmd with
  | nil => simp
  | cons arg args ih =>
      rw [List.foldl_cons, ih, List.flatMap_cons, appendQuoted_eq]
      simp

/-- What follows an argument is nothing or a space. -/
theorem ends_args (args : List String) (quoted : String → List UInt16) :
    Ends (args.flatMap fun arg => SPACE :: quoted arg) := by
  cases args with
  | nil => exact fun unit hunit => absurd hunit (by simp)
  | cons arg args =>
      intro unit hunit
      rw [List.flatMap_cons, List.cons_append, List.head?_cons, Option.mem_some_iff] at hunit
      rw [← hunit]
      decide

theorem read_args (args : List String) :
    readArguments none (args.flatMap fun arg =>
        SPACE :: appendQuoted [] (Utf16.encode arg.toList) (needsQuotes arg.toList)) =
      args.map fun arg => Utf16.encode arg.toList := by
  induction args with
  | nil => rfl
  | cons arg args ih =>
      rw [List.flatMap_cons, List.cons_append, read_skip, read_argument arg (ends_args args _),
        List.map_cons, ← ih]
      -- the space that ends an argument is skipped before the next one
      cases args with
      | nil => rfl
      | cons next args =>
          rw [List.flatMap_cons, List.cons_append, List.tail_cons, read_skip]

/-- A program without quotes and without a backslash at its end stands between
the quotes as it is. -/
theorem appendUnits_program {argv0 : List UInt16} (hquote : QUOTE ∉ argv0)
    (hlast : argv0.getLast? ≠ some BACKSLASH) (n : Nat) (hn : argv0 = [] → n = 0) :
    appendUnits true n argv0 = argv0 ++ [QUOTE] := by
  induction argv0 generalizing n with
  | nil => rw [appendUnits, if_pos rfl, hn rfl]; rfl
  | cons unit units ih =>
      have hunit : unit ≠ QUOTE := fun h => hquote (h ▸ List.mem_cons_self ..)
      have hunits : QUOTE ∉ units := fun h => hquote (List.mem_cons_of_mem _ h)
      have hrest : units ≠ [] → units.getLast? ≠ some BACKSLASH := by
        intro hne hsame
        rw [← List.singleton_append, List.getLast?_append, hsame] at hlast
        exact hlast rfl
      rw [appendUnits, if_neg hunit]
      by_cases hbackslash : unit = BACKSLASH
      · have hne : units ≠ [] := fun h => hlast (by rw [h, hbackslash]; rfl)
        rw [if_pos hbackslash, ih hunits (hrest hne) _ fun h => absurd h hne, List.cons_append]
      · have hlast' : units.getLast? ≠ some BACKSLASH := by
          by_cases hne : units = []
          · rw [hne]; simp
          · exact hrest hne
        rw [if_neg hbackslash, ih hunits hlast' _ fun _ => rfl, List.cons_append]

/-- The arguments of a line are read back as they were. -/
theorem read_commandLine {argv0 : List UInt16} (hquote : QUOTE ∉ argv0)
    (hlast : argv0.getLast? ≠ some BACKSLASH) (args : List String) :
    commandLineToArgvW (commandLine argv0 args) =
      argv0 :: args.map fun arg => Utf16.encode arg.toList := by
  have hinside : ∀ unit ∈ argv0, decide (unit ≠ QUOTE) = true := fun unit hunit =>
    decide_eq_true fun h => hquote (h ▸ hunit)
  rw [commandLine_eq, appendQuoted, appendUnits_program hquote hlast 0 fun _ => rfl, if_pos rfl,
    List.nil_append, List.append_assoc, List.singleton_append, List.append_assoc,
    List.singleton_append, commandLineToArgvW, if_pos rfl,
    List.takeWhile_append_of_pos hinside, List.dropWhile_append_of_pos hinside,
    List.takeWhile_cons_of_neg (by simp), List.dropWhile_cons_of_neg (by simp), List.append_nil,
    List.tail_cons, read_args]

/-- The loop builds the line when no argument contains NUL. -/
theorem appendArgs_spec (cmd : List UInt16) (args : List String) :
    (∃ arg ∈ args, '\x00' ∈ arg.toList) ∧ (∃ err, appendArgs cmd args = .error err) ∨
    (¬ ∃ arg ∈ args, '\x00' ∈ arg.toList) ∧ appendArgs cmd args = .ok (args.foldl
      (fun cmd arg => appendQuoted (cmd ++ [SPACE]) (Utf16.encode arg.toList)
        (needsQuotes arg.toList)) cmd) := by
  induction args generalizing cmd with
  | nil => exact Or.inr ⟨by simp, rfl⟩
  | cons arg args ih =>
      rw [appendArgs, rejectNul]
      by_cases hnul : '\x00' ∈ arg.toList
      · rw [if_pos hnul]
        exact Or.inl ⟨⟨arg, List.mem_cons_self .., hnul⟩, _, rfl⟩
      · rw [if_neg hnul]
        cases ih (appendQuoted (cmd ++ [SPACE]) (Utf16.encode arg.toList)
            (needsQuotes arg.toList)) with
        | inl hbad =>
            obtain ⟨⟨other, hin, hother⟩, herr⟩ := hbad
            exact Or.inl ⟨⟨other, List.mem_cons_of_mem _ hin, hother⟩, herr⟩
        | inr hgood =>
            obtain ⟨hnone, heq⟩ := hgood
            refine Or.inr ⟨?_, heq⟩
            rintro ⟨other, hin, hother⟩
            cases List.mem_cons.1 hin with
            | inl hsame => exact hnul (hsame ▸ hother)
            | inr hin => exact hnone ⟨other, hin, hother⟩

/-- Without NUL, the line is what it is built from, when it is short enough. -/
theorem windowsCommandLineUtf16_ok {argv0 : List UInt16} {args : List String}
    (hnul : 0 ∉ argv0) (hargs : ¬ ∃ arg ∈ args, '\x00' ∈ arg.toList) {line : List UInt16} :
    windowsCommandLineUtf16 argv0 args = .ok line ↔
      (commandLine argv0 args).length + 1 ≤ WINDOWS_COMMAND_LINE_LIMIT_UTF16_UNITS ∧
        commandLine argv0 args = line := by
  have hencode : encodeOs argv0 = .ok argv0 := if_neg hnul
  have hbuilt : appendArgs (appendQuoted [] argv0 true) args = .ok (commandLine argv0 args) :=
    ((appendArgs_spec (appendQuoted [] argv0 true) args).resolve_left fun hbad => hargs hbad.1).2
  simp only [windowsCommandLineUtf16, hencode, hbuilt, bind, Except.bind]
  by_cases hlong : WINDOWS_COMMAND_LINE_LIMIT_UTF16_UNITS < (commandLine argv0 args).length + 1
  · rw [if_pos hlong]
    exact ⟨fun h => (nomatch h), fun h => absurd h.1 (by omega)⟩
  · rw [if_neg hlong, Except.ok.injEq]
    exact ⟨fun h => ⟨by omega, h⟩, fun h => h.2⟩

/-- A line is refused when an argument contains NUL or the line is too long, and
a line that is produced is read back as the program and the arguments, in which
every text is known by its units. -/
theorem command_line_round_trip (argv0 : List UInt16) (args : List String)
    (hquote : QUOTE ∉ argv0) (hnul : 0 ∉ argv0) (hlast : argv0.getLast? ≠ some BACKSLASH) :
    ((∃ err, windowsCommandLineUtf16 argv0 args = .error err) ↔
      (∃ arg ∈ args, '\x00' ∈ arg.toList) ∨ 32767 < (commandLine argv0 args).length + 1) ∧
    (∀ line, windowsCommandLineUtf16 argv0 args = .ok line →
      commandLineToArgvW line = argv0 :: args.map fun arg => Utf16.encode arg.toList) ∧
    ∀ others : List String, (args.map fun arg => Utf16.encode arg.toList) =
      (others.map fun arg => Utf16.encode arg.toList) → args = others := by
  have hread := read_commandLine hquote hlast args
  have hinj : ∀ others : List String, (args.map fun arg => Utf16.encode arg.toList) =
      (others.map fun arg => Utf16.encode arg.toList) → args = others := fun others h =>
    List.map_injective_iff.2 (fun _ _ h => String.toList_inj.1 (Utf16.encode_injective h)) h
  have hargs := appendArgs_spec (appendQuoted [] argv0 true) args
  have hencode : encodeOs argv0 = .ok argv0 := if_neg hnul
  cases hargs with
  | inl hbad =>
      obtain ⟨hbad, err, herr⟩ := hbad
      have hrun : windowsCommandLineUtf16 argv0 args = .error err := by
        simp only [windowsCommandLineUtf16, hencode, herr, bind, Except.bind]
      rw [hrun]
      exact ⟨⟨fun _ => Or.inl hbad, fun _ => ⟨err, rfl⟩⟩, fun line hline => (nomatch hline), hinj⟩
  | inr hgood =>
      have hline := fun line => @windowsCommandLineUtf16_ok argv0 args hnul hgood.1 line
      refine ⟨⟨fun ⟨err, herr⟩ => ?_, fun hbad => ?_⟩, fun line hok => ?_, hinj⟩
      · refine Or.inr (Nat.lt_of_not_le fun hfits => ?_)
        rw [(hline _).2 ⟨hfits, rfl⟩] at herr
        nomatch herr
      · have hlong := hbad.resolve_left hgood.1
        cases hrun : windowsCommandLineUtf16 argv0 args with
        | error err => exact ⟨err, rfl⟩
        | ok line => exact absurd ((hline line).1 hrun).1 (Nat.not_le_of_lt hlong)
      · rw [← ((hline line).1 hok).2]
        exact hread

/-- A program in a directory with a space in its name, with an empty argument and
one that ends in a backslash behind a space and a quote. -/
theorem command_line_round_trip_quotes :
    ∃ line, windowsCommandLineUtf16 [0x61, 0x20, 0x62] ["", "\" \\"] = .ok line ∧
      commandLineToArgvW line =
        [0x61, 0x20, 0x62] :: ["", "\" \\"].map fun arg => Utf16.encode arg.toList := by
  have hread := command_line_round_trip [0x61, 0x20, 0x62] ["", "\" \\"] (by decide) (by decide)
    (by decide)
  exact ⟨_, rfl, hread.2.1 _ rfl⟩

end MCode.Exec
