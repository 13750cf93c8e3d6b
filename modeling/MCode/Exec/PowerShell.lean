import MCode.Exec.Argv
import MCode.Lib.Base64
import MCode.Lib.Checked

/-!
# The command of PowerShell

`mcode-tools/src/builtin/shell.rs`: a script goes to PowerShell as the Base64
text of its UTF-16LE bytes, in a line that is at most as long as
`CreateProcessW` takes.  The length is computed before the payload is built, by
sums that fail where they overflow a `usize`.

The length is that of the line which the encoder of structured commands builds
from the same program and arguments, so the command is refused exactly when
that encoder refuses the line.
-/

namespace MCode.Exec

open MCode.Lib MCode.Tools

/-- `usize::MAX`. -/
def USIZE_MAX : Nat := 18446744073709551615

def POWERSHELL_ARGUMENTS : List String :=
  ["-NoLogo", "-NoProfile", "-NonInteractive", "-ExecutionPolicy", "Bypass", "-EncodedCommand"]

/-- A path on Windows, and its last component as it is shown. -/
structure Executable where
  units : List UInt16
  fileName : Option String

def powershellCommandLineUnits (executable : Executable) (encodedLen : Nat) : Option Nat := do
  let units ← Checked.add USIZE_MAX executable.units.length 2
  let units ← POWERSHELL_ARGUMENTS.foldlM (fun units argument => do
    let units ← Checked.add USIZE_MAX units 1
    Checked.add USIZE_MAX units (Utf16.encode argument.toList).length) units
  let units ← Checked.add USIZE_MAX units 1
  let units ← Checked.add USIZE_MAX units (if encodedLen = 0 then 2 else encodedLen)
  Checked.add USIZE_MAX units 1

def maximumEncodedCommandChars (executable : Executable) : Option Nat := do
  let oneCharacterLine ← powershellCommandLineUnits executable 1
  Checked.sub WINDOWS_COMMAND_LINE_LIMIT_UTF16_UNITS (← Checked.sub oneCharacterLine 1)

def base64EncodedLen (byteLen : Nat) : Option Nat := do
  let sum ← Checked.add USIZE_MAX byteLen 2
  Checked.mul USIZE_MAX (sum / 3) 4

def utf16leBytes (value : String) : List UInt8 :=
  (Utf16.encode value.toList).flatMap fun unit =>
    [UInt8.ofNat (unit.toNat % 256), UInt8.ofNat (unit.toNat / 256)]

def commandTooLong (executable : Executable) (encodedLen : Option Nat) : ToolError :=
  let maximum := (maximumEncodedCommandChars executable).elim "unrepresentable" toString
  let encoded := encodedLen.elim "overflowed usize" toString
  let executableName := executable.fileName.getD "pwsh.exe"
  .InvalidArgs
    ("command is too long for PowerShell 7's 32,767 UTF-16-code-unit CreateProcessW " ++
      "command-line limit (including the terminator): encoded length is " ++ encoded ++
      ", maximum for executable " ++ executableName ++ " is " ++ maximum)

def powershellArgs (encodedCommand : String) : List String :=
  POWERSHELL_ARGUMENTS ++ [encodedCommand]

/-- `ok_or_else`. -/
def orTooLong (value : Option Nat) (executable : Executable) (encodedLen : Option Nat) :
    Except ToolError Nat :=
  value.elim (.error (commandTooLong executable encodedLen)) .ok

def encodePowershellCommand (command : String) (executable : Executable) :
    Except ToolError String := do
  let commandByteLen ← orTooLong
    (Checked.mul USIZE_MAX (Utf16.encode command.toList).length 2) executable none
  let encodedLen ← orTooLong (base64EncodedLen commandByteLen) executable none
  let commandLineUnits ← orTooLong (powershellCommandLineUnits executable encodedLen) executable
    (some encodedLen)
  if WINDOWS_COMMAND_LINE_LIMIT_UTF16_UNITS < commandLineUnits then
    .error (commandTooLong executable (some encodedLen))
  else
    .ok (String.ofList (Base64.encodePadded Base64.standard (utf16leBytes command)))

/-- The Base64 text of the UTF-16LE bytes of a command. -/
def payload (command : String) : String :=
  String.ofList (Base64.encodePadded Base64.standard (utf16leBytes command))

/-! ## What PowerShell reads -/

/-- Units of two bytes, the low one first. -/
def unitsOfLeBytes : List UInt8 → Option (List UInt16)
  | [] => some []
  | [_] => none
  | low :: high :: rest =>
      (unitsOfLeBytes rest).map (UInt16.ofNat (low.toNat + 256 * high.toNat) :: ·)

/-- The script of an encoded command. -/
def decodeCommand (payload : String) : Option String := do
  let bytes ← Base64.decodePadded Base64.standard payload.toList
  let units ← unitsOfLeBytes bytes
  let text ← Utf16.decode units
  return String.ofList text

theorem unitsOfLeBytes_flatMap (units : List UInt16) :
    unitsOfLeBytes (units.flatMap fun unit =>
      [UInt8.ofNat (unit.toNat % 256), UInt8.ofNat (unit.toNat / 256)]) = some units := by
  induction units with
  | nil => rfl
  | cons unit units ih =>
      have hlt := unit.toNat_lt
      have hlow : (UInt8.ofNat (unit.toNat % 256)).toNat = unit.toNat % 256 := by
        rw [UInt8.toNat_ofNat']
        omega
      have hhigh : (UInt8.ofNat (unit.toNat / 256)).toNat = unit.toNat / 256 := by
        rw [UInt8.toNat_ofNat']
        omega
      have hunit : UInt16.ofNat (unit.toNat % 256 + 256 * (unit.toNat / 256)) = unit := by
        rw [Nat.mod_add_div]
        exact UInt16.ofNat_toNat
      rw [List.flatMap_cons, List.cons_append, List.singleton_append, unitsOfLeBytes, ih, hlow,
        hhigh, hunit]
      rfl

theorem decodeCommand_payload (command : String) :
    decodeCommand (payload command) = some command := by
  unfold decodeCommand payload utf16leBytes
  rw [String.toList_ofList, Base64.decodePadded_encodePadded Base64.standard_free,
    Option.bind_eq_bind, Option.bind_some, unitsOfLeBytes_flatMap, Option.bind_eq_bind,
    Option.bind_some, Utf16.decode_encode]
  exact congrArg some String.ofList_toList

/-! ## The lengths -/

theorem utf16leBytes_length (command : String) :
    (utf16leBytes command).length = (Utf16.encode command.toList).length * 2 := by
  unfold utf16leBytes
  induction Utf16.encode command.toList with
  | nil => rfl
  | cons unit units ih =>
      rw [List.flatMap_cons, List.length_append, ih, List.length_cons]
      show 2 + units.length * 2 = (units.length + 1) * 2
      omega

theorem base64EncodedLen_eq (byteLen : Nat) :
    base64EncodedLen byteLen = Checked.within USIZE_MAX ((byteLen + 2) / 3 * 4) := by
  unfold base64EncodedLen Checked.add Checked.mul
  by_cases hfits : byteLen + 2 ≤ USIZE_MAX
  · rw [Checked.within_eq_some.2 ⟨hfits, rfl⟩]
    rfl
  · -- four characters for three bytes: the product overflows with the sum
    have hover : USIZE_MAX < (byteLen + 2) / 3 * 4 := by
      unfold USIZE_MAX at *
      omega
    rw [Checked.within_eq_none.2 (by omega), Checked.within_eq_none.2 hover]
    rfl

/-- The units of the line with `encodedLen` characters of payload: the program
between quotes, a space before each argument, and the terminator. -/
def lineUnits (executable : Executable) (encodedLen : Nat) : Nat :=
  executable.units.length + 2 +
    (POWERSHELL_ARGUMENTS.map fun argument => 1 + (Utf16.encode argument.toList).length).sum +
      1 + (if encodedLen = 0 then 2 else encodedLen) + 1

theorem powershellCommandLineUnits_eq (executable : Executable) (encodedLen : Nat) :
    powershellCommandLineUnits executable encodedLen =
      Checked.within USIZE_MAX (lineUnits executable encodedLen) := by
  unfold powershellCommandLineUnits lineUnits Checked.add
  by_cases hfits : executable.units.length + 2 ≤ USIZE_MAX
  · simp (disch := intro _; omega) only [Option.bind_eq_bind, Checked.within_bind, Nat.add_assoc]
    rw [Checked.within_eq_some.2 ⟨hfits, rfl⟩, Option.bind_some,
      Checked.foldlM_within _ _ hfits, Checked.within_bind fun _ => by omega]
    simp only [Nat.add_assoc]
  · rw [Checked.within_eq_none.2 (by omega), Checked.within_eq_none.2 (by omega)]
    rfl

/-! ## The line -/

theorem appendUnits_plain {units : List UInt16} (h : QUOTE ∉ units) (n : Nat) :
    appendUnits false n units = units := by
  induction units generalizing n with
  | nil => rfl
  | cons unit units ih =>
      have hunit : unit ≠ QUOTE := fun heq => h (heq ▸ List.mem_cons_self ..)
      have hunits : QUOTE ∉ units := fun hin => h (List.mem_cons_of_mem _ hin)
      rw [appendUnits, if_neg hunit, ih hunits, ih hunits, ite_self]

/-- An argument that needs no quotes stands in the line as it is. -/
theorem appendQuoted_plain {text : List Char} (h : needsQuotes text = false) :
    appendQuoted [] (Utf16.encode text) (needsQuotes text) = Utf16.encode text := by
  have hplain : QUOTE ∉ Utf16.encode text := fun hin =>
    ((plain_of_not_needsQuotes h).2 QUOTE hin).1 rfl
  rw [h, appendQuoted, appendUnits_plain hplain]
  rfl

theorem arguments_plain : ∀ argument ∈ POWERSHELL_ARGUMENTS,
    needsQuotes argument.toList = false := by decide

/-- The characters of Base64 are not quoted, one unit each, and not NUL. -/
theorem base64_plain (bytes : List UInt8) :
    ∀ c ∈ Base64.encodePadded Base64.standard bytes,
      needsQuotes [c] = false ∧ c.toNat < 0x10000 ∧ c ≠ '\x00' := by
  have halphabet : ∀ i, needsQuotes [Base64.standard.char i] = false ∧
      (Base64.standard.char i).toNat < 0x10000 ∧ Base64.standard.char i ≠ '\x00' := by
    decide +kernel
  intro c hc
  cases List.mem_append.1 hc with
  | inl hc =>
      obtain ⟨i, -, rfl⟩ := List.mem_map.1 hc
      exact halphabet i
  | inr hc =>
      rw [(List.mem_replicate.1 hc).2]
      decide

theorem needsQuotes_of_plain {text : List Char} (hne : text ≠ [])
    (h : ∀ c ∈ text, needsQuotes [c] = false) : needsQuotes text = false := by
  have hempty : text.isEmpty = false := by simpa using hne
  have hany : (text.any fun c => c = ' ' || c = '\t' || c = '\n' || c = '\r' || c = '"') =
      false := by
    rw [List.any_eq_false]
    intro c hc
    have hone := h c hc
    simp only [needsQuotes, List.isEmpty_cons, List.any_cons, List.any_nil, Bool.false_or,
      Bool.or_false] at hone
    rw [hone]
    exact Bool.false_ne_true
  unfold needsQuotes
  rw [hempty, hany]
  rfl

/-- The payload takes its own length, or two quotes where it is empty. -/
theorem payload_quoted_length (command : String) :
    (appendQuoted [] (Utf16.encode (payload command).toList)
      (needsQuotes (payload command).toList)).length =
      if (payload command).length = 0 then 2 else (payload command).length := by
  have hplain := base64_plain (utf16leBytes command)
  unfold payload
  rw [String.length_ofList, String.toList_ofList]
  generalize Base64.encodePadded Base64.standard (utf16leBytes command) = text at hplain
  by_cases hempty : text = []
  · rw [hempty]
    rfl
  · have hquotes := needsQuotes_of_plain hempty fun c hc => (hplain c hc).1
    rw [appendQuoted_plain hquotes, Utf16.encode_length fun c hc => (hplain c hc).2.1,
      if_neg (mt List.length_eq_zero_iff.1 hempty)]

theorem commandLine_length {executable : Executable} (hquote : QUOTE ∉ executable.units)
    (hlast : executable.units.getLast? ≠ some BACKSLASH) (command : String) :
    (commandLine executable.units (powershellArgs (payload command))).length + 1 =
      lineUnits executable (payload command).length := by
  have hprogram : (appendQuoted [] executable.units true).length =
      executable.units.length + 2 := by
    rw [appendQuoted, appendUnits_program hquote hlast 0 fun _ => rfl, if_pos rfl]
    simp only [List.length_append, List.length_nil, List.length_singleton]
    omega
  have harguments : ((POWERSHELL_ARGUMENTS.flatMap fun arg =>
      SPACE :: appendQuoted [] (Utf16.encode arg.toList) (needsQuotes arg.toList)).length) =
      (POWERSHELL_ARGUMENTS.map fun argument =>
        1 + (Utf16.encode argument.toList).length).sum := by
    rw [List.length_flatMap]
    refine congrArg List.sum (List.map_congr_left fun argument hin => ?_)
    rw [List.length_cons, appendQuoted_plain (arguments_plain argument hin), Nat.add_comm]
  rw [commandLine_eq, powershellArgs, List.flatMap_append, List.length_append, List.length_append,
    hprogram, harguments, List.flatMap_singleton, List.length_cons, payload_quoted_length]
  unfold lineUnits
  omega

/-- No argument of the line contains NUL. -/
theorem powershellArgs_free (command : String) :
    ¬ ∃ arg ∈ powershellArgs (payload command), '\x00' ∈ arg.toList := by
  rintro ⟨arg, hin, hnul⟩
  cases List.mem_append.1 hin with
  | inl hin =>
      have hfree : (POWERSHELL_ARGUMENTS.all fun arg => !arg.toList.contains '\x00') = true := by
        decide
      have hone := List.all_eq_true.1 hfree arg hin
      rw [List.contains_eq_mem, decide_eq_true hnul] at hone
      exact absurd hone (by decide)
  | inr hin =>
      rw [List.mem_singleton.1 hin, payload, String.toList_ofList] at hnul
      exact (base64_plain _ _ hnul).2.2 rfl

/-! ## The budget -/

theorem payload_length (command : String) :
    (payload command).length = ((utf16leBytes command).length + 2) / 3 * 4 := by
  rw [payload, String.length_ofList, Base64.encodePadded_length]

theorem orTooLong_bind_ok {value : Nat} {executable : Executable} {encodedLen : Option Nat}
    {next : Nat → Except ToolError String} {text : String} :
    (orTooLong (Checked.within USIZE_MAX value) executable encodedLen >>= next) = .ok text ↔
      value ≤ USIZE_MAX ∧ next value = .ok text := by
  by_cases hfits : value ≤ USIZE_MAX
  · rw [Checked.within_eq_some.2 ⟨hfits, rfl⟩]
    exact ⟨fun h => ⟨hfits, h⟩, fun h => h.2⟩
  · rw [Checked.within_eq_none.2 (by omega)]
    exact ⟨fun h => (nomatch h), fun h => absurd h.1 hfits⟩

/-- Sums that overflow belong to lines that are too long anyway. -/
theorem encodePowershellCommand_ok {command : String} {executable : Executable} {text : String} :
    encodePowershellCommand command executable = .ok text ↔
      lineUnits executable (payload command).length ≤ WINDOWS_COMMAND_LINE_LIMIT_UTF16_UNITS ∧
        payload command = text := by
  have hlen : (payload command).length =
      ((Utf16.encode command.toList).length * 2 + 2) / 3 * 4 := by
    rw [payload_length, utf16leBytes_length]
  have hline : (payload command).length ≤ lineUnits executable (payload command).length := by
    unfold lineUnits
    split <;> omega
  have hlimit : WINDOWS_COMMAND_LINE_LIMIT_UTF16_UNITS < USIZE_MAX := by decide
  unfold encodePowershellCommand Checked.mul
  rw [orTooLong_bind_ok, base64EncodedLen_eq, orTooLong_bind_ok, powershellCommandLineUnits_eq,
    orTooLong_bind_ok, ← hlen]
  show _ ∧ _ ∧ _ ∧ (if _ then _ else Except.ok (payload command)) = _ ↔ _
  by_cases hlong : WINDOWS_COMMAND_LINE_LIMIT_UTF16_UNITS <
      lineUnits executable (payload command).length
  · rw [if_pos hlong]
    exact ⟨fun h => (nomatch h.2.2.2), fun h => absurd h.1 (by omega)⟩
  · rw [if_neg hlong, Except.ok.injEq]
    exact ⟨fun h => ⟨by omega, h.2.2.2⟩, fun h => ⟨by omega, by omega, by omega, h.2⟩⟩

/-- The computed lengths are those of the payload and of the line, a command is
refused exactly when its line is too long, and what is encoded is read back. -/
theorem powershell_budget_exact (command : String) (executable : Executable)
    (hquote : QUOTE ∉ executable.units) (hnul : 0 ∉ executable.units)
    (hlast : executable.units.getLast? ≠ some BACKSLASH) :
    base64EncodedLen (utf16leBytes command).length =
        Checked.within USIZE_MAX (payload command).length ∧
      powershellCommandLineUnits executable (payload command).length =
        Checked.within USIZE_MAX
          ((commandLine executable.units (powershellArgs (payload command))).length + 1) ∧
      ((∃ text, encodePowershellCommand command executable = .ok text) ↔
        (commandLine executable.units (powershellArgs (payload command))).length + 1 ≤
          WINDOWS_COMMAND_LINE_LIMIT_UTF16_UNITS) ∧
      ((∃ text, encodePowershellCommand command executable = .ok text) ↔
        windowsCommandLineUtf16 executable.units (powershellArgs (payload command)) =
          .ok (commandLine executable.units (powershellArgs (payload command)))) ∧
      ∀ text, encodePowershellCommand command executable = .ok text →
        text = payload command ∧ decodeCommand text = some command := by
  have hlength := commandLine_length hquote hlast command
  have hfits : (∃ text, encodePowershellCommand command executable = .ok text) ↔
      (commandLine executable.units (powershellArgs (payload command))).length + 1 ≤
        WINDOWS_COMMAND_LINE_LIMIT_UTF16_UNITS := by
    rw [hlength]
    exact ⟨fun ⟨text, h⟩ => (encodePowershellCommand_ok.1 h).1,
      fun h => ⟨_, encodePowershellCommand_ok.2 ⟨h, rfl⟩⟩⟩
  refine ⟨?_, ?_, hfits, ?_, fun text h => ?_⟩
  · rw [base64EncodedLen_eq, payload_length]
  · rw [powershellCommandLineUnits_eq, hlength]
  · rw [hfits, windowsCommandLineUtf16_ok hnul (powershellArgs_free command)]
    exact ⟨fun h => ⟨h, rfl⟩, fun h => h.1⟩
  · have hpayload := (encodePowershellCommand_ok.1 h).2
    rw [← hpayload]
    exact ⟨rfl, decodeCommand_payload command⟩

/-- A command outside the basic plane for the executable `p`. -/
theorem powershell_budget_exact_pair :
    ∃ text, encodePowershellCommand "😀" ⟨[0x70], some "p"⟩ = .ok text ∧
      decodeCommand text = some "😀" := by
  have hbudget := powershell_budget_exact "😀" ⟨[0x70], some "p"⟩ (by decide) (by decide)
    (by decide)
  obtain ⟨text, htext⟩ := hbudget.2.2.1.2 (by decide +kernel)
  exact ⟨text, htext, (hbudget.2.2.2.2 text htext).2⟩

end MCode.Exec
