import MCode.Core.Message

/-!
# Redaction of provider error messages

`redact_plain_text` and its recognizers (`mcode-provider-api/src/error.rs`).
The source scans bytes with a cursor.  Every byte it compares is ASCII, so a
scan over characters stops at the same places, and the text is a list of
characters here.

A cursor splits the text into what lies before it, in reverse, and the rest:
the recognizers look at most at the key that ends right before the cursor.
A recognized range is given by the text it splits the rest into, the part
that is kept, the value that is replaced, and what follows.
-/

namespace MCode.Provider.Redact

abbrev Text := List Char

def MAX_ERROR_MESSAGE_CHARS : Nat := 512
def MAX_ERROR_SCAN_BYTES : Nat := 64 * 1024
def REDACTED : Text := "[REDACTED]".toList

/-! ## Classes of bytes -/

def isAsciiDigit (c : Char) : Bool := '0' ≤ c && c ≤ '9'

def isAsciiAlphanumeric (c : Char) : Bool :=
  ('a' ≤ c && c ≤ 'z') || ('A' ≤ c && c ≤ 'Z') || isAsciiDigit c

def isAsciiWhitespace (c : Char) : Bool :=
  c == ' ' || c == '\t' || c == '\n' || c == '\x0c' || c == '\r'

def isAsciiControl (c : Char) : Bool := c.toNat < 32 || c.toNat == 127

def toAsciiLowercase (c : Char) : Char :=
  if 'A' ≤ c && c ≤ 'Z' then Char.ofNat (c.toNat + 32) else c

def isKeyByte (c : Char) : Bool :=
  isAsciiAlphanumeric c || c == '-' || c == '_' || c == '.'

def isWordByte (c : Char) : Bool := isAsciiAlphanumeric c || c == '_'

def isQuote (c : Char) : Bool := c == '"' || c == '\''

def isValueDelimiter (c : Char) : Bool :=
  isAsciiWhitespace c || isAsciiControl c || c == '&' || c == ';' || c == ','
    || isQuote c || c == '}' || c == ']' || c == '|' || c == '#'

def eqIgnoreAsciiCase (a b : Text) : Bool :=
  a.map toAsciiLowercase == b.map toAsciiLowercase

/-! ## Keys -/

/-- `key.to_ascii_lowercase().replace(['-', '_'], "")`. -/
def normalizeKey (key : Text) : Text :=
  (key.map toAsciiLowercase).filter (fun c => !(c == '-' || c == '_'))

/-- `str::contains`. -/
def containsText (needle : Text) : Text → Bool
  | [] => needle.isEmpty
  | c :: cs => needle.isPrefixOf (c :: cs) || containsText needle cs

def isSensitiveKey (key : Text) : Bool :=
  let normalized := normalizeKey key
  "authorization".toList.isSuffixOf normalized
    || "apikey".toList.isSuffixOf normalized
    || "authkey".toList.isSuffixOf normalized
    || "accesskey".toList.isSuffixOf normalized
    || "subscriptionkey".toList.isSuffixOf normalized
    || normalized == "token".toList
    || "token".toList.isSuffixOf normalized
    || containsText "secret".toList normalized
    || containsText "credential".toList normalized
    || containsText "password".toList normalized
    || normalized == "cookie".toList || normalized == "setcookie".toList

def isCookieKey (key : Text) : Bool :=
  normalizeKey key == "cookie".toList || normalizeKey key == "setcookie".toList

def isAuthorizationKey (key : Text) : Bool :=
  "authorization".toList.isSuffixOf (normalizeKey key)

/-! ## Ends of values

Each scanner splits the text at the end of the value. -/

/-- `find_closing_quote`, from the character after the opening quote: the
quoted text and, from the closing quote on, the rest. -/
def closingQuote (quote : Char) (escaped : Bool) : Text → Text × Text
  | [] => ([], [])
  | c :: cs =>
      if escaped then
        let (value, rest) := closingQuote quote false cs
        (c :: value, rest)
      else if c == '\\' then
        let (value, rest) := closingQuote quote true cs
        (c :: value, rest)
      else if c == quote then ([], c :: cs)
      else
        let (value, rest) := closingQuote quote false cs
        (c :: value, rest)

/-- `credential_token_end`. -/
def credentialToken (text : Text) : Text × Text :=
  text.span (fun c => !isValueDelimiter c)

/-- `line_value_end`. -/
def lineValue (text : Text) : Text × Text :=
  text.span fun c =>
    !(isAsciiControl c || c == '&' || c == '}' || c == ']' || c == '|' || c == '#')

/-- The separator of an assignment, after the key. -/
def startsSeparator (text : Text) : Bool :=
  match text.dropWhile isAsciiWhitespace with
  | c :: _ => c == '=' || c == ':'
  | [] => false

/-- `starts_assignment`. -/
def startsAssignment : Text → Bool
  | [] => false
  | first :: rest =>
      if isQuote first then
        match rest.dropWhile isKeyByte with
        | closing :: after => closing == first && startsSeparator after
        | [] => false
      else if isKeyByte first then startsSeparator (rest.dropWhile isKeyByte)
      else false

/-- The bytes that end a field value wherever they stand. -/
def endsField (c : Char) : Bool :=
  c == '\r' || c == '\n' || (isAsciiControl c && !isAsciiWhitespace c)
    || c == '&' || c == ',' || c == ';' || isQuote c || c == '}' || c == ']'
    || c == '|' || c == '#'

/-- `field_value_end`.  At a whitespace the scan looks past the whole run of
whitespace for the start of another assignment and, if there is none, jumps
to the end of the run: `skipping` is set while it does. -/
def fieldValue (skipping : Bool) : Text → Text × Text
  | [] => ([], [])
  | c :: cs =>
      if skipping && isAsciiWhitespace c then
        let (value, rest) := fieldValue true cs
        (c :: value, rest)
      else if endsField c then ([], c :: cs)
      else if isAsciiWhitespace c then
        if startsAssignment (cs.dropWhile isAsciiWhitespace) then ([], c :: cs)
        else
          let (value, rest) := fieldValue true cs
          (c :: value, rest)
      else
        let (value, rest) := fieldValue false cs
        (c :: value, rest)

/-! ## Recognizers -/

/-- A range found from the cursor on: the text is `kept ++ value ++ rest`, and
the range is `value`. -/
structure Redaction where
  kept : Text
  value : Text
  rest : Text

/-- `assignment_value`, from the end of the key. -/
def assignmentValue (afterKey key : Text) : Option Redaction :=
  let spaces := afterKey.takeWhile isAsciiWhitespace
  match afterKey.dropWhile isAsciiWhitespace with
  | [] => none
  | separator :: afterSeparator =>
      if !(separator == '=' || separator == ':') then none
      else
        let kept := spaces ++ separator :: afterSeparator.takeWhile isAsciiWhitespace
        let text := afterSeparator.dropWhile isAsciiWhitespace
        match text with
        | [] =>
            some ⟨kept, [], []⟩
        | first :: afterFirst =>
            if isQuote first then
              let (value, rest) := closingQuote first false afterFirst
              some ⟨kept ++ [first], value, rest⟩
            else
              let (value, rest) :=
                if isCookieKey key || isAuthorizationKey key then lineValue text
                else fieldValue false text
              some ⟨kept, value, rest⟩

def Redaction.after (self : Redaction) (kept : Text) : Redaction :=
  { self with kept := kept ++ self.kept }

def bareSensitiveAssignmentValue (before text : Text) : Option Redaction :=
  match text with
  | [] => none
  | c :: _ =>
      if !isKeyByte c || before.head?.any isKeyByte then none
      else
        let key := text.takeWhile isKeyByte
        if isSensitiveKey key then
          (assignmentValue (text.dropWhile isKeyByte) key).map (·.after key)
        else none

def quotedSensitiveAssignmentValue (before text : Text) : Option Redaction :=
  match text with
  | [] => none
  | quote :: afterQuote =>
      if !isQuote quote then none
      else
        let key := (before.takeWhile isKeyByte).reverse
        if (before.dropWhile isKeyByte).head? != some quote then none
        else if isSensitiveKey key then
          (assignmentValue afterQuote key).map (·.after [quote])
        else none

/-- `bearer_value_end`: the credential with its scheme, and the rest. -/
def bearerValue (text : Text) : Option (Text × Text) :=
  let scheme := text.take 6
  let afterScheme := text.drop 6
  if !eqIgnoreAsciiCase scheme "Bearer".toList then none
  else if !afterScheme.head?.any isAsciiWhitespace then none
  else
    let spaces := afterScheme.takeWhile isAsciiWhitespace
    match afterScheme.dropWhile isAsciiWhitespace with
    | [] => some (scheme ++ spaces, [])
    | first :: afterFirst =>
        if isQuote first then
          let (value, rest) := closingQuote first false afterFirst
          -- The closing quote, when there is one, belongs to the range.
          some (scheme ++ spaces ++ first :: value ++ rest.take 1, rest.drop 1)
        else
          let (value, rest) := credentialToken (first :: afterFirst)
          some (scheme ++ spaces ++ value, rest)

def standaloneBearerValue (before text : Text) : Option Redaction :=
  if before.head?.any isWordByte then none
  else (bearerValue text).map fun (value, rest) => ⟨[], value, rest⟩

def prefixedApiKey (text : Text) : Option Redaction :=
  let start := text.take 3
  if eqIgnoreAsciiCase start "sk-".toList || eqIgnoreAsciiCase start "sk_".toList then
    let (value, rest) := credentialToken text
    some ⟨[], value, rest⟩
  else none

/-- The recognizers in the order in which they are tried. -/
def recognize (before text : Text) : Option Redaction :=
  (bareSensitiveAssignmentValue before text).or
    ((quotedSensitiveAssignmentValue before text).or
      ((standaloneBearerValue before text).or (prefixedApiKey text)))

/-! ## The scan -/

/-- The loop of `redact_plain_text`, from the cursor on.  `fuel` bounds the
number of iterations. -/
def redactFrom : Nat → Text → Text → Text
  | 0, _, text => text
  | _ + 1, _, [] => []
  | fuel + 1, before, c :: cs =>
      match recognize before (c :: cs) with
      | some redaction =>
          redaction.kept ++ REDACTED ++
            redactFrom fuel
              ((redaction.kept ++ redaction.value).reverse ++ before)
              redaction.rest
      | none => c :: redactFrom fuel (c :: before) cs

/-- `redact_plain_text`: each iteration moves the cursor, so the length of
the message is fuel enough. -/
def redactPlainText (message : Text) : Text :=
  redactFrom message.length [] message

end MCode.Provider.Redact
