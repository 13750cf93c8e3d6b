import MCode.Validation.WireJson

/-!
# Tool arguments

`provider_validation/decoder/tool_json.rs`: the parser of completed tool
arguments.  A position in the text is what remains of the text.  Every byte
that the parser compares is ASCII, so it stops between characters.

The recursion of the parser is bounded by `fuel`; twice the length of the text
is enough, since more of it changes no result (`parse_fuel`).
-/

namespace MCode.Validation

def MAX_TOOL_ARGUMENT_BYTES : Nat := 1024 * 1024
def MAX_TOOL_ARGUMENT_CHARGE : Nat := 1024 * 1024
def MAX_TOOL_ARGUMENT_DEPTH : Nat := 64
def MAX_TOOL_ARGUMENT_NODES : Nat := 16384

/-- What remains of the input, and the nodes pushed so far. -/
structure Parser where
  rest : Text
  nodes : List WireJsonNode

/-! ## Characters -/

def isJsonWhitespace (c : Char) : Bool :=
  c == ' ' || c == '\t' || c == '\n' || c == '\r'

def skipWhitespace (text : Text) : Text := text.dropWhile isJsonWhitespace

def expectByte (expected : Char) : Text → ValidationResult Text
  | [] => .error .InvalidArgument
  | c :: rest => if c == expected then .ok rest else .error .InvalidArgument

def consumeLiteral (literal text : Text) : ValidationResult Text :=
  if literal.isPrefixOf text then .ok (text.drop literal.length)
  else .error .InvalidArgument

def hexValue (c : Char) : Option Nat :=
  if '0' ≤ c && c ≤ '9' then some (c.toNat - '0'.toNat)
  else if 'a' ≤ c && c ≤ 'f' then some (c.toNat - 'a'.toNat + 10)
  else if 'A' ≤ c && c ≤ 'F' then some (c.toNat - 'A'.toNat + 10)
  else none

/-- `parse_hex_quad`. -/
def parseHexQuad : Text → ValidationResult (Nat × Text)
  | a :: b :: c :: d :: rest =>
      match hexValue a, hexValue b, hexValue c, hexValue d with
      | some a, some b, some c, some d =>
          .ok (((a * 16 + b) * 16 + c) * 16 + d, rest)
      | _, _, _, _ => .error .InvalidArgument
  | _ => .error .InvalidArgument

/-- `char::from_u32`. -/
def charFromU32 (value : Nat) : Option Char :=
  if value.isValidChar then some (Char.ofNat value) else none

/-- `parse_unicode_escape`, behind `\u`. -/
def parseUnicodeEscape (text : Text) : ValidationResult (Char × Text) := do
  let (first, rest) ← parseHexQuad text
  let (scalar, rest) ←
    if 0xd800 ≤ first && first ≤ 0xdbff then do
      let rest ← expectByte '\\' rest
      let rest ← expectByte 'u' rest
      let (second, rest) ← parseHexQuad rest
      if !(0xdc00 ≤ second && second ≤ 0xdfff) then .error .InvalidArgument
      else .ok (0x10000 + (first - 0xd800) * 2 ^ 10 + (second - 0xdc00), rest)
    else if 0xdc00 ≤ first && first ≤ 0xdfff then .error .InvalidArgument
    else .ok (first, rest)
  match charFromU32 scalar with
  | none => .error .InvalidArgument
  | some c => .ok (c, rest)

/-- `parse_escape`, behind the backslash. -/
def parseEscape : Text → ValidationResult (Char × Text)
  | [] => .error .InvalidArgument
  | escape :: rest =>
      if escape == '"' then .ok ('"', rest)
      else if escape == '\\' then .ok ('\\', rest)
      else if escape == '/' then .ok ('/', rest)
      else if escape == 'b' then .ok ('\x08', rest)
      else if escape == 'f' then .ok ('\x0c', rest)
      else if escape == 'n' then .ok ('\n', rest)
      else if escape == 'r' then .ok ('\r', rest)
      else if escape == 't' then .ok ('\t', rest)
      else if escape == 'u' then parseUnicodeEscape rest
      else .error .InvalidArgument

/-- The loop of `parse_string`, behind the opening quote.  Every iteration
takes a character, so fuel for the length of the text lasts to its end. -/
def parseChars : Nat → Text → ValidationResult (Text × Text)
  | 0, _ => .error .InvalidArgument
  | _ + 1, [] => .error .InvalidArgument
  | fuel + 1, c :: rest =>
      if c == '"' then .ok ([], rest)
      else if c == '\\' then do
        let (character, rest) ← parseEscape rest
        let (output, rest) ← parseChars fuel rest
        .ok (character :: output, rest)
      else if c.toNat ≤ 0x1f then .error .InvalidArgument
      else do
        let (output, rest) ← parseChars fuel rest
        .ok (c :: output, rest)

def parseString (text : Text) : ValidationResult (String × Text) := do
  let rest ← expectByte '"' text
  let (output, rest) ← parseChars rest.length rest
  .ok (String.ofList output, rest)

/-- The bytes that end a number token. -/
def endsToken (c : Char) : Bool :=
  c == ',' || c == ']' || c == '}' || isJsonWhitespace c

/-! ## Values -/

/-- `push_node`: the index of the new node. -/
def pushNode (rest : Text) (nodes : List WireJsonNode) (node : WireJsonNode) :
    ValidationResult (Nat × Parser) :=
  if nodes.length ≥ MAX_TOOL_ARGUMENT_NODES then .error .Limit
  else .ok (nodes.length, ⟨rest, nodes ++ [node]⟩)

mutual

/-- `parse_value`. -/
def parseValue : Nat → Nat → Parser → ValidationResult (Nat × Parser)
  | 0, _, _ => .error .InvalidArgument
  | fuel + 1, depth, self =>
      if depth > MAX_TOOL_ARGUMENT_DEPTH then .error .Limit
      else
        let text := skipWhitespace self.rest
        match text with
        | [] => .error .InvalidArgument
        | c :: after =>
            if c == 'n' then do
              let rest ← consumeLiteral "null".toList text
              pushNode rest self.nodes .NullValue
            else if c == 't' then do
              let rest ← consumeLiteral "true".toList text
              pushNode rest self.nodes (.BooleanValue true)
            else if c == 'f' then do
              let rest ← consumeLiteral "false".toList text
              pushNode rest self.nodes (.BooleanValue false)
            else if c == '"' then do
              let (value, rest) ← parseString text
              pushNode rest self.nodes (.StringValue value)
            else if c == '[' then
              -- `parse_array`
              match skipWhitespace after with
              | ']' :: rest => pushNode rest self.nodes (.ArrayValue [])
              | rest => do
                  let (items, self) ← parseItems fuel (depth + 1) ⟨rest, self.nodes⟩
                  pushNode self.rest self.nodes (.ArrayValue items)
            else if c == '{' then
              -- `parse_object`
              match skipWhitespace after with
              | '}' :: rest => pushNode rest self.nodes (.ObjectValue [])
              | rest => do
                  let (fields, self) ← parseFields fuel (depth + 1) [] ⟨rest, self.nodes⟩
                  pushNode self.rest self.nodes (.ObjectValue fields)
            else if c == '-' || isAsciiDigit c then
              -- `parse_number`
              pushNode (text.dropWhile fun c => !endsToken c) self.nodes
                (.NumberValue (String.ofList (text.takeWhile fun c => !endsToken c)))
            else .error .InvalidArgument

/-- The loop of `parse_array`, behind the opening bracket or a comma. -/
def parseItems : Nat → Nat → Parser → ValidationResult (List Nat × Parser)
  | 0, _, _ => .error .InvalidArgument
  | fuel + 1, depth, self => do
      let (item, self) ← parseValue fuel depth self
      match skipWhitespace self.rest with
      | ']' :: rest => .ok ([item], ⟨rest, self.nodes⟩)
      | text => do
          let rest ← expectByte ',' text
          let (items, self) ← parseItems fuel depth ⟨rest, self.nodes⟩
          .ok (item :: items, self)

/-- The loop of `parse_object`, behind the opening brace or a comma; `keys`
are the keys so far. -/
def parseFields : Nat → Nat → List String → Parser →
    ValidationResult (List WireJsonField × Parser)
  | 0, _, _, _ => .error .InvalidArgument
  | fuel + 1, depth, keys, self => do
      let (key, rest) ← parseString (skipWhitespace self.rest)
      if keys.contains key then .error .InvalidArgument
      else do
        let rest ← expectByte ':' (skipWhitespace rest)
        let (value, self) ← parseValue fuel depth ⟨rest, self.nodes⟩
        match skipWhitespace self.rest with
        | '}' :: rest => .ok ([⟨key, value⟩], ⟨rest, self.nodes⟩)
        | text => do
            let rest ← expectByte ',' text
            let (fields, self) ← parseFields fuel depth (key :: keys) ⟨rest, self.nodes⟩
            .ok (⟨key, value⟩ :: fields, self)

end

/-- `Parser::parse`. -/
def parse (input : Text) : ValidationResult WireJsonDocument := do
  let (root, self) ← parseValue (2 * input.length + 2) 1 ⟨skipWhitespace input, []⟩
  match skipWhitespace self.rest with
  | [] => .ok ⟨root, self.nodes⟩
  | _ :: _ => .error .InvalidArgument

/-- `validate_tool_arguments`. -/
def validateToolArguments (value : String) : Option (ValidationResult Unit) :=
  if utf8Len value.toList > MAX_TOOL_ARGUMENT_BYTES then some (.error .Limit)
  else
    match parse value.toList with
    | .error error => some (.error error)
    | .ok document =>
        if document.nodes.length > MAX_TOOL_ARGUMENT_NODES then some (.error .Limit)
        else
          match validateWireJson document true with
          | .error error => some (.error error)
          | .ok stats =>
              if stats.depth > MAX_TOOL_ARGUMENT_DEPTH
                  || stats.logicalCharge > MAX_TOOL_ARGUMENT_CHARGE then
                some (.error .Limit)
              else
                (canonicalSerialize document).map fun serialized => do
                  if (← serialized) != value.toList then .error .InvalidArgument
                  else .ok ()

end MCode.Validation
