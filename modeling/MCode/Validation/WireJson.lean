import MCode.Validation.Scalar

/-!
# Wire JSON

`provider_validation/wire_json.rs`: a document is an array of nodes that refer
to each other by index.  `validate_wire_json` is one pass over the nodes with
a count of parents and a depth for each of them; `canonical_serialize` writes
the validated document as text.

The serializer recurses along the indices it reads, with no check of its own.
`fuel` bounds the recursion and `none` stands for a call that does not return:
fuel that runs out, or an index out of bounds.
-/

namespace MCode.Validation

abbrev Text := List Char

structure WireJsonField where
  key : String
  value : Nat
  deriving DecidableEq

inductive WireJsonNode where
  | NullValue
  | BooleanValue (value : Bool)
  | NumberValue (value : String)
  | StringValue (value : String)
  | ArrayValue (items : List Nat)
  | ObjectValue (fields : List WireJsonField)
  deriving DecidableEq

structure WireJsonDocument where
  root : Nat
  nodes : List WireJsonNode

def MAX_WIRE_NODES : Nat := 262144
def MAX_WIRE_DEPTH : Nat := 64
def MAX_KEY_BYTES : Nat := 256
def MAX_NUMBER_BYTES : Nat := 128

structure WireJsonStats where
  logicalCharge : Nat
  depth : Nat

/-! ## Numbers -/

def isAsciiDigit (c : Char) : Bool := '0' ≤ c && c ≤ '9'

/-- `(b'1'..=b'9').contains`. -/
def isNonzeroDigit (c : Char) : Bool := '1' ≤ c && c ≤ '9'

/-- `consume_fraction`: the rest behind the digits, unless there are none or
the last one is `0`. -/
def consumeFraction (text : Text) : Option Text :=
  match (text.takeWhile isAsciiDigit).getLast? with
  | none => none
  | some last => if last == '0' then none else some (text.dropWhile isAsciiDigit)

/-- The optional exponent and the end of a number. -/
def endsNumber : Text → Bool
  | 'e' :: exponent =>
      let digits := match exponent with
        | '-' :: digits => digits
        | _ => exponent
      match digits with
      | [] => false
      | first :: rest => isNonzeroDigit first && (rest.dropWhile isAsciiDigit).isEmpty
  | rest => rest.isEmpty

def isCanonicalNumber (value : String) : Bool :=
  let text := value.toList
  if !(1 ≤ utf8Len text && utf8Len text ≤ MAX_NUMBER_BYTES
      && text.all (fun c => c.toNat < 128)) then false
  else if text == ['0'] then true
  else
    let unsigned := match text with
      | '-' :: rest => rest
      | _ => text
    match unsigned with
    | '0' :: '.' :: fraction => (consumeFraction fraction).any endsNumber
    | '0' :: _ => false
    | first :: rest =>
        if isNonzeroDigit first then
          match rest.dropWhile isAsciiDigit with
          | '.' :: fraction => (consumeFraction fraction).any endsNumber
          | rest => endsNumber rest
        else false
    | [] => false

/-! ## Validation -/

/-- `add_parent`: counts one more reference to `child`. -/
def addParent (index child : Nat) (parents : List Nat) : ValidationResult (List Nat) :=
  if child ≥ index then .error .InvalidArgument
  else
    let count := parents.getD child 0 + 1
    if count > 2 ^ 32 - 1 then .error .Limit
    else if count > 1 then .error .InvalidArgument
    else .ok (parents.set child count)

/-- `u8::checked_add` of one, on a depth. -/
def nextDepth (childDepth : Nat) : ValidationResult Nat :=
  if childDepth + 1 ≤ 255 then .ok (childDepth + 1) else .error .Limit

/-- `container_depth`.  Every child is below the container, so its depth is
known. -/
def containerDepth (children depths : List Nat) : ValidationResult Nat :=
  nextDepth ((children.map (depths.getD · 0)).foldl max 0)

/-- The loop over the items of an array. -/
def validateItems (index : Nat) :
    List Nat → List Nat → LogicalCharge → ValidationResult (List Nat × LogicalCharge)
  | [], parents, charge => .ok (parents, charge)
  | child :: items, parents, charge => do
      let charge ← charge.add 4
      let parents ← addParent index child parents
      validateItems index items parents charge

/-- `previous.is_some_and(|old| old >= key)`.  The order of the bytes of two
texts is the order of their characters. -/
def notAfter (previous : Option String) (key : String) : Bool :=
  previous.any (fun old => !(decide (old.toList < key.toList)))

/-- The loop over the fields of an object: parents, charge and the depth of
the deepest child. -/
def validateFields (index : Nat) (depths : List Nat) :
    List WireJsonField → Option String → List Nat → Nat → LogicalCharge →
      ValidationResult (List Nat × Nat × LogicalCharge)
  | [], _, parents, childDepth, charge => .ok (parents, childDepth, charge)
  | field :: fields, previous, parents, childDepth, charge => do
      let charge ← charge.string field.key
      let charge ← charge.add 4
      safe field.key MAX_KEY_BYTES false
      if notAfter previous field.key then .error .InvalidArgument
      else
        let parents ← addParent index field.value parents
        validateFields index depths fields (some field.key) parents
          (max childDepth (depths.getD field.value 0)) charge

/-- `validate_node`: the depth of the node. -/
def validateNode (index : Nat) (node : WireJsonNode) (parents depths : List Nat)
    (charge : LogicalCharge) : ValidationResult (Nat × List Nat × LogicalCharge) := do
  let charge ← charge.add 4
  match node with
  | .NullValue => .ok (1, parents, charge)
  | .BooleanValue _ =>
      let charge ← charge.add 1
      .ok (1, parents, charge)
  | .NumberValue value =>
      let charge ← charge.string value
      if !isCanonicalNumber value then .error .InvalidArgument
      else .ok (1, parents, charge)
  | .StringValue value =>
      let charge ← charge.string value
      safe value MAX_SAFE_TEXT_BYTES false
      .ok (1, parents, charge)
  | .ArrayValue items =>
      let charge ← charge.add 4
      let (parents, charge) ← validateItems index items parents charge
      let depth ← containerDepth items depths
      .ok (depth, parents, charge)
  | .ObjectValue fields =>
      let charge ← charge.add 4
      let (parents, childDepth, charge) ←
        validateFields index depths fields none parents 0 charge
      let depth ← nextDepth childDepth
      .ok (depth, parents, charge)

/-- The loop over the nodes; `depths` holds one depth for each node before. -/
def validateNodes :
    List WireJsonNode → List Nat → List Nat → LogicalCharge →
      ValidationResult (List Nat × List Nat × LogicalCharge)
  | [], parents, depths, charge => .ok (parents, depths, charge)
  | node :: nodes, parents, depths, charge => do
      let (depth, parents, charge) ←
        validateNode depths.length node parents depths charge
      if depth > MAX_WIRE_DEPTH then .error .Limit
      else validateNodes nodes parents (depths ++ [depth]) charge

def isObject : WireJsonNode → Bool
  | .ObjectValue _ => true
  | _ => false

def validateWireJson (document : WireJsonDocument) (objectRoot : Bool) :
    ValidationResult WireJsonStats :=
  let nodes := document.nodes
  if nodes.isEmpty || nodes.length > MAX_WIRE_NODES then .error .Limit
  else if document.root != nodes.length - 1 then .error .InvalidArgument
  else if objectRoot && !nodes.getLast?.any isObject then .error .InvalidArgument
  else do
    let charge ← (LogicalCharge.new MAX_LOGICAL_CHARGE).add 4
    let charge ← charge.add 4
    let (parents, depths, charge) ←
      validateNodes nodes (List.replicate nodes.length 0) [] charge
    if parents.getLast? != some 0 || parents.dropLast.any (· != 1) then
      .error .InvalidArgument
    else .ok ⟨charge.value, depths.getD document.root 0⟩

/-! ## Serialization -/

/-- The bytes that stand for one character of a string. -/
def escapeChar (c : Char) : Text :=
  if c == '"' then ['\\', '"']
  else if c == '\\' then ['\\', '\\']
  else if c == '\t' then ['\\', 't']
  else if c == '\n' then ['\\', 'n']
  else [c]

def serializeString (value : String) : Text :=
  '"' :: value.toList.flatMap escapeChar ++ ['"']

/-- The loop over the children of a container: a comma in front of each but
the first, then `front`, which is the key of a field with its colon. -/
def writeParts (write : Nat → Option (Text × List Nat)) :
    List (Text × Nat) → Nat → Option (Text × List Nat)
  | [], _ => some ([], [])
  | (front, child) :: parts, position => do
      let (text, visited) ← write child
      let (rest, visitedRest) ← writeParts write parts (position + 1)
      some ((if position != 0 then [','] else []) ++ front ++ text ++ rest,
        visited ++ visitedRest)

/-- `serialize_node`: the text, and the indices of the nodes in the order in
which they are written. -/
def serializeNode (nodes : List WireJsonNode) :
    Nat → Nat → Option (Text × List Nat)
  | 0, _ => none
  | fuel + 1, index =>
      match nodes[index]? with
      | none => none
      | some .NullValue => some ("null".toList, [index])
      | some (.BooleanValue true) => some ("true".toList, [index])
      | some (.BooleanValue false) => some ("false".toList, [index])
      | some (.NumberValue value) => some (value.toList, [index])
      | some (.StringValue value) => some (serializeString value, [index])
      | some (.ArrayValue items) => do
          let (text, visited) ← writeParts (serializeNode nodes fuel)
            (items.map fun child => ([], child)) 0
          some ('[' :: text ++ [']'], index :: visited)
      | some (.ObjectValue fields) => do
          let (text, visited) ← writeParts (serializeNode nodes fuel)
            (fields.map fun field => (serializeString field.key ++ [':'], field.value)) 0
          some ('{' :: text ++ ['}'], index :: visited)

/-- The two counters of `serialized_node_stats`: the length of the text, and
what its escapes add inside a JSON string. -/
abbrev SerializedStats := Nat × Nat

/-- `serialized_string_stats`, from `stats` on.  A character of several bytes
is never escaped. -/
def serializedCharStats (stats : SerializedStats) : Text → ValidationResult SerializedStats
  | [] => .ok stats
  | c :: text =>
      if c == '"' || c == '\\' || c == '\t' || c == '\n' then do
        let length ← checkedAdd stats.1 2
        let escapes ← checkedAdd stats.2 ((if c == '"' || c == '\\' then 1 else 0) + 1)
        serializedCharStats (length, escapes) text
      else do
        let length ← checkedAdd stats.1 c.utf8Size
        serializedCharStats (length, stats.2) text

def serializedStringStats (value : String) : ValidationResult SerializedStats :=
  serializedCharStats (2, 2) value.toList

/-- Adds the stats of one more part. -/
def addStats (stats part : SerializedStats) : ValidationResult SerializedStats := do
  let length ← checkedAdd stats.1 part.1
  let escapes ← checkedAdd stats.2 part.2
  return (length, escapes)

/-- The loop over the children; `front` is the key of a field. -/
def statsParts (stats : Nat → Option (ValidationResult SerializedStats)) :
    List (Option String × Nat) → Nat → SerializedStats →
      Option (ValidationResult SerializedStats)
  | [], _, total => some (.ok total)
  | (front, child) :: parts, position, total =>
      let before := do
        let length ← if position != 0 then checkedAdd total.1 1 else .ok total.1
        match front with
        | none => return (length, total.2)
        | some key =>
            let (length, escapes) ← addStats (length, total.2) (← serializedStringStats key)
            return (← checkedAdd length 1, escapes)
      match before with
      | .error error => some (.error error)
      | .ok total =>
          match stats child with
          | none => none
          | some part =>
              match part.bind (addStats total) with
              | .error error => some (.error error)
              | .ok total => statsParts stats parts (position + 1) total

/-- `serialized_node_stats`. -/
def serializedNodeStats (nodes : List WireJsonNode) :
    Nat → Nat → Option (ValidationResult SerializedStats)
  | 0, _ => none
  | fuel + 1, index =>
      match nodes[index]? with
      | none => none
      | some .NullValue => some (.ok (4, 0))
      | some (.BooleanValue true) => some (.ok (4, 0))
      | some (.BooleanValue false) => some (.ok (5, 0))
      | some (.NumberValue value) =>
          some ((checkedLen (utf8Len value.toList)).map fun length => (length, 0))
      | some (.StringValue value) => some (serializedStringStats value)
      | some (.ArrayValue items) =>
          statsParts (serializedNodeStats nodes fuel)
            (items.map fun child => (none, child)) 0 (2, 0)
      | some (.ObjectValue fields) =>
          statsParts (serializedNodeStats nodes fuel)
            (fields.map fun field => (some field.key, field.value)) 0 (2, 0)

/-- `serialize_sized`. -/
def serializeSized (document : WireJsonDocument) (length : Nat) :
    Option (ValidationResult Text) :=
  if length > MAX_LOGICAL_CHARGE then some (.error .Limit)
  else do
    let (output, _) ← serializeNode document.nodes document.nodes.length document.root
    if utf8Len output != length then some (.error .InvalidArgument)
    else some (.ok output)

/-- `canonical_serialize`.  References go down, so the number of nodes is fuel
enough. -/
def canonicalSerialize (document : WireJsonDocument) : Option (ValidationResult Text) :=
  match validateWireJson document false with
  | .error error => some (.error error)
  | .ok _ =>
      match serializedNodeStats document.nodes document.nodes.length document.root with
      | none => none
      | some (.error error) => some (.error error)
      | some (.ok (length, _)) => serializeSized document length

/-- `canonical_serialize_for_json_string`: the text has to fit once more into a string. -/
def canonicalSerializeForJsonString (document : WireJsonDocument) :
    Option (ValidationResult Text) :=
  match validateWireJson document true with
  | .error error => some (.error error)
  | .ok _ =>
      match serializedNodeStats document.nodes document.nodes.length document.root with
      | none => none
      | some (.error error) => some (.error error)
      | some (.ok (length, escapes)) =>
          match (checkedAdd 2 length).bind (checkedAdd · escapes) with
          | .error error => some (.error error)
          | .ok enclosing =>
              if enclosing > MAX_LOGICAL_CHARGE then some (.error .Limit)
              else serializeSized document length

end MCode.Validation
