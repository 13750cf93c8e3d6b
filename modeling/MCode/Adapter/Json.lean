import MCode.Adapter.Types
import MCode.Validation.WireText

/-!
# Adapter values and prepared bodies

`provider_validation/adapter/json.rs`: the value that a contract asks for is a
tree, the body that a pack prepared is a list of nodes.  The two are compared
in lock step, from the root on; then the charge and the length of the tree are
checked, and the tree is written.
-/

namespace MCode.Adapter

open MCode.Lib
open MCode.Validation (Text WireJsonDocument WireJsonNode WireJsonField WireLabel ValidationResult
  LogicalCharge MAX_LOGICAL_CHARGE MAX_SAFE_TEXT_BYTES MAX_WIRE_NODES MAX_WIRE_DEPTH MAX_KEY_BYTES
  safe notAfter utf8Len escapeChar serializeString nextDepth checkedLen checkedAdd
  validateWireJson canonicalSerializeForJsonString arenaOf)

inductive AdapterJson where
  | Null
  | Boolean (value : Bool)
  | Number (value : String)
  | String (value : String) (derived : Bool)
  | Array (items : List AdapterJson)
  | Object (fields : List (String × AdapterJson))

def ordinaryString (value : String) : AdapterJson := .String value false

def derivedString (value : String) : AdapterJson := .String value true

def fromConstant : TypedJsonConstant → AdapterJson
  | .Null => .Null
  | .Boolean value => .Boolean value
  | .Number value => .Number value
  | .String value => ordinaryString value

/-! ## Reading a document -/

/-- `from_wire_node`.  `fuel` bounds the recursion along the indices. -/
def fromWireNode (document : WireJsonDocument) : Nat → Nat → Run AdapterJson
  | 0, _ => .error .Stuck
  | fuel + 1, index =>
      match document.nodes[index]? with
      | none => .error .Stuck
      | some .NullValue => .ok .Null
      | some (.BooleanValue value) => .ok (.Boolean value)
      | some (.NumberValue value) => .ok (.Number value)
      | some (.StringValue value) => .ok (ordinaryString value)
      | some (.ArrayValue items) => do
          let items ← items.mapM (fromWireNode document fuel)
          return .Array items
      | some (.ObjectValue fields) => do
          let fields ← fields.mapM fun field => do
            return (field.key, ← fromWireNode document fuel field.value)
          return .Object fields

/-- `from_wire`. -/
def fromWire (document : WireJsonDocument) : Run AdapterJson := do
  let _ ← returned (mapSourceError (validateWireJson document true))
  fromWireNode document document.nodes.length document.root

/-- `canonical_wire_text`. -/
def canonicalWireText (document : WireJsonDocument) : Run String :=
  match canonicalSerializeForJsonString document with
  | none => .error .Stuck
  | some result => (returned (mapSourceError result)).map String.ofList

/-! ## The comparison -/

/-- `add_parent`: counts one more reference to `child`. -/
def addParent (parent child : Nat) (parents : List Nat) : AdapterValidationResult (List Nat) :=
  if child ≥ parent || child ≥ parents.length then .error .BodyMismatch
  else
    let count := parents.getD child 0 + 1
    if count > 255 then .error .Limit
    else if count != 1 then .error .BodyMismatch
    else .ok (parents.set child count)

mutual

/-- `compare_node`: the depth of the tree, and the counts of references. -/
def compareNode (prepared : WireJsonDocument) : AdapterJson → Nat → List Nat →
    AdapterValidationResult (Nat × List Nat)
  | .Null, index, parents =>
      match prepared.nodes[index]? with
      | some .NullValue => .ok (1, parents)
      | _ => .error .BodyMismatch
  | .Boolean left, index, parents =>
      match prepared.nodes[index]? with
      | some (.BooleanValue right) =>
          if left == right then .ok (1, parents) else .error .BodyMismatch
      | _ => .error .BodyMismatch
  | .Number left, index, parents =>
      match prepared.nodes[index]? with
      | some (.NumberValue right) =>
          if left == right then .ok (1, parents) else .error .BodyMismatch
      | _ => .error .BodyMismatch
  | .String value derived, index, parents =>
      match prepared.nodes[index]? with
      | some (.StringValue actual) =>
          if value == actual then do
            mapBodyError
              (safe actual (if derived then MAX_LOGICAL_CHARGE else MAX_SAFE_TEXT_BYTES) false)
            return (1, parents)
          else .error .BodyMismatch
      | _ => .error .BodyMismatch
  | .Array expected, index, parents =>
      match prepared.nodes[index]? with
      | some (.ArrayValue items) =>
          if expected.length == items.length then do
            let (maximum, parents) ← compareItems prepared index expected items 0 parents
            return (← mapLimitError (nextDepth maximum), parents)
          else .error .BodyMismatch
      | _ => .error .BodyMismatch
  | .Object expected, index, parents =>
      match prepared.nodes[index]? with
      | some (.ObjectValue fields) =>
          if expected.length == fields.length then do
            let (maximum, parents) ← compareFields prepared index expected fields none 0 parents
            return (← mapLimitError (nextDepth maximum), parents)
          else .error .BodyMismatch
      | _ => .error .BodyMismatch

/-- The loop over the items of two arrays of one length. -/
def compareItems (prepared : WireJsonDocument) (index : Nat) :
    List AdapterJson → List Nat → Nat → List Nat →
      AdapterValidationResult (Nat × List Nat)
  | expected :: more, child :: items, maximum, parents => do
      let parents ← addParent index child parents
      let (depth, parents) ← compareNode prepared expected child parents
      compareItems prepared index more items (max maximum depth) parents
  | _, _, maximum, parents => .ok (maximum, parents)

/-- The loop over the fields of two objects of one length. -/
def compareFields (prepared : WireJsonDocument) (index : Nat) :
    List (String × AdapterJson) → List WireJsonField → Option String → Nat → List Nat →
      AdapterValidationResult (Nat × List Nat)
  | (key, expected) :: more, field :: fields, previous, maximum, parents => do
      if key != field.key || notAfter previous field.key then .error .BodyMismatch
      else
        mapBodyError (safe field.key MAX_KEY_BYTES false)
        let parents ← addParent index field.value parents
        let (depth, parents) ← compareNode prepared expected field.value parents
        compareFields prepared index more fields (some field.key) (max maximum depth) parents
  | _, _, _, maximum, parents => .ok (maximum, parents)

end

/-! ## Charge, length and text of a tree -/

mutual

/-- `charge_value`. -/
def chargeValue : AdapterJson → LogicalCharge → ValidationResult LogicalCharge
  | .Null, charge => charge.add 4
  | .Boolean _, charge => do (← charge.add 4).add 1
  | .Number value, charge => do (← charge.add 4).string value
  | .String value _, charge => do (← charge.add 4).string value
  | .Array items, charge => do chargeItems items (← (← charge.add 4).add 4)
  | .Object fields, charge => do chargeFields fields (← (← charge.add 4).add 4)

def chargeItems : List AdapterJson → LogicalCharge → ValidationResult LogicalCharge
  | [], charge => .ok charge
  | item :: items, charge => do
      let charge ← charge.add 4
      let charge ← chargeValue item charge
      chargeItems items charge

def chargeFields : List (String × AdapterJson) → LogicalCharge → ValidationResult LogicalCharge
  | [], charge => .ok charge
  | (key, value) :: fields, charge => do
      let charge ← charge.string key
      let charge ← charge.add 4
      let charge ← chargeValue value charge
      chargeFields fields charge

end

/-- `validate_expected_charge`. -/
def validateExpectedCharge (value : AdapterJson) : AdapterValidationResult Unit :=
  mapLimitError do
    let charge ← (LogicalCharge.new MAX_LOGICAL_CHARGE).add 4
    let charge ← charge.add 4
    let _ ← chargeValue value charge
    return ()

/-- The bytes of a string between its quotes, added to `length`. -/
def escapedLength : Text → Nat → ValidationResult Nat
  | [], length => .ok length
  | c :: text, length => do
      let length ← checkedAdd length
        (if c == '"' || c == '\\' || c == '\t' || c == '\n' then 2 else c.utf8Size)
      escapedLength text length

/-- `serialized_string_length`. -/
def serializedStringLength (value : String) : ValidationResult Nat :=
  escapedLength value.toList 2

/-- The comma in front of each part but the first. -/
def commaLength (position length : Nat) : ValidationResult Nat :=
  if position != 0 then checkedAdd length 1 else .ok length

mutual

/-- `serialized_length`. -/
def serializedLength : AdapterJson → ValidationResult Nat
  | .Null => .ok 4
  | .Boolean true => .ok 4
  | .Boolean false => .ok 5
  | .Number value => checkedLen (utf8Len value.toList)
  | .String value _ => serializedStringLength value
  | .Array items => itemsLength items 0 2
  | .Object fields => fieldsLength fields 0 2

def itemsLength : List AdapterJson → Nat → Nat → ValidationResult Nat
  | [], _, length => .ok length
  | item :: items, position, length => do
      let length ← commaLength position length
      let length ← checkedAdd length (← serializedLength item)
      itemsLength items (position + 1) length

def fieldsLength : List (String × AdapterJson) → Nat → Nat → ValidationResult Nat
  | [], _, length => .ok length
  | (key, value) :: fields, position, length => do
      let length ← commaLength position length
      let length ← checkedAdd length (← serializedStringLength key)
      let length ← checkedAdd length 1
      let length ← checkedAdd length (← serializedLength value)
      fieldsLength fields (position + 1) length

end

/-- The comma in front of each part but the first. -/
def comma (position : Nat) : Text := if position != 0 then [','] else []

mutual

/-- `serialize`. -/
def serialize : AdapterJson → Text
  | .Null => "null".toList
  | .Boolean true => "true".toList
  | .Boolean false => "false".toList
  | .Number value => value.toList
  | .String value _ => serializeString value
  | .Array items => '[' :: serializeItems items 0 ++ [']']
  | .Object fields => '{' :: serializeFields fields 0 ++ ['}']

def serializeItems : List AdapterJson → Nat → Text
  | [], _ => []
  | item :: items, position =>
      comma position ++ serialize item ++ serializeItems items (position + 1)

def serializeFields : List (String × AdapterJson) → Nat → Text
  | [], _ => []
  | (key, value) :: fields, position =>
      comma position ++ (serializeString key ++ [':'] ++ serialize value)
        ++ serializeFields fields (position + 1)

end

def isObject : AdapterJson → Bool
  | .Object _ => true
  | _ => false

/-- The end of `compare_and_serialize`: the expected tree is written. -/
def serializeExpected (expected : AdapterJson) : AdapterValidationResult Text := do
  validateExpectedCharge expected
  let length ← mapLimitError (serializedLength expected)
  if !(2 ≤ length && length ≤ MAX_LOGICAL_CHARGE) then .error .Limit
  else
    let output := serialize expected
    if utf8Len output != length then .error .BodyMismatch
    else return output

/-- `compare_and_serialize`. -/
def compareAndSerialize (expected : AdapterJson) (prepared : WireJsonDocument) :
    AdapterValidationResult Text :=
  if prepared.nodes.isEmpty || prepared.nodes.length > MAX_WIRE_NODES then .error .Limit
  else if prepared.root != prepared.nodes.length - 1 || !isObject expected then
    .error .BodyMismatch
  else do
    let (depth, parents) ← compareNode prepared expected prepared.root
      (List.replicate prepared.nodes.length 0)
    if depth > MAX_WIRE_DEPTH || parents.getLast? != some 0
        || parents.dropLast.any (· != 1) then .error .BodyMismatch
    else serializeExpected expected

end MCode.Adapter
