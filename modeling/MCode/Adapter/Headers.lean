import MCode.Adapter.Types
import MCode.Adapter.Request

/-!
# Ordinary headers

The header rules of a contract (`structure.rs`), the headers of a prepared
request (`prepare.rs`), and how the ones match the others (`header.rs`).
-/

namespace MCode.Adapter

open MCode.Validation (ValidationResult utf8Len notAfter)

def MAX_HEADERS : Nat := 32
def MAX_HEADER_NAME_BYTES : Nat := 64
def MAX_HEADER_VALUE_BYTES : Nat := 4096
def MAX_HEADER_RULES : Nat := 32

def PERMANENT_DENY_HEADERS : List String :=
  ["authorization", "proxy-authorization", "cookie", "set-cookie", "x-api-key", "api-key",
    "cf-aig-authorization", "host", "content-length", "connection", "proxy-connection",
    "keep-alive", "te", "trailer", "transfer-encoding", "upgrade", "expect", "user-agent",
    "origin", "referer", "forwarded", "via", "accept-encoding", "content-encoding",
    "x-http-method-override", "x-method-override", "x-original-url", "x-rewrite-url"]

def isHeaderSymbol (c : Char) : Bool := "!#$%&'*+-.^_`|~".toList.contains c

def validateHeaderName (name : String) : ValidationResult Unit :=
  let text := name.toList
  if utf8Len text > MAX_HEADER_NAME_BYTES then .error .Limit
  else valid (!text.isEmpty
    && text.all (fun c => isAsciiLowercase c || isAsciiDigit c || isHeaderSymbol c))

def isBlank (c : Char) : Bool := c == ' ' || c == '\t'

def validateHeaderValue (value : String) : ValidationResult Unit :=
  let text := value.toList
  if utf8Len text > MAX_HEADER_VALUE_BYTES then .error .Limit
  else valid (!text.head?.any isBlank && !text.getLast?.any isBlank
    && text.all (fun c => c == '\t' || (' ' ≤ c && c ≤ '~')))

def deniedHeader (name : String) (reservedNames : List String) : Bool :=
  PERMANENT_DENY_HEADERS.contains name || "x-forwarded-".toList.isPrefixOf name.toList
    || "x-amz-".toList.isPrefixOf name.toList || reservedNames.contains name

/-! ## The rules of a contract -/

/-- The values of a rule, in ascending order. -/
def validateRuleValues : List String → Option String → AdapterValidationResult Unit
  | [], _ => .ok ()
  | value :: values, old => do
      mapContractError (validateHeaderValue value)
      if notAfter old value then .error .InvalidContract
      else validateRuleValues values (some value)

/-- The name of a rule, once its values are checked. -/
def validateRule : OrdinaryHeaderRule → AdapterValidationResult String
  | .Fixed rule => do
      mapContractError (validateHeaderValue rule.value)
      return rule.name
  | .OneOf rule =>
      if rule.values.isEmpty || rule.values.length > 16 then .error .InvalidContract
      else do
        validateRuleValues rule.values none
        return rule.name

/-- The loop of `validate_header_rules`. -/
def validateRules : List OrdinaryHeaderRule → Option String → AdapterValidationResult Unit
  | [], _ => .ok ()
  | rule :: rules, previous => do
      let name ← validateRule rule
      mapContractError (validateHeaderName name)
      if deniedHeader name [] || notAfter previous name then .error .InvalidContract
      else validateRules rules (some name)

def validateHeaderRules (rules : List OrdinaryHeaderRule) : AdapterValidationResult Unit :=
  if rules.length > MAX_HEADER_RULES then .error .Limit
  else validateRules rules none

/-! ## The headers of a request -/

/-- `previous.is_some_and(|old| old >= key)`, on pairs of a name and a value. -/
def pairNotAfter (previous : Option OrdinaryHeader) (key : OrdinaryHeader) : Bool :=
  previous.any fun old => !(decide (old.name.toList < key.name.toList)
    || (old.name == key.name && decide (old.value.toList < key.value.toList)))

/-- The loop of `validate_ordinary_headers`. -/
def validateHeaderList (reservedNames : List String) : List OrdinaryHeader →
    Option OrdinaryHeader → List String → ValidationResult Unit
  | [], _, _ => .ok ()
  | header :: headers, previous, names => do
      validateHeaderName header.name
      validateHeaderValue header.value
      if deniedHeader header.name reservedNames || names.contains header.name then
        .error .InvalidArgument
      else if pairNotAfter previous header then .error .InvalidArgument
      else validateHeaderList reservedNames headers (some header) (header.name :: names)

def validateOrdinaryHeaders (headers : List OrdinaryHeader) (reservedNames : List String) :
    ValidationResult Unit :=
  if headers.length > MAX_HEADERS then .error .Limit
  else validateHeaderList reservedNames headers none []

/-- The rules are gone through beside the headers; what is left of the headers is returned.
A rule's values are sorted, so `binary_search` finds what they contain. -/
def matchRules : List OrdinaryHeaderRule → List OrdinaryHeader →
    AdapterValidationResult (List OrdinaryHeader)
  | [], headers => .ok headers
  | .Fixed rule :: rules, headers =>
      if headers.head?.any (·.name == rule.name) then .error .HeaderMismatch
      else matchRules rules headers
  | .OneOf rule :: rules, headers =>
      match headers with
      | header :: rest =>
          if header.name == rule.name then
            if rule.values.contains header.value then matchRules rules rest
            else .error .HeaderMismatch
          else if rule.required then .error .HeaderMismatch
          else matchRules rules (header :: rest)
      | [] => if rule.required then .error .HeaderMismatch else matchRules rules []

/-- `validate_headers` of `header.rs`. -/
def validateHeaders (rules : List OrdinaryHeaderRule) (headers : List OrdinaryHeader) :
    AdapterValidationResult Unit := do
  mapError .HeaderMismatch (validateOrdinaryHeaders headers [])
  let rest ← matchRules rules headers
  if !rest.isEmpty then .error .HeaderMismatch else .ok ()

end MCode.Adapter
