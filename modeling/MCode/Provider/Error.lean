import MCode.Provider.Redact

/-!
# `ProviderError`

Sanitizing, construction and the two conversions of
`mcode-provider-api/src/error.rs`.  `serde_json` is not part of the
repository: `SerdeJson` stands for its parser and its printer.
-/

namespace MCode.Provider

open MCode.Core
open MCode.Provider.Redact

/-- `serde_json::from_str::<Value>` and `Value::to_string`. -/
structure SerdeJson where
  fromStr : String → Option Value
  toString : Value → String

inductive ProviderErrorKind where
  | Cancelled
  | Unavailable
  | Timeout
  | Rejected
  | Protocol
  deriving DecidableEq

def ProviderErrorKind.summary : ProviderErrorKind → String
  | .Cancelled => "provider request cancelled"
  | .Unavailable => "provider unavailable"
  | .Timeout => "provider request timed out"
  | .Rejected => "provider request rejected"
  | .Protocol => "provider protocol error"

mutual

/-- `redact_json`. -/
def redactJson : Value → Value
  | .object fields => .object (redactFields fields)
  | .array values => .array (redactValues values)
  | .string text => .string (String.ofList (redactPlainText text.toList))
  | value => value

/-- The loop over the entries of an object. -/
def redactFields : List (String × Value) → List (String × Value)
  | [] => []
  | (key, value) :: fields =>
      (key, if isSensitiveKey key.toList then .string (String.ofList REDACTED)
        else redactJson value) :: redactFields fields

/-- The loop over the elements of an array. -/
def redactValues : List Value → List Value
  | [] => []
  | value :: values => redactJson value :: redactValues values

end

def redactSensitive (serde : SerdeJson) (message : String) : String :=
  match serde.fromStr message with
  | some value => serde.toString (redactJson value)
  | none => String.ofList (redactPlainText message.toList)

/-- The longest prefix of at most `limit` bytes that ends at a character. -/
def takeBytes : Nat → Text → Text
  | _, [] => []
  | limit, c :: cs =>
      if c.utf8Size ≤ limit then c :: takeBytes (limit - c.utf8Size) cs else []

def sanitizeMessage (serde : SerdeJson) (raw : String) : String :=
  let redacted := redactSensitive serde
    (String.ofList (takeBytes MAX_ERROR_SCAN_BYTES raw.toList))
  if redacted.toList.length ≤ MAX_ERROR_MESSAGE_CHARS then redacted
  else
    String.ofList
      (redacted.toList.take MAX_ERROR_MESSAGE_CHARS ++ "… [truncated]".toList)

/-- A failure category with an optional safe message. -/
structure ProviderError where
  kind : ProviderErrorKind
  message : Option String
  deriving DecidableEq

def ProviderError.new (kind : ProviderErrorKind) : ProviderError := ⟨kind, none⟩

def ProviderError.withMessage (serde : SerdeJson) (kind : ProviderErrorKind)
    (message : String) : ProviderError :=
  let message := sanitizeMessage serde message
  ⟨kind, if message.isEmpty then none else some message⟩

def ProviderError.isCancelled (self : ProviderError) : Bool :=
  self.kind == .Cancelled

/-- `Display`. -/
def ProviderError.toString (self : ProviderError) : String :=
  match self.message with
  | some message => self.kind.summary ++ ": " ++ message
  | none => self.kind.summary

/-- `From<ProviderError> for McodeError`. -/
def ProviderError.toMcodeError (self : ProviderError) : McodeError :=
  .Provider self.toString

/-- The fields that `Deserialize` reads. -/
structure ProviderError.Representation where
  kind : ProviderErrorKind
  message : Option String

/-- The derived `Serialize`: the two fields. -/
def ProviderError.serialize (self : ProviderError) : Representation :=
  ⟨self.kind, self.message⟩

/-- `Deserialize`, after the derived representation is read. -/
def ProviderError.deserialize (serde : SerdeJson)
    (representation : Representation) : ProviderError :=
  match representation.message with
  | some message => withMessage serde representation.kind message
  | none => new representation.kind

end MCode.Provider
