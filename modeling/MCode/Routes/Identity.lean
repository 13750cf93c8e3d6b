import Mathlib

/-!
# Bounded identities of the provider-route ledger

The newtypes of `provider_routes/identity.rs`, with the `ProviderId` of
`mcode-config`.  Every one of them is a `String` that passed one grammar
check, ordered by its text, so they are one structure indexed by its kind:
two kinds are two types, and a value carries the proof that its text was
accepted.
-/

namespace MCode.Routes.Identity

/-! ## Failures of the ledger -/

/-- `ProviderRouteError`, in the order of the source. -/
inductive ProviderRouteError where
  | InvalidRouteId
  | InvalidAuthSlotId
  | InvalidModelId
  | InvalidModelAlias
  | InvalidRequestId
  | InvalidTurnId
  | InvalidGeneration
  | InvalidTokenCount
  | WrongManagerFamily
  | EmptyClaimBatch
  | ClaimBatchTooLarge
  | RouteCapacityExceeded
  | DuplicateProviderId
  | DuplicateRouteId
  | DuplicateAuthSlotId
  | ProviderIdCollision
  | RouteIdCollision
  | AuthSlotIdCollision
  | UnknownRoute
  | OwnerMismatch
  | StaleGeneration
  | ForeignStamp
  | UsageContextCapacityExceeded
  | RequestAlreadyRegistered
  | RequestMismatch
  | TurnMismatch
  | StaleUsageContext
  | ResolvedModelAlreadyRecorded
  | RequestAlreadyTerminal
  deriving DecidableEq, Repr

/-- How a call can end without a value: a returned error, or a panic of an
`expect` or an `assert!`, with its text. -/
inductive Fault where
  | error (e : ProviderRouteError)
  | panic (message : String)
  deriving DecidableEq, Repr

/-! ## Grammars -/

def MAX_PROVIDER_ID_BYTES : Nat := 64
def MAX_ROUTE_ID_BYTES : Nat := 256
def MAX_AUTH_SLOT_ID_BYTES : Nat := 64
def MAX_MODEL_ID_BYTES : Nat := 256
def MAX_TRACKING_ID_BYTES : Nat := 128
def MAX_SIGNED_INTEGER : Nat := 2 ^ 63 - 1

def isAsciiDigit (c : Char) : Bool := '0' ≤ c && c ≤ '9'

def isAsciiLowercase (c : Char) : Bool := 'a' ≤ c && c ≤ 'z'

def isAsciiAlphabetic (c : Char) : Bool :=
  isAsciiLowercase c || ('A' ≤ c && c ≤ 'Z')

def isAsciiAlphanumeric (c : Char) : Bool :=
  isAsciiAlphabetic c || isAsciiDigit c

/-- `(1..=maximum).contains(&bytes.len())`. -/
def lengthWithin (value : String) (maximum : Nat) : Bool :=
  1 ≤ value.utf8ByteSize && value.utf8ByteSize ≤ maximum

/-- `windows(2).any(|pair| pair == b"--")`. -/
def hasDoubleHyphen : List Char → Bool
  | a :: b :: rest => (a == '-' && b == '-') || hasDoubleHyphen (b :: rest)
  | _ => false

def isVisibleAscii (value : String) (maximum : Nat) : Bool :=
  lengthWithin value maximum && value.toList.all (fun c => '!' ≤ c && c ≤ '~')

def isProviderId (value : String) : Bool :=
  lengthWithin value MAX_PROVIDER_ID_BYTES
    && value.toList.head?.any isAsciiLowercase
    && value.toList.getLast?.any isAsciiAlphanumeric
    && value.toList.all (fun c =>
        isAsciiLowercase c || isAsciiDigit c || c == '-')
    && !hasDoubleHyphen value.toList

def isAuthSlotId (value : String) : Bool :=
  lengthWithin value MAX_AUTH_SLOT_ID_BYTES
    && value.toList.head?.any isAsciiAlphabetic
    && value.toList.getLast?.any isAsciiAlphanumeric
    && value.toList.all (fun c => isAsciiAlphanumeric c || c == '-')
    && !hasDoubleHyphen value.toList

def isTrackingId (value : String) : Bool :=
  lengthWithin value MAX_TRACKING_ID_BYTES
    && value.toList.head?.any isAsciiAlphanumeric
    && value.toList.getLast?.any isAsciiAlphanumeric
    && value.toList.all (fun c =>
        isAsciiAlphanumeric c || c == '.' || c == '_' || c == ':' || c == '-')

/-! ## The identifiers -/

/-- The seven identifier newtypes. -/
inductive IdKind where
  | provider
  | route
  | authSlot
  | model
  | alias
  | request
  | turn
  deriving DecidableEq, Repr

/-- The grammar of each kind. -/
def IdKind.accepts : IdKind → String → Bool
  | .provider, value => isProviderId value
  | .route, value => isVisibleAscii value MAX_ROUTE_ID_BYTES
  | .authSlot, value => isAuthSlotId value
  | .model, value => isVisibleAscii value MAX_MODEL_ID_BYTES
  | .alias, value => isVisibleAscii value MAX_MODEL_ID_BYTES
  | .request, value => isTrackingId value
  | .turn, value => isTrackingId value

/-- One accepted identifier. -/
structure Id (kind : IdKind) where
  text : String
  valid : kind.accepts text = true
  deriving DecidableEq, Repr

abbrev ProviderId := Id .provider
abbrev ProviderRouteId := Id .route
abbrev AuthSlotId := Id .authSlot
abbrev ModelId := Id .model
abbrev ModelAlias := Id .alias
abbrev RequestId := Id .request
abbrev TurnId := Id .turn

theorem Id.ext_text {kind : IdKind} {a b : Id kind} (h : a.text = b.text) :
    a = b := by
  cases a
  cases b
  cases h
  rfl

/-- The common body of the `parse` functions: check the grammar, keep the
exact text. -/
def Id.parse (kind : IdKind) {ε : Type} (invalid : ε) (value : String) :
    Except ε (Id kind) :=
  if h : kind.accepts value = true then .ok ⟨value, h⟩ else .error invalid

def ProviderRouteId.parse := Id.parse .route ProviderRouteError.InvalidRouteId
def AuthSlotId.parse := Id.parse .authSlot ProviderRouteError.InvalidAuthSlotId
def ModelId.parse := Id.parse .model ProviderRouteError.InvalidModelId
def ModelAlias.parse := Id.parse .alias ProviderRouteError.InvalidModelAlias
def RequestId.parse := Id.parse .request ProviderRouteError.InvalidRequestId
def TurnId.parse := Id.parse .turn ProviderRouteError.InvalidTurnId

/-! ### The derived order -/

instance (kind : IdKind) : Ord (Id kind) where
  compare a b := compare a.text b.text

instance (kind : IdKind) : Std.TransOrd (Id kind) where
  eq_swap {a b} :=
    show compare a.text b.text = (compare b.text a.text).swap from
      Std.OrientedCmp.eq_swap
  isLE_trans {a b c} (hab : (compare a.text b.text).isLE)
      (hbc : (compare b.text c.text).isLE) :=
    show (compare a.text c.text).isLE from Std.TransCmp.isLE_trans hab hbc

instance (kind : IdKind) : Std.LawfulEqOrd (Id kind) where
  compare_self {a} :=
    show compare a.text a.text = .eq from Std.ReflCmp.compare_self
  eq_of_compare {a b} (h : compare a.text b.text = .eq) :=
    Id.ext_text (Std.LawfulEqCmp.eq_of_compare h)

/-! ## Bounded numbers -/

/-- A provider generation: `1` through `i64::MAX`. -/
structure ProviderGeneration where
  value : Nat
  valid : value ≠ 0 ∧ value ≤ MAX_SIGNED_INTEGER
  deriving DecidableEq, Repr

/-- A token count: zero through `i64::MAX`. -/
structure TokenCount where
  value : Nat
  valid : value ≤ MAX_SIGNED_INTEGER
  deriving DecidableEq, Repr

/-- The optional terminal counters, each kept exactly as given. -/
structure UsageCounters where
  inputTokens : Option TokenCount
  outputTokens : Option TokenCount
  cacheReadTokens : Option TokenCount
  cacheWriteTokens : Option TokenCount
  deriving DecidableEq, Repr

end MCode.Routes.Identity
