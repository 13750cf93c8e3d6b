import MCode.Routes.Stamps

/-!
# Pack selections

`mcode-plugin-host/src/pack_selection.rs`: one authority publishes root
compositions and issues to each client the Packs of its family under a random
stamp.  The authority's state lies behind a mutex, which a commit of an
activation holds for as long as its guard lives; every other operation is one
critical section.

An array over the families (`[Vec<PackId>; FAMILY_COUNT]` with
`family_index`) is a function of the family here.
-/

namespace MCode.Packs

open MCode.Routes.Stamps (PluginFamily)

/-! ## Root compositions -/

/-- A `PackId`, which is only compared here. -/
abbrev PackId := String

/-- `AuthorityRevision`; zero is logical absence. -/
abbrev AuthorityRevision := Nat

def AuthorityRevision.ABSENT : AuthorityRevision := 0

def MAX_AUTHORITY_REVISION : Nat := 2 ^ 63 - 1

/-- `RootComposition`, with the provider and the model of its default route and
with its two singleton slots. -/
structure RootComposition where
  defaultRoute : Option (String × String)
  providers : List PackId
  usage : List PackId
  themes : List PackId
  web : Option PackId
  mcp : Option PackId
  deriving DecidableEq

def RootComposition.empty : RootComposition := ⟨none, [], [], [], none, none⟩

/-- A persisted document has a positive revision. -/
structure RootCompositionDocument where
  revision : AuthorityRevision
  composition : RootComposition
  positive : AuthorityRevision.ABSENT < revision
  bounded : revision ≤ MAX_AUTHORITY_REVISION
  deriving DecidableEq

/-- `map_or(AuthorityRevision::ABSENT, RootCompositionDocument::revision)`. -/
def revisionOf (document : Option RootCompositionDocument) : AuthorityRevision :=
  (document.map RootCompositionDocument.revision).getD AuthorityRevision.ABSENT

theorem isSome_of_revision {document : Option RootCompositionDocument}
    (h : AuthorityRevision.ABSENT < revisionOf document) : document.isSome = true := by
  cases document with
  | none => exact absurd h (Nat.lt_irrefl _)
  | some document => rfl

theorem newer_positive {target current : AuthorityRevision} (hregressed : ¬ target < current)
    (hequal : ¬ target = current) : AuthorityRevision.ABSENT < target :=
  Nat.lt_of_le_of_lt (Nat.zero_le current)
    (Nat.lt_of_le_of_ne (Nat.not_lt.1 hregressed) (Ne.symm hequal))

abbrev FamilyProjection := PluginFamily → List PackId

def emptyProjection : FamilyProjection := fun _ => []

def project (composition : RootComposition) : FamilyProjection
  | .Providers => composition.providers
  | .Usage => composition.usage
  | .Ui => composition.themes
  | .Web => composition.web.toList
  | .Mcp => composition.mcp.toList

/-! ## Stamps -/

def PACK_SELECTION_PREFIX : String := "psel1-"
def PACK_SELECTION_RANDOM_BYTES : Nat := 16
def PACK_SELECTION_MINT_ATTEMPTS : Nat := 8
def LOWER_HEX : List Char := "0123456789abcdef".toList

abbrev RandomBytes := Vector UInt8 PACK_SELECTION_RANDOM_BYTES

/-- What the random source gives to the attempts of one mint. -/
abbrev Draws := Vector (Option RandomBytes) PACK_SELECTION_MINT_ATTEMPTS

def lowerHex (digit : UInt8) : Char := LOWER_HEX.getD digit.toNat '0'

def encodeStamp (random : RandomBytes) : String :=
  PACK_SELECTION_PREFIX ++ String.ofList
    (random.toList.flatMap fun byte : UInt8 => [lowerHex (byte >>> 4), lowerHex (byte &&& 0x0f)])

/-- A stamp that is not live, from the draws of the attempts that are left. -/
def mintFrom (liveStamps : Finset String) : List (Option RandomBytes) → Option String
  | [] => none
  | none :: _ => none
  | some random :: draws =>
      if encodeStamp random ∈ liveStamps then mintFrom liveStamps draws
      else some (encodeStamp random)

def mintStamp (liveStamps : Finset String) (draws : Draws) : Option String :=
  mintFrom liveStamps draws.toList

theorem mintFrom_fresh {liveStamps : Finset String} {draws : List (Option RandomBytes)}
    {stamp : String} (h : mintFrom liveStamps draws = some stamp) : stamp ∉ liveStamps := by
  induction draws with
  | nil => cases h
  | cons draw draws ih =>
      cases draw with
      | none => cases h
      | some random =>
          unfold mintFrom at h
          split at h
          · exact ih h
          · rename_i hfresh
            cases h
            exact hfresh

/-! ## The authority -/

structure ConfiguredPackSelection where
  stamp : String
  revision : AuthorityRevision
  packIds : List PackId
  deriving DecidableEq

structure AuthorityState where
  closed : Bool
  document : Option RootCompositionDocument
  projection : FamilyProjection
  liveStamps : Finset String

/-- `PackSelectionAuthority`: the state, whether its mutex is poisoned, and the
client whose `PackActivationCommit` holds it. -/
structure PackSelectionAuthority where
  state : AuthorityState
  poisoned : Bool
  guardedBy : Option Nat

def PackSelectionAuthority.new : PackSelectionAuthority :=
  ⟨⟨false, none, emptyProjection, ∅⟩, false, none⟩

/-- The revision that is accepted now. -/
def AuthorityState.revision (state : AuthorityState) : AuthorityRevision :=
  revisionOf state.document

inductive PackConfigurationError where
  | Closed
  | RevisionRegression
  | RevisionConflict
  | Unavailable
  deriving DecidableEq

/-- `pack_selection::PackActivationError`. -/
inductive SelectionActivationError where
  | InvalidSelection
  | Unavailable
  deriving DecidableEq

inductive PackSelectionIssueError where
  | Unavailable
  deriving DecidableEq

def PackSelectionAuthority.publish (self : PackSelectionAuthority)
    (document : Option RootCompositionDocument) :
    Except PackConfigurationError Unit × PackSelectionAuthority :=
  if self.poisoned then (.error .Unavailable, self)
  else if self.state.closed then (.error .Closed, self)
  else if hregressed : revisionOf document < self.state.revision then
    (.error .RevisionRegression, self)
  else if hequal : revisionOf document = self.state.revision then
    if document = self.state.document then (.ok (), self) else (.error .RevisionConflict, self)
  else
    -- the proof is the `expect` of the source
    let accepted := document.get (isSome_of_revision (newer_positive hregressed hequal))
    (.ok (), { self with
      state := { self.state with projection := project accepted.composition, document } })

def PackSelectionAuthority.close (self : PackSelectionAuthority) : PackSelectionAuthority :=
  { self with state := { self.state with closed := true, liveStamps := ∅ } }

/-! ## Clients -/

structure PackSelectionClient where
  family : PluginFamily
  cache : Option ConfiguredPackSelection

def PackSelectionClient.stamp (self : PackSelectionClient) : Option String :=
  self.cache.map ConfiguredPackSelection.stamp

def PackSelectionClient.issue (self : PackSelectionClient) (authority : PackSelectionAuthority)
    (draws : Draws) :
    Except PackSelectionIssueError ConfiguredPackSelection × PackSelectionAuthority ×
      PackSelectionClient :=
  if authority.poisoned || authority.state.closed then (.error .Unavailable, authority, self)
  else
    let revision := authority.state.revision
    let packIds := authority.state.projection self.family
    match self.cache.filter fun cached => cached.revision = revision ∧ cached.packIds = packIds with
    | some cached => (.ok cached, authority, self)
    | none =>
        match mintStamp authority.state.liveStamps draws with
        | none => (.error .Unavailable, authority, self)
        | some stamp =>
            let selection := ⟨stamp, revision, packIds⟩
            let liveStamps := insert stamp authority.state.liveStamps \ self.stamp.toFinset
            (.ok selection,
              { authority with state := { authority.state with liveStamps } },
              { self with cache := some selection })

/-- `release`, for a client that is dropped. -/
def PackSelectionClient.release (self : PackSelectionClient)
    (authority : PackSelectionAuthority) : PackSelectionAuthority :=
  { authority with state := { authority.state with
      liveStamps := authority.state.liveStamps \ self.stamp.toFinset } }

structure PackActivationTarget where
  selection : ConfiguredPackSelection
  deriving DecidableEq

def PackSelectionClient.activationIsCurrent (self : PackSelectionClient) (state : AuthorityState)
    (target : ConfiguredPackSelection) : Bool :=
  self.cache = some target && target.revision = state.revision
    && target.packIds = state.projection self.family

def PackSelectionClient.beginActivation (self : PackSelectionClient)
    (authority : PackSelectionAuthority) (selectionStamp : String) :
    Except SelectionActivationError PackActivationTarget :=
  if authority.poisoned || authority.state.closed then .error .Unavailable
  else
    match self.cache.filter fun selection => selection.stamp = selectionStamp with
    | none => .error .InvalidSelection
    | some target =>
        if self.activationIsCurrent authority.state target then .ok ⟨target⟩
        else .error .InvalidSelection

/-- `lock_current_activation`: whether the guard is given. -/
def PackSelectionClient.lockCurrentActivation (self : PackSelectionClient)
    (authority : PackSelectionAuthority) (target : ConfiguredPackSelection) :
    Except SelectionActivationError Unit :=
  if authority.poisoned || authority.state.closed then .error .Unavailable
  else if self.activationIsCurrent authority.state target then .ok ()
  else .error .InvalidSelection

end MCode.Packs
