import MCode.Adapter.Bounded
import MCode.Lib.Feeds

/-!
# What the digest of a contract is made of

`adapter/digest.rs`: the bytes that `contract_digest` feeds to the hasher.  Two
accepted contracts with the same bytes are the same contract.
-/

namespace MCode.Adapter

open MCode.Lib.Feeds
open MCode.Lib.Results (bind_ok bind_unit_ok forM_ok mapError_ok)
open MCode.Validation (ValidationResult)

/-! ## The bytes -/

/-- `b"mcode-provider-adapter-contract-v1\0"`. -/
def CONTRACT_DOMAIN : List UInt8 := textBytes "mcode-provider-adapter-contract-v1\x00"

/-- `checked_u32_len` of `charge.rs`. -/
def checkedU32Len (value : Nat) : ValidationResult Nat :=
  if value < 2 ^ 32 then .ok value else .error .Limit

abbrev ContractFeed := Feed AdapterValidationError UInt8

/-- `hash.update([value])`. -/
def updateByte (value : Nat) : ContractFeed := .of [UInt8.ofNat value]

def hashCount (length : Nat) : ContractFeed :=
  ⟨(mapLimitError (checkedU32Len length)).map (toBeBytes 4)⟩

def hashString (value : String) : ContractFeed :=
  hashCount value.utf8ByteSize ++ .of (textBytes value)

def hashOptionU32 : Option Nat → ContractFeed
  | none => updateByte 0
  | some value => updateByte 1 ++ .of (toBeBytes 4 value)

def hashOptionTag : Option Nat → ContractFeed
  | none => updateByte 0
  | some value => .of [1, UInt8.ofNat value]

def modelSourceOrdinal : AdapterModelSource → Nat
  | .RequestedSelection => 0
  | .CurrentModel => 1

def collectionOrdinal : AdapterCollection → Nat
  | .System => 0
  | .Messages => 1
  | .SystemMessages => 2
  | .Blocks => 3
  | .Tools => 4

def variantSourceOrdinal : AdapterVariantSource → Nat
  | .ModelSelection => 0
  | .SystemMessageEntry => 1
  | .Message => 2
  | .UserBlock => 3
  | .AssistantBlock => 4
  | .ToolResultBlock => 5
  | .ToolResultStatus => 6
  | .ToolChoice => 7
  | .Reasoning => 8
  | .CacheRetention => 9

def scalarSourceOrdinal : AdapterScalarSource → Nat
  | .SelectedModel => 0
  | .SelectionKind => 1
  | .SystemItem => 2
  | .SystemJoined => 3
  | .MessageRole => 4
  | .BlockKind => 5
  | .BlockText => 6
  | .ToolResultCallId => 7
  | .ToolResultIsError => 8
  | .ToolResultStatus => 9
  | .ToolResultName => 10
  | .MistralToolResultContent => 11
  | .ToolCallId => 12
  | .ToolCallName => 13
  | .ToolCallArguments => 14
  | .ToolName => 15
  | .ToolDescription => 16
  | .ToolSchema => 17
  | .ReasoningKind => 18
  | .Proof => 19
  | .ImageBytes => 20
  | .ImageMediaType => 21
  | .ImageWidth => 22
  | .ImageHeight => 23
  | .ImageFrames => 24
  | .ImageDataUri => 25
  | .ToolChoiceKind => 26
  | .ToolChoiceName => 27
  | .ReasoningMode => 28
  | .ReasoningEffort => 29
  | .ReasoningBudget => 30
  | .CacheRetention => 31
  | .MaxOutput => 32

def presenceOrdinal : AdapterPresence → Nat
  | .Required => 0
  | .OmitIfNone => 1
  | .OmitForUnset => 2

def presenceSourceOrdinal : AdapterPresenceSource → Nat
  | .ReasoningProof => 0
  | .ReasoningEffort => 1
  | .ReasoningBudget => 2
  | .MaxOutput => 3
  | .ToolChoice => 4
  | .Reasoning => 5
  | .CacheRetention => 6

def enumSourceOrdinal : AdapterEnumSource → Nat
  | .SelectionKind => 0
  | .MessageKind => 1
  | .UserBlockKind => 2
  | .AssistantBlockKind => 3
  | .ToolResultBlockKind => 4
  | .ToolResultStatus => 5
  | .ReasoningKind => 6
  | .ImageMediaType => 7
  | .ToolChoice => 8
  | .ReasoningMode => 9
  | .ReasoningEffort => 10
  | .CacheRetention => 11

/-- The tag of a transform, and its table. -/
def transformTag : AdapterTransform → Nat × Option Nat
  | .Identity => (0, none)
  | .CheckedU32 => (1, none)
  | .CheckedU64 => (2, none)
  | .JsonSubtree => (3, none)
  | .CanonicalJsonString => (4, none)
  | .MistralToolResultContent => (5, none)
  | .JoinLf => (6, none)
  | .Base64StandardPadded => (7, none)
  | .Base64StandardUnpadded => (8, none)
  | .DataUri => (9, none)
  | .EnumToken index => (10, some index)

def hashTransform (transform : AdapterTransform) : ContractFeed :=
  let (tag, table) := transformTag transform
  updateByte tag ++
    match table with
    | none => .of []
    | some index => .of (toBeBytes 2 index)

def hashConstant : TypedJsonConstant → ContractFeed
  | .Null => updateByte 0
  | .Boolean value => .of [1, if value then 1 else 0]
  | .Number value => updateByte 2 ++ hashString value
  | .String value => updateByte 3 ++ hashString value

def hashCase (case : ContractCase) : ContractFeed :=
  updateByte case.variantOrdinal ++ .of (toBeBytes 4 case.node)

def hashNodeBody : ContractNodeBody → ContractFeed
  | .Object object =>
      updateByte 0 ++ hashCount object.children.length
        ++ .all (object.children.map fun child => .of (toBeBytes 4 child))
  | .Array array =>
      .of [1, UInt8.ofNat (collectionOrdinal array.collection)] ++ .of (toBeBytes 4 array.item)
        ++ .of (toBeBytes 4 array.min) ++ .of (toBeBytes 4 array.max)
  | .Switch value =>
      .of [2, UInt8.ofNat (variantSourceOrdinal value.source)] ++ hashCount value.cases.length
        ++ .all (value.cases.map hashCase)
  | .Value value =>
      .of [3, UInt8.ofNat (scalarSourceOrdinal value.source)] ++ hashTransform value.transform
  | .Constant constant => updateByte 4 ++ hashConstant constant.value

def hashPathSegment : PathSegment → ContractFeed
  | .Key value => updateByte 0 ++ hashString value
  | .ArrayItem => updateByte 1

def hashSegment : Option PathSegment → ContractFeed
  | none => updateByte 0
  | some segment => updateByte 1 ++ hashPathSegment segment

def hashNode (node : ContractNode) : ContractFeed :=
  hashOptionU32 node.parent ++ hashSegment node.segment
    ++ updateByte (presenceOrdinal node.presence)
    ++ hashOptionTag (node.presenceSource.map presenceSourceOrdinal) ++ hashNodeBody node.body

def hashTableEntry (entry : EnumTokenEntry) : ContractFeed :=
  updateByte entry.variantOrdinal ++ hashString entry.token

def hashTable (table : EnumTokenTable) : ContractFeed :=
  updateByte (enumSourceOrdinal table.source) ++ hashCount table.entries.length
    ++ .all (table.entries.map hashTableEntry)

def hashRule : OrdinaryHeaderRule → ContractFeed
  | .Fixed rule => updateByte 0 ++ hashString rule.name ++ hashString rule.value
  | .OneOf rule =>
      updateByte 1 ++ hashString rule.name ++ hashCount rule.values.length
        ++ .all (rule.values.map hashString) ++ updateByte (if rule.required then 1 else 0)

/-- What `contract_digest` feeds to the hasher. -/
def contractPreimage (contract : AdapterContractV1) : ContractFeed :=
  .of CONTRACT_DOMAIN ++ updateByte contract.version ++ updateByte contract.wireId.ordinal
    ++ updateByte (modelSourceOrdinal contract.modelSource)
    ++ .of (toBeBytes 4 contract.tree.root)
    ++ hashCount contract.tree.nodes.length ++ .all (contract.tree.nodes.map hashNode)
    ++ hashCount contract.tree.tables.length ++ .all (contract.tree.tables.map hashTable)
    ++ hashCount contract.ordinaryHeaderRules.length
    ++ .all (contract.ordinaryHeaderRules.map hashRule)
    ++ updateByte contract.decoderKind.ordinal

/-! ## Parts -/

theorem splits_updateByte {a b : Nat} (ha : a < 256) (hb : b < 256) :
    Splits (updateByte a) (updateByte b) (a = b) :=
  splits_byte ha hb

theorem counts_hashCount : Counts hashCount := by
  refine ⟨4, fun length text h => ?_⟩
  unfold hashCount Feed.Writes checkedU32Len at h
  by_cases hlength : length < 2 ^ 32
  · rw [if_pos hlength] at h
    exact ⟨hlength, (Except.ok.inj h).symm⟩
  · rw [if_neg hlength] at h
    cases h

theorem splits_hashCount (a b : Nat) : Splits (hashCount a) (hashCount b) (a = b) :=
  splits_count counts_hashCount a b

theorem splits_hashString (a b : String) : Splits (hashString a) (hashString b) (a = b) :=
  splits_text counts_hashCount a b

theorem splits_u32 {a b : Nat} (ha : a < 256 ^ 4) (hb : b < 256 ^ 4) :
    Splits (.of (toBeBytes 4 a) : ContractFeed) (.of (toBeBytes 4 b)) (a = b) :=
  splits_number ha hb

theorem splits_hashOptionU32 {a b : Option Nat} (ha : ∀ value ∈ a, value < 256 ^ 4)
    (hb : ∀ value ∈ b, value < 256 ^ 4) :
    Splits (hashOptionU32 a) (hashOptionU32 b) (a = b) := by
  cases a with
  | none =>
      cases b with
      | none => exact (splits_same _).imp fun _ => rfl
      | some b => exact splits_of_starts (starts_of _ _) ((starts_of _ _).append _) (by decide)
  | some a =>
      cases b with
      | none => exact splits_of_starts ((starts_of _ _).append _) (starts_of _ _) (by decide)
      | some b =>
          refine ((splits_same _).append fun _ => splits_u32 (ha a rfl) (hb b rfl)).imp ?_
          rintro ⟨-, rfl⟩
          rfl

theorem splits_hashOptionTag {a b : Option Nat} (ha : ∀ value ∈ a, value < 256)
    (hb : ∀ value ∈ b, value < 256) :
    Splits (hashOptionTag a) (hashOptionTag b) (a = b) := by
  cases a with
  | none =>
      cases b with
      | none => exact (splits_same _).imp fun _ => rfl
      | some b => exact splits_of_starts (starts_of _ _) (starts_of _ _) (by decide)
  | some a =>
      cases b with
      | none => exact splits_of_starts (starts_of _ _) (starts_of _ _) (by decide)
      | some b =>
          exact (splits_tagged 1 (ha a rfl) (hb b rfl)).imp (congrArg some)

/-! ## Ordinals -/

section

open Function (Injective LeftInverse)

theorem variantSource_inj : Injective variantSourceOrdinal := by
  refine LeftInverse.injective (g := AdapterVariantSource.ofNat) fun source => ?_
  cases source <;> rfl

theorem scalarSource_inj : Injective scalarSourceOrdinal := by
  refine LeftInverse.injective (g := AdapterScalarSource.ofNat) fun source => ?_
  cases source <;> rfl

theorem collection_inj : Injective collectionOrdinal := by
  refine LeftInverse.injective (g := AdapterCollection.ofNat) fun collection => ?_
  cases collection <;> rfl

theorem presenceSource_inj : Injective presenceSourceOrdinal := by
  refine LeftInverse.injective (g := AdapterPresenceSource.ofNat) fun source => ?_
  cases source <;> rfl

theorem enumSource_inj : Injective enumSourceOrdinal := by
  refine LeftInverse.injective (g := AdapterEnumSource.ofNat) fun source => ?_
  cases source <;> rfl

theorem presence_inj : Injective presenceOrdinal := by
  refine LeftInverse.injective (g := AdapterPresence.ofNat) fun presence => ?_
  cases presence <;> rfl

theorem modelSource_inj : Injective modelSourceOrdinal := by
  refine LeftInverse.injective (g := AdapterModelSource.ofNat) fun source => ?_
  cases source <;> rfl

theorem wire_inj : Injective AdapterWireId.ordinal := by
  refine LeftInverse.injective (g := AdapterWireId.ofNat) fun wire => ?_
  cases wire <;> rfl

theorem decoder_inj : Injective AdapterDecoderKind.ordinal := by
  refine LeftInverse.injective (g := AdapterDecoderKind.ofNat) fun decoder => ?_
  cases decoder <;> rfl

end

/-! ## Nodes -/

/-- A reference in the body of a node is a `u32`, a variant a `u8`, a table a `u16`. -/
def BodyFits : ContractNodeBody → Prop
  | .Object object => ∀ child ∈ object.children, child < 256 ^ 4
  | .Array array => array.item < 256 ^ 4 ∧ array.min < 256 ^ 4 ∧ array.max < 256 ^ 4
  | .Switch switch => ∀ case ∈ switch.cases, case.variantOrdinal < 256 ∧ case.node < 256 ^ 4
  | .Value value => ∀ index, value.transform = .EnumToken index → index < 256 ^ 2
  | .Constant _ => True

structure NodeFits (node : ContractNode) : Prop where
  parent : ∀ parent ∈ node.parent, parent < 256 ^ 4
  body : BodyFits node.body

theorem splits_hashTransform {a b : AdapterTransform}
    (ha : ∀ index, a = .EnumToken index → index < 256 ^ 2)
    (hb : ∀ index, b = .EnumToken index → index < 256 ^ 2) :
    Splits (hashTransform a) (hashTransform b) (a = b) := by
  have htag (transform : AdapterTransform) : (transformTag transform).1 < 256 := by
    cases transform <;> simp [transformTag]
  unfold hashTransform
  suffices h : Splits (hashTransform a) (hashTransform b)
      ((transformTag a).1 = (transformTag b).1 ∧ a = b) from h.imp And.right
  refine (splits_updateByte (htag a) (htag b)).append fun hsame => ?_
  cases a with
  | EnumToken index =>
      cases b with
      | EnumToken other =>
          refine (splits_number (ha index rfl) (hb other rfl)).imp ?_
          rintro rfl
          rfl
      | _ => cases hsame
  | _ =>
      cases b with
      | EnumToken other => cases hsame
      | _ =>
          refine (splits_same _).imp fun _ => ?_
          first | rfl | cases hsame

def constantTag : TypedJsonConstant → UInt8
  | .Null => 0
  | .Boolean _ => 1
  | .Number _ => 2
  | .String _ => 3

theorem hashConstant_starts (constant : TypedJsonConstant) :
    Starts (hashConstant constant) (constantTag constant) := by
  cases constant with
  | Null => exact starts_of _ _
  | Boolean value => exact starts_of _ _
  | Number value => exact (starts_of _ _).append _
  | String value => exact (starts_of _ _).append _

theorem splits_hashConstant (a b : TypedJsonConstant) :
    Splits (hashConstant a) (hashConstant b) (a = b) := by
  by_cases htag : constantTag a = constantTag b
  · cases a with
    | Null =>
        cases b with
        | Null => exact (splits_same _).imp fun _ => rfl
        | _ => simp [constantTag] at htag
    | Boolean value =>
        cases b with
        | Boolean other =>
            refine (@splits_of _ _ [1, if value then 1 else 0] [1, if other then 1 else 0] rfl).imp
              fun h => ?_
            cases value <;> cases other <;> first | rfl | exact absurd h (by decide)
        | _ => simp [constantTag] at htag
    | Number value =>
        cases b with
        | Number other =>
            refine ((splits_same _).append fun _ => splits_hashString value other).imp ?_
            rintro ⟨-, rfl⟩
            rfl
        | _ => simp [constantTag] at htag
    | String value =>
        cases b with
        | String other =>
            refine ((splits_same _).append fun _ => splits_hashString value other).imp ?_
            rintro ⟨-, rfl⟩
            rfl
        | _ => simp [constantTag] at htag
  · exact splits_of_starts (hashConstant_starts a) (hashConstant_starts b) htag

theorem splits_hashCase {a b : ContractCase} (ha : a.variantOrdinal < 256 ∧ a.node < 256 ^ 4)
    (hb : b.variantOrdinal < 256 ∧ b.node < 256 ^ 4) :
    Splits (hashCase a) (hashCase b) (a = b) := by
  refine ((splits_updateByte ha.1 hb.1).append fun _ => splits_u32 ha.2 hb.2).imp ?_
  rintro ⟨hordinal, hnode⟩
  cases a
  cases b
  cases hordinal
  cases hnode
  rfl

def bodyTag : ContractNodeBody → UInt8
  | .Object _ => 0
  | .Array _ => 1
  | .Switch _ => 2
  | .Value _ => 3
  | .Constant _ => 4

theorem hashNodeBody_starts (body : ContractNodeBody) :
    Starts (hashNodeBody body) (bodyTag body) := by
  cases body with
  | Object object => exact ((starts_of _ _).append _).append _
  | Array array => exact (((starts_of _ _).append _).append _).append _
  | Switch switch => exact ((starts_of _ _).append _).append _
  | Value value => exact (starts_of _ _).append _
  | Constant constant => exact (starts_of _ _).append _

theorem splits_hashNodeBody {a b : ContractNodeBody} (ha : BodyFits a) (hb : BodyFits b) :
    Splits (hashNodeBody a) (hashNodeBody b) (a = b) := by
  by_cases htag : bodyTag a = bodyTag b
  · cases a with
    | Object object =>
        cases b with
        | Object other =>
            have hchildren := fun hcount => @splits_all AdapterValidationError _ _
              (fun child => .of (toBeBytes 4 child)) object.children other.children
              (fun child hchild child' hchild' => splits_u32 (ha child hchild) (hb child' hchild'))
              hcount
            refine (((splits_same _).append fun _ => splits_hashCount _ _).append
              fun h => hchildren h.2).imp ?_
            rintro ⟨-, hsame⟩
            cases object
            cases other
            cases hsame
            rfl
        | _ => simp [bodyTag] at htag
    | Array array =>
        cases b with
        | Array other =>
            have hcollection (collection : AdapterCollection) :
                collectionOrdinal collection < 256 := by
              cases collection <;> decide
            refine ((((splits_tagged 1 (hcollection _) (hcollection _)).append
              fun _ => splits_u32 ha.1 hb.1).append fun _ => splits_u32 ha.2.1 hb.2.1).append
              fun _ => splits_u32 ha.2.2 hb.2.2).imp ?_
            rintro ⟨⟨⟨hsource, hitem⟩, hmin⟩, hmax⟩
            have hsource := collection_inj hsource
            cases array
            cases other
            cases hsource
            cases hitem
            cases hmin
            cases hmax
            rfl
        | _ => simp [bodyTag] at htag
    | Switch switch =>
        cases b with
        | Switch other =>
            have hordinal (source : AdapterVariantSource) : variantSourceOrdinal source < 256 := by
              cases source <;> decide
            have hcases := fun hcount => @splits_all AdapterValidationError _ _ hashCase
              switch.cases other.cases
              (fun case hcase case' hcase' => splits_hashCase (ha case hcase) (hb case' hcase'))
              hcount
            refine (((splits_tagged 2 (hordinal _) (hordinal _)).append
              fun _ => splits_hashCount _ _).append fun h => hcases h.2).imp ?_
            rintro ⟨⟨hsource, -⟩, hsame⟩
            have hsource := variantSource_inj hsource
            cases switch
            cases other
            cases hsource
            cases hsame
            rfl
        | _ => simp [bodyTag] at htag
    | Value value =>
        cases b with
        | Value other =>
            have hordinal (source : AdapterScalarSource) : scalarSourceOrdinal source < 256 := by
              cases source <;> decide
            refine ((splits_tagged 3 (hordinal _) (hordinal _)).append
              fun _ => splits_hashTransform ha hb).imp ?_
            rintro ⟨hsource, htransform⟩
            have hsource := scalarSource_inj hsource
            cases value
            cases other
            cases hsource
            cases htransform
            rfl
        | _ => simp [bodyTag] at htag
    | Constant constant =>
        cases b with
        | Constant other =>
            refine ((splits_same _).append
              fun _ => splits_hashConstant constant.value other.value).imp ?_
            rintro ⟨-, hsame⟩
            cases constant
            cases other
            cases hsame
            rfl
        | _ => simp [bodyTag] at htag
  · exact splits_of_starts (hashNodeBody_starts a) (hashNodeBody_starts b) htag

theorem splits_hashPathSegment (a b : PathSegment) :
    Splits (hashPathSegment a) (hashPathSegment b) (a = b) := by
  cases a with
  | Key key =>
      cases b with
      | Key other =>
          exact ((splits_same _).append fun _ => splits_hashString key other).imp
            fun h => congrArg PathSegment.Key h.2
      | ArrayItem => exact splits_of_starts ((starts_of _ _).append _) (starts_of _ _) (by decide)
  | ArrayItem =>
      cases b with
      | Key other => exact splits_of_starts (starts_of _ _) ((starts_of _ _).append _) (by decide)
      | ArrayItem => exact (splits_same _).imp fun _ => rfl

theorem splits_hashSegment (a b : Option PathSegment) :
    Splits (hashSegment a) (hashSegment b) (a = b) := by
  cases a with
  | none =>
      cases b with
      | none => exact (splits_same _).imp fun _ => rfl
      | some b => exact splits_of_starts (starts_of _ _) ((starts_of _ _).append _) (by decide)
  | some a =>
      cases b with
      | none => exact splits_of_starts ((starts_of _ _).append _) (starts_of _ _) (by decide)
      | some b =>
          exact ((splits_same _).append fun _ => splits_hashPathSegment a b).imp
            fun h => congrArg some h.2

theorem splits_hashNode {a b : ContractNode} (ha : NodeFits a) (hb : NodeFits b) :
    Splits (hashNode a) (hashNode b) (a = b) := by
  have hpresence (presence : AdapterPresence) : presenceOrdinal presence < 256 := by
    cases presence <;> decide
  have hsource (source : Option AdapterPresenceSource) :
      ∀ value ∈ source.map presenceSourceOrdinal, value < 256 := by
    intro value hvalue
    obtain ⟨found, -, rfl⟩ := Option.map_eq_some_iff.1 hvalue
    cases found <;> decide
  refine (((((splits_hashOptionU32 ha.parent hb.parent).append
    fun _ => splits_hashSegment _ _).append
    fun _ => splits_updateByte (hpresence _) (hpresence _)).append
    fun _ => splits_hashOptionTag (hsource _) (hsource _)).append
    fun _ => splits_hashNodeBody ha.body hb.body).imp ?_
  rintro ⟨⟨⟨⟨hparent, hsegment⟩, hpresences⟩, hsources⟩, hbody⟩
  have hpresences := presence_inj hpresences
  have hsources := Option.map_injective presenceSource_inj hsources
  cases a
  cases b
  cases hparent
  cases hsegment
  cases hpresences
  cases hsources
  cases hbody
  rfl

/-! ## Tables and rules -/

theorem splits_hashTable {a b : EnumTokenTable} (ha : ∀ entry ∈ a.entries, entry.variantOrdinal < 256)
    (hb : ∀ entry ∈ b.entries, entry.variantOrdinal < 256) :
    Splits (hashTable a) (hashTable b) (a = b) := by
  have hordinal (source : AdapterEnumSource) : enumSourceOrdinal source < 256 := by
    cases source <;> decide
  have hentry {first second : EnumTokenEntry} (hfirst : first.variantOrdinal < 256)
      (hsecond : second.variantOrdinal < 256) :
      Splits (hashTableEntry first) (hashTableEntry second) (first = second) := by
    refine ((splits_updateByte hfirst hsecond).append fun _ => splits_hashString _ _).imp ?_
    rintro ⟨hvariant, htoken⟩
    cases first
    cases second
    cases hvariant
    cases htoken
    rfl
  have hentries := fun hcount => @splits_all AdapterValidationError _ _ hashTableEntry a.entries
    b.entries (fun first hfirst second hsecond => hentry (ha first hfirst) (hb second hsecond)) hcount
  refine (((splits_updateByte (hordinal _) (hordinal _)).append
    fun _ => splits_hashCount _ _).append fun h => hentries h.2).imp ?_
  rintro ⟨⟨hsource, -⟩, hsame⟩
  have hsource := enumSource_inj hsource
  cases a
  cases b
  cases hsource
  cases hsame
  rfl

theorem splits_hashRule (a b : OrdinaryHeaderRule) : Splits (hashRule a) (hashRule b) (a = b) := by
  cases a with
  | Fixed rule =>
      cases b with
      | OneOf other =>
          exact splits_of_starts (((starts_of _ _).append _).append _)
            (((((starts_of _ _).append _).append _).append _).append _) (by decide)
      | Fixed other =>
          refine (((splits_same _).append fun _ => splits_hashString _ _).append
            fun _ => splits_hashString _ _).imp ?_
          rintro ⟨⟨-, hname⟩, hvalue⟩
          cases rule
          cases other
          cases hname
          cases hvalue
          rfl
  | OneOf rule =>
      cases b with
      | Fixed other =>
          exact splits_of_starts (((((starts_of _ _).append _).append _).append _).append _)
            (((starts_of _ _).append _).append _) (by decide)
      | OneOf other =>
          have hvalues := fun hcount => @splits_all AdapterValidationError _ _ hashString
            rule.values other.values (fun a _ b _ => splits_hashString a b) hcount
          have hflag (flag : Bool) : (if flag then 1 else 0) < 256 := by
            cases flag <;> decide
          refine (((((splits_same _).append fun _ => splits_hashString _ _).append
            fun _ => splits_hashCount _ _).append fun h => hvalues h.2).append
            fun _ => splits_updateByte (hflag rule.required) (hflag other.required)).imp ?_
          rintro ⟨⟨⟨⟨-, hname⟩, -⟩, hsame⟩, hrequired⟩
          have hrequired : rule.required = other.required := by
            cases hrule : rule.required <;> cases hother : other.required <;>
              simp [hrule, hother] at hrequired ⊢
          cases rule
          cases other
          cases hname
          cases hsame
          cases hrequired
          rfl

/-! ## Contracts -/

/-- Every number of a contract is one of its type. -/
structure ContractFits (contract : AdapterContractV1) : Prop where
  version : contract.version < 256
  root : contract.tree.root < 256 ^ 4
  nodes : ∀ node ∈ contract.tree.nodes, NodeFits node
  tables : ∀ table ∈ contract.tree.tables, ∀ entry ∈ table.entries, entry.variantOrdinal < 256

theorem splits_contractPreimage {a b : AdapterContractV1} (ha : ContractFits a)
    (hb : ContractFits b) : Splits (contractPreimage a) (contractPreimage b) (a = b) := by
  have hwire (wire : AdapterWireId) : wire.ordinal < 256 := by
    cases wire <;> decide
  have hdecoder (decoder : AdapterDecoderKind) : decoder.ordinal < 256 := by
    cases decoder <;> decide
  have hmodel (source : AdapterModelSource) : modelSourceOrdinal source < 256 := by
    cases source <;> decide
  have hnodes := fun hcount => @splits_all AdapterValidationError _ _ hashNode a.tree.nodes
    b.tree.nodes (fun x hx y hy => splits_hashNode (ha.nodes x hx) (hb.nodes y hy)) hcount
  have htables := fun hcount => @splits_all AdapterValidationError _ _ hashTable a.tree.tables
    b.tree.tables (fun x hx y hy => splits_hashTable (ha.tables x hx) (hb.tables y hy)) hcount
  have hrules := fun hcount => @splits_all AdapterValidationError _ _ hashRule
    a.ordinaryHeaderRules b.ordinaryHeaderRules (fun x _ y _ => splits_hashRule x y) hcount
  refine ((((((((((((splits_same CONTRACT_DOMAIN).append
    fun _ => splits_updateByte ha.version hb.version).append
    fun _ => splits_updateByte (hwire _) (hwire _)).append
    fun _ => splits_updateByte (hmodel _) (hmodel _)).append
    fun _ => splits_u32 ha.root hb.root).append
    fun _ => splits_hashCount _ _).append fun h => hnodes h.2).append
    fun _ => splits_hashCount _ _).append fun h => htables h.2).append
    fun _ => splits_hashCount _ _).append fun h => hrules h.2).append
    fun _ => splits_updateByte (hdecoder _) (hdecoder _)).imp ?_
  rintro ⟨⟨⟨⟨⟨⟨⟨⟨⟨⟨⟨-, hversion⟩, hwires⟩, hmodels⟩, hroot⟩, -⟩, hnodes⟩, -⟩, htables⟩, -⟩, hrules⟩,
    hdecoders⟩
  have hwires := wire_inj hwires
  have hmodels := modelSource_inj hmodels
  have hdecoders := decoder_inj hdecoders
  obtain ⟨version, wire, model, ⟨root, nodes, tables⟩, rules, decoder⟩ := a
  obtain ⟨version', wire', model', ⟨root', nodes', tables'⟩, rules', decoder'⟩ := b
  cases hversion
  cases hwires
  cases hmodels
  cases hroot
  cases hnodes
  cases htables
  cases hrules
  cases hdecoders
  rfl

/-! ## The numbers of an accepted contract -/

/-- Every body was checked. -/
theorem validateNodes_bodies {contract : AdapterContractV1} {nodes : List ContractNode}
    {references after : References} {depths final : List Nat}
    (h : validateNodes contract nodes references depths = .ok (after, final)) :
    ∀ node ∈ nodes, ∃ index before next,
      validateBody contract index node.body before = .ok next := by
  induction nodes generalizing references depths with
  | nil =>
      intro node hnode
      cases hnode
  | cons node nodes ih =>
      rw [validateNodes] at h
      obtain ⟨-, h⟩ := bind_unit_ok.1 h
      obtain ⟨middle, hbody, h⟩ := bind_ok.1 h
      obtain ⟨depth, -, h⟩ := bind_ok.1 h
      exact List.forall_mem_cons.2 ⟨⟨depths.length, references, middle, hbody⟩, ih h⟩

/-- The counts of nodes and tables, and the checks of their loops. -/
theorem validateTreeShape_checks {contract : AdapterContractV1}
    (h : validateTreeShape contract = .ok ()) :
    contract.tree.nodes.length ≤ MAX_CONTRACT_NODES ∧ contract.tree.tables.length ≤ MAX_TABLES ∧
      (∀ table ∈ contract.tree.tables, validateTable table = .ok ()) ∧
      ∀ node ∈ contract.tree.nodes, ∃ index before next,
        validateBody contract index node.body before = .ok next := by
  unfold validateTreeShape at h
  dsimp only at h
  split at h
  · cases h
  · rename_i hcount
    split at h
    · cases h
    · split at h
      · cases h
      · split at h
        · cases h
        · rename_i htotal
          obtain ⟨htables, h⟩ := bind_unit_ok.1 h
          obtain ⟨measures, hmeasures, -⟩ := bind_ok.1 h
          obtain ⟨⟨references, depths⟩, hnodes, -⟩ := bind_ok.1 hmeasures
          obtain ⟨used, -, htables⟩ := bind_ok.1 htables
          split at htables
          · cases htables
          · simp only [Bool.or_eq_true, decide_eq_true_eq, not_or, Nat.not_lt] at hcount
            exact ⟨hcount.2, Nat.not_lt.1 htotal, forM_ok.1 htables, validateNodes_bodies hnodes⟩

theorem validateEntryTokens_ordinals {entries : List EnumTokenEntry} {ordinal : Nat}
    {tokens : List String} (h : validateEntryTokens entries ordinal tokens = .ok ()) :
    ∀ entry ∈ entries, entry.variantOrdinal < ordinal + entries.length := by
  induction entries generalizing ordinal tokens with
  | nil => exact nofun
  | cons entry entries ih =>
      rw [validateEntryTokens] at h
      split at h
      · cases h
      · rename_i hordinal
        obtain ⟨-, h⟩ := bind_unit_ok.1 h
        split at h
        · cases h
        · have hrest := ih h
          have hfirst : entry.variantOrdinal = ordinal := by simpa using hordinal
          rw [List.length_cons]
          refine List.forall_mem_cons.2 ⟨by omega, fun other hother => ?_⟩
          have hlt := hrest other hother
          omega

theorem validateTable_ordinals {table : EnumTokenTable} (h : validateTable table = .ok ()) :
    ∀ entry ∈ table.entries, entry.variantOrdinal < 256 := by
  unfold validateTable at h
  split at h
  · cases h
  · rename_i hcount
    simp only [Bool.or_eq_true, bne_iff_ne, ne_eq, decide_eq_true_eq, not_or, Nat.not_lt] at hcount
    intro entry hentry
    have hlt := validateEntryTokens_ordinals h entry hentry
    omega

theorem validateBody_array {contract : AdapterContractV1} {index : Nat} {array : ContractArray}
    {references after : References}
    (h : validateBody contract index (.Array array) references = .ok after) :
    array.min ≤ array.max ∧ array.max ≤ 262144 := by
  rw [validateBody] at h
  split at h
  · cases h
  · rename_i hbounds
    simp only [Bool.or_eq_true, decide_eq_true_eq, not_or, Nat.not_lt, gt_iff_lt] at hbounds
    exact hbounds.1.1

/-- A legal transform by a table has its table. -/
theorem legalTransform_table {contract : AdapterContractV1} {source : AdapterScalarSource}
    {index : Nat} (h : legalTransform contract source (.EnumToken index) = true) :
    index < contract.tree.tables.length := by
  by_contra hnot
  have hnone := List.getElem?_eq_none (Nat.not_lt.1 hnot)
  cases source <;> simp [legalTransform, enumTransformMatches, hnone] at h

/-- The numbers of an accepted contract are those of their types. -/
theorem accepted_fits {contract : AdapterContractV1} (h : validateContract contract = .ok ()) :
    ContractFits contract := by
  obtain ⟨hstructured, -⟩ := validateContract_ok h
  unfold validateContract at h
  split at h
  · cases h
  · rename_i hversion
    obtain ⟨hshape, -⟩ := bind_unit_ok.1 h
    obtain ⟨hnodes, htables, htable, hbodies⟩ := validateTreeShape_checks (mapError_ok.1 hshape)
    unfold MAX_CONTRACT_NODES at hnodes
    unfold MAX_TABLES at htables
    simp only [Bool.or_eq_true, bne_iff_ne, ne_eq, not_or, not_not] at hversion
    have hroot := hstructured.treed.root
    have hinside {index parent : Nat}
        (hedge : index ∈ (contractArena contract).children parent) :
        index < 256 ^ 4 ∧ parent < 256 ^ 4 := by
      have hlt := hstructured.treed.oneTree.below.children_lt hedge
      have hparent := MCode.Lib.Arena.lt_length_of_children hedge
      rw [contractArena_length] at hparent
      omega
    refine ⟨by omega, by omega, fun node hnode => ⟨?_, ?_⟩, fun table htableMem =>
      validateTable_ordinals (htable table htableMem)⟩
    · intro parent hparent
      obtain ⟨index, hindex⟩ := List.mem_iff_getElem?.1 hnode
      have hrecorded : parentOf contract index = some parent := by
        unfold parentOf
        rw [hindex]
        exact hparent
      exact (hinside ((hstructured.treed.parents index parent).1 hrecorded)).2
    · obtain ⟨index, hindex⟩ := List.mem_iff_getElem?.1 hnode
      have hreference : ∀ child ∈ node.body.references, child < 256 ^ 4 := by
        intro child hchild
        have hedge : child ∈ (contractArena contract).children index := by
          unfold contractArena
          rw [nodesArena_children hindex]
          exact hchild
        exact (hinside hedge).1
      have hbody := hstructured.body node hnode
      obtain ⟨_, _, _, hchecked⟩ := hbodies node hnode
      cases hcase : node.body with
      | Object object =>
          rw [hcase] at hreference
          exact hreference
      | Array array =>
          rw [hcase] at hreference hchecked
          obtain ⟨hmin, hmax⟩ := validateBody_array hchecked
          exact ⟨hreference array.item (List.mem_singleton.2 rfl), by omega, by omega⟩
      | Switch switch =>
          rw [hcase] at hreference hbody
          intro chosen hchosen
          refine ⟨?_, hreference chosen.node (List.mem_map_of_mem hchosen)⟩
          obtain ⟨k, hk⟩ := List.mem_iff_getElem?.1 hchosen
          have hlength := (List.getElem?_eq_some_iff.1 hk).1
          have hordinal := hbody.2 k chosen hk
          have hvariants : switch.source.variantCount ≤ 4 := by
            cases switch.source <;> decide
          have hcount := hbody.1
          omega
      | Value value =>
          rw [hcase] at hbody
          intro index htransform
          have hlegal : legalTransform contract value.source value.transform = true := hbody
          rw [htransform] at hlegal
          have hlt := legalTransform_table hlegal
          omega
      | Constant constant => exact trivial

/-- Accepted contracts with the same preimage are the same. -/
theorem contract_preimage_injective (contract other : AdapterContractV1)
    (h : validateContract contract = .ok ()) (hother : validateContract other = .ok ())
    (bytes : List UInt8) (hbytes : (contractPreimage contract).result = .ok bytes)
    (hsame : (contractPreimage other).result = .ok bytes) : contract = other :=
  (splits_contractPreimage (accepted_fits h) (accepted_fits hother)).whole hbytes hsame

/-- The plain contract, for the current model. -/
def currentContract : AdapterContractV1 := { plainContract with modelSource := .CurrentModel }

/-- Contracts that differ in the source of the model have different preimages. -/
theorem contract_preimage_injective_current :
    ∃ bytes, (contractPreimage plainContract).result = .ok bytes ∧
      (contractPreimage currentContract).result ≠ .ok bytes := by
  obtain ⟨bytes, hbytes⟩ := MCode.Lib.Results.isOk_true.1
    (show (contractPreimage plainContract).result.isOk = true by decide +kernel)
  refine ⟨bytes, hbytes, fun hsame => ?_⟩
  have heq := contract_preimage_injective plainContract currentContract plainContract_accepted
    (by decide +kernel) bytes hbytes hsame
  exact absurd (congrArg AdapterContractV1.modelSource heq) (by decide)

end MCode.Adapter
