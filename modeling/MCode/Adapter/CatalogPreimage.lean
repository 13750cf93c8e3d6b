import MCode.Adapter.Preimage

/-!
# What the digest of a catalog is made of

`catalog.rs`: the bytes that `catalog_digest` feeds to the hasher for the
entries of a route.
-/

namespace MCode.Adapter.Catalog

open MCode.Adapter
open MCode.Lib.Feeds
open MCode.Lib.Results (bind_ok bind_unit_ok)
open MCode.Validation (ValidationError)

abbrev CatalogFeed := Feed ValidationError UInt8

/-- `b"mcode-provider-catalog-v1\0"`. -/
def CATALOG_DOMAIN : List UInt8 := textBytes "mcode-provider-catalog-v1\x00"

/-- `checked_u32_len(length)?.to_be_bytes()`. -/
def hashLength (length : Nat) : CatalogFeed := ⟨(checkedU32Len length).map (toBeBytes 4)⟩

/-- `hash_string`, and `hash_bytes` of the bytes of a string. -/
def hashString (value : String) : CatalogFeed :=
  hashLength value.utf8ByteSize ++ .of (textBytes value)

def hashOptionString : Option String → CatalogFeed
  | none => .of [0]
  | some value => .of [1] ++ hashString value

def hashOptionU64 : Option Nat → CatalogFeed
  | none => .of [0]
  | some value => .of [1] ++ .of (toBeBytes 8 value)

def capabilityOrdinal : CapabilitySupport → Nat
  | .Unknown => 0
  | .Unsupported => 1
  | .Supported => 2

def capabilityByte (value : CapabilitySupport) : UInt8 := UInt8.ofNat (capabilityOrdinal value)

def hashToolCapability (value : ToolCapability) : CatalogFeed :=
  .of [capabilityByte value.tools, capabilityByte value.autoChoice,
    capabilityByte value.noneChoice, capabilityByte value.specificChoice]

def hashReasoningCapability (value : ReasoningCapability) : CatalogFeed :=
  .of [capabilityByte value.reasoning, capabilityByte value.effort,
    capabilityByte value.budget, capabilityByte value.proof]

def hashModality (modality : InputModality) : CatalogFeed :=
  .of [UInt8.ofNat (modalityOrdinal modality)]

def hashCatalogEntry (entry : CatalogEntry) : CatalogFeed :=
  let (tag, payload) := selectionKey entry.selection
  .of [UInt8.ofNat tag] ++ hashString payload ++ hashString entry.currentModel
    ++ hashOptionString entry.displayName ++ hashLength entry.inputModalities.length
    ++ .all (entry.inputModalities.map hashModality)
    ++ hashToolCapability entry.toolCapability
    ++ hashReasoningCapability entry.reasoningCapability
    ++ hashOptionU64 entry.contextTokens ++ hashOptionU64 entry.maxOutputTokens
    ++ hashString entry.completionOperation

/-- What is fed to the hasher once everything is checked. -/
def catalogFeed (provider route : String) (entries : List CatalogEntry) : CatalogFeed :=
  .of CATALOG_DOMAIN ++ Catalog.hashString provider ++ Catalog.hashString route
    ++ hashLength entries.length ++ .all (entries.map hashCatalogEntry)

/-- The preimage of `catalog_digest`. -/
def catalogPreimage (provider route : String) (entries : List CatalogEntry) :
    Except ValidationError (List UInt8) := do
  providerId provider
  routeId route
  validateCatalogEntries entries
  let _ ← checkedU32Len entries.length
  (catalogFeed provider route entries).result

/-! ## Parts -/

theorem counts_hashLength : Counts hashLength := by
  refine ⟨4, fun length text h => ?_⟩
  unfold hashLength Feed.Writes checkedU32Len at h
  by_cases hlength : length < 2 ^ 32
  · rw [if_pos hlength] at h
    exact ⟨hlength, (Except.ok.inj h).symm⟩
  · rw [if_neg hlength] at h
    cases h

theorem splits_hashLength (a b : Nat) : Splits (hashLength a) (hashLength b) (a = b) :=
  splits_count counts_hashLength a b

theorem splits_hashString (a b : String) :
    Splits (Catalog.hashString a) (Catalog.hashString b) (a = b) :=
  splits_text counts_hashLength a b

/-- An option with a tag in front. -/
theorem splits_option {α : Type} {write : α → CatalogFeed} {a b : Option α}
    (h : ∀ x ∈ a, ∀ y ∈ b, Splits (write x) (write y) (x = y)) {first second : CatalogFeed}
    (hfirst : first = match a with | none => .of [0] | some x => .of [1] ++ write x)
    (hsecond : second = match b with | none => .of [0] | some y => .of [1] ++ write y) :
    Splits first second (a = b) := by
  subst hfirst
  subst hsecond
  cases a with
  | none =>
      cases b with
      | none => exact (splits_same _).imp fun _ => rfl
      | some y => exact splits_of_starts (starts_of _ _) ((starts_of _ _).append _) (by decide)
  | some x =>
      cases b with
      | none => exact splits_of_starts ((starts_of _ _).append _) (starts_of _ _) (by decide)
      | some y =>
          exact ((splits_same _).append fun _ => h x rfl y rfl).imp fun h => congrArg some h.2

theorem splits_hashOptionString (a b : Option String) :
    Splits (hashOptionString a) (hashOptionString b) (a = b) := by
  refine splits_option (fun x _ y _ => splits_hashString x y) ?_ ?_
  · cases a <;> rfl
  · cases b <;> rfl

theorem splits_hashOptionU64 {a b : Option Nat} (ha : ∀ x ∈ a, x < 256 ^ 8)
    (hb : ∀ y ∈ b, y < 256 ^ 8) : Splits (hashOptionU64 a) (hashOptionU64 b) (a = b) := by
  refine @splits_option _ (fun value => .of (toBeBytes 8 value)) a b
    (fun x hx y hy => splits_number (ha x hx) (hb y hy)) _ _ ?_ ?_
  · cases a <;> rfl
  · cases b <;> rfl

theorem capabilityByte_inj {a b : CapabilitySupport} (h : capabilityByte a = capabilityByte b) :
    a = b := by
  cases a <;> cases b <;> first | rfl | exact absurd h (by decide)

theorem splits_hashToolCapability (a b : ToolCapability) :
    Splits (hashToolCapability a) (hashToolCapability b) (a = b) := by
  refine (splits_of rfl : Splits (hashToolCapability a) (hashToolCapability b) _).imp fun h => ?_
  obtain ⟨htools, h⟩ := List.cons.inj h
  obtain ⟨hauto, h⟩ := List.cons.inj h
  obtain ⟨hnone, h⟩ := List.cons.inj h
  have hspecific := (List.cons.inj h).1
  obtain ⟨tools, auto, none, specific⟩ := a
  obtain ⟨tools', auto', none', specific'⟩ := b
  cases capabilityByte_inj htools
  cases capabilityByte_inj hauto
  cases capabilityByte_inj hnone
  cases capabilityByte_inj hspecific
  rfl

theorem splits_hashReasoningCapability (a b : ReasoningCapability) :
    Splits (hashReasoningCapability a) (hashReasoningCapability b) (a = b) := by
  refine (splits_of rfl : Splits (hashReasoningCapability a) (hashReasoningCapability b) _).imp
    fun h => ?_
  obtain ⟨hreasoning, h⟩ := List.cons.inj h
  obtain ⟨heffort, h⟩ := List.cons.inj h
  obtain ⟨hbudget, h⟩ := List.cons.inj h
  have hproof := (List.cons.inj h).1
  obtain ⟨reasoning, effort, budget, proof⟩ := a
  obtain ⟨reasoning', effort', budget', proof'⟩ := b
  cases capabilityByte_inj hreasoning
  cases capabilityByte_inj heffort
  cases capabilityByte_inj hbudget
  cases capabilityByte_inj hproof
  rfl

theorem splits_hashModality (a b : InputModality) :
    Splits (hashModality a) (hashModality b) (a = b) := by
  have hordinal (modality : InputModality) : modalityOrdinal modality < 256 := by
    cases modality <;> decide
  refine (splits_byte (hordinal a) (hordinal b)).imp fun h => ?_
  cases a <;> cases b <;> first | rfl | cases h

theorem selectionKey_inj {a b : ModelSelection} (htag : (selectionKey a).1 = (selectionKey b).1)
    (hpayload : (selectionKey a).2 = (selectionKey b).2) : a = b := by
  cases a with
  | Exact value =>
      cases b with
      | Exact other => exact congrArg ModelSelection.Exact hpayload
      | Alias other => cases htag
  | Alias value =>
      cases b with
      | Exact other => cases htag
      | Alias other => exact congrArg ModelSelection.Alias hpayload

/-! ## Entries -/

/-- The token counts are `u64`. -/
structure EntryFits (entry : CatalogEntry) : Prop where
  contextTokens : ∀ value ∈ entry.contextTokens, value < 2 ^ 64
  maxOutputTokens : ∀ value ∈ entry.maxOutputTokens, value < 2 ^ 64

theorem splits_hashCatalogEntry {a b : CatalogEntry} (ha : EntryFits a) (hb : EntryFits b) :
    Splits (hashCatalogEntry a) (hashCatalogEntry b) (a = b) := by
  have htag (selection : ModelSelection) : (selectionKey selection).1 < 256 := by
    cases selection <;> simp [selectionKey]
  have hmodalities := fun hcount => @splits_all ValidationError _ _ hashModality
    a.inputModalities b.inputModalities (fun x _ y _ => splits_hashModality x y) hcount
  refine (((((((((((splits_byte (htag a.selection) (htag b.selection)).append
    fun _ => splits_hashString _ _).append fun _ => splits_hashString _ _).append
    fun _ => splits_hashOptionString _ _).append
    fun _ => splits_hashLength _ _).append fun h => hmodalities h.2).append
    fun _ => splits_hashToolCapability _ _).append
    fun _ => splits_hashReasoningCapability _ _).append
    fun _ => splits_hashOptionU64 ha.contextTokens hb.contextTokens).append
    fun _ => splits_hashOptionU64 ha.maxOutputTokens hb.maxOutputTokens).append
    fun _ => splits_hashString _ _).imp ?_
  rintro ⟨⟨⟨⟨⟨⟨⟨⟨⟨⟨htags, hpayload⟩, hmodel⟩, hname⟩, -⟩, hsame⟩, htools⟩, hreasoning⟩, hcontext⟩,
    houtput⟩, hoperation⟩
  have hselection := selectionKey_inj htags hpayload
  obtain ⟨selection, model, name, modalities, tools, reasoning, context, output, operation⟩ := a
  obtain ⟨selection', model', name', modalities', tools', reasoning', context', output',
    operation'⟩ := b
  cases hselection
  cases hmodel
  cases hname
  cases hsame
  cases htools
  cases hreasoning
  cases hcontext
  cases houtput
  cases hoperation
  rfl

/-- Catalogs with the same preimage are of the same route and have the same entries. -/
theorem catalog_preimage_injective (provider provider' route route' : String)
    (entries entries' : List CatalogEntry) (hfits : ∀ entry ∈ entries, EntryFits entry)
    (hfits' : ∀ entry ∈ entries', EntryFits entry) (bytes : List UInt8)
    (h : catalogPreimage provider route entries = .ok bytes)
    (h' : catalogPreimage provider' route' entries' = .ok bytes) :
    provider = provider' ∧ route = route' ∧ entries = entries' := by
  have hfeed {provider route : String} {entries : List CatalogEntry}
      (h : catalogPreimage provider route entries = .ok bytes) :
      (catalogFeed provider route entries).Writes bytes := by
    obtain ⟨-, h⟩ := bind_unit_ok.1 h
    obtain ⟨-, h⟩ := bind_unit_ok.1 h
    obtain ⟨-, h⟩ := bind_unit_ok.1 h
    obtain ⟨_, -, h⟩ := bind_ok.1 h
    exact h
  have hentries := fun hcount => @splits_all ValidationError _ _ hashCatalogEntry entries entries'
    (fun x hx y hy => splits_hashCatalogEntry (hfits x hx) (hfits' y hy)) hcount
  have hsplits : Splits (catalogFeed provider route entries) (catalogFeed provider' route' entries')
      (provider = provider' ∧ route = route' ∧ entries = entries') := by
    refine (((((splits_same CATALOG_DOMAIN).append fun _ => splits_hashString _ _).append
      fun _ => splits_hashString _ _).append fun _ => splits_hashLength _ _).append
      fun h => hentries h.2).imp ?_
    rintro ⟨⟨⟨⟨-, hprovider⟩, hroute⟩, -⟩, hsame⟩
    exact ⟨hprovider, hroute, hsame⟩
  exact hsplits.whole (hfeed h) (hfeed h')

def limitedEntry : CatalogEntry where
  selection := .Exact "model"
  currentModel := "model"
  displayName := some "Model"
  inputModalities := [.Text, .Image]
  toolCapability := ⟨.Supported, .Supported, .Unknown, .Unsupported⟩
  reasoningCapability := ⟨.Unsupported, .Unsupported, .Unsupported, .Unsupported⟩
  contextTokens := some 4096
  maxOutputTokens := none
  completionOperation := "complete"

/-- The boundary between the provider and the route is told. -/
theorem catalog_preimage_injective_limited :
    ∃ bytes, catalogPreimage "first" "route" [limitedEntry] = .ok bytes ∧
      catalogPreimage "firstr" "oute" [limitedEntry] ≠ .ok bytes := by
  obtain ⟨bytes, hbytes⟩ := MCode.Lib.Results.isOk_true.1
    (show (catalogPreimage "first" "route" [limitedEntry]).isOk = true by decide +kernel)
  have hfits : ∀ entry ∈ [limitedEntry], EntryFits entry := by
    intro entry hentry
    rw [List.mem_singleton.1 hentry]
    exact ⟨fun value hvalue => by cases hvalue; decide, fun value hvalue => nomatch hvalue⟩
  refine ⟨bytes, hbytes, fun hsame => ?_⟩
  have heq := catalog_preimage_injective "first" "firstr" "route" "oute" [limitedEntry]
    [limitedEntry] hfits hfits bytes hbytes hsame
  exact absurd heq.1 (by decide)

end MCode.Adapter.Catalog
