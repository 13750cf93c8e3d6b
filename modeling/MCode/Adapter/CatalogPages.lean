import MCode.Lib.Machine
import MCode.Adapter.CatalogPreimage

/-!
# The pages of a catalog

`catalog.rs`: what a pack's answer to a request for a page of its catalog has
to be.  A page is checked against its own request only; that the pages of a
catalog make up the catalog follows for the chain of requests in which each
offset is the `next_offset` of the page before.
-/

namespace MCode.Adapter.Catalog

open MCode.Adapter
open MCode.Lib MCode.Lib.Machine
open MCode.Lib.Results (bind_ok bind_unit_ok)
open MCode.Validation (ValidationResult label)

def MAX_CATALOG_PAGE_ENTRIES : Nat := 256

structure CatalogRevision where
  lastModified : Nat
  canonicalContentDigest : String
  deriving DecidableEq

structure CatalogMetadataEntry where
  selection : ModelSelection
  displayName : Option String
  inputModalities : List InputModality
  toolCapability : ToolCapability
  reasoningCapability : ReasoningCapability
  contextTokens : Option Nat
  maxOutputTokens : Option Nat
  deriving DecidableEq

structure CatalogMetadataView where
  revision : CatalogRevision
  entries : List CatalogMetadataEntry
  deriving DecidableEq

inductive CatalogSourceView where
  | Embedded
  | Verified (view : CatalogMetadataView)
  deriving DecidableEq

structure DescriptorRequest where
  providerId : String
  routeId : String
  catalogSource : CatalogSourceView
  deriving DecidableEq

structure ProviderDescriptor where
  providerId : String
  routeId : String
  sourceRevision : Option CatalogRevision
  catalogDigest : String
  modelCount : Nat
  deriving DecidableEq

structure CatalogRequest where
  providerId : String
  routeId : String
  catalogSource : CatalogSourceView
  catalogDigest : String
  offset : Nat
  limit : Nat
  deriving DecidableEq

structure CatalogPage where
  providerId : String
  routeId : String
  sourceRevision : Option CatalogRevision
  catalogDigest : String
  declaredCount : Nat
  offset : Nat
  entries : List CatalogEntry
  nextOffset : Option Nat
  deriving DecidableEq

/-! ## Sources -/

/-- `validate_revision`; the time is to fit into an `i64`. -/
def validateRevision (revision : CatalogRevision) : ValidationResult Unit :=
  if revision.lastModified == 0 || revision.lastModified > 2 ^ 63 - 1 then
    .error .InvalidArgument
  else digest revision.canonicalContentDigest

/-- The loop of `validate_metadata_entries`. -/
def validateMetadataEntries : List CatalogMetadataEntry → Option (Nat × String) →
    List String → ValidationResult Unit
  | [], _, _ => .ok ()
  | entry :: entries, previous, payloads => do
      validateSelection entry.selection
      validateDisplayName entry.displayName
      validateModalities entry.inputModalities
      validatePositive entry.contextTokens
      validatePositive entry.maxOutputTokens
      let key := selectionKey entry.selection
      if previous.any (keyNotBelow · key) || payloads.contains key.2 then
        .error .InvalidArgument
      else validateMetadataEntries entries (some key) (key.2 :: payloads)

def validateCatalogSource : CatalogSourceView → ValidationResult Unit
  | .Embedded => .ok ()
  | .Verified view => do
      validateRevision view.revision
      if view.entries.length > MAX_CATALOG_ENTRIES then .error .Limit
      else validateMetadataEntries view.entries none []

def sameRevision (left right : CatalogRevision) : Bool :=
  left.lastModified == right.lastModified
    && left.canonicalContentDigest == right.canonicalContentDigest

def sameToolCapability (left right : ToolCapability) : Bool :=
  capabilityOrdinal left.tools == capabilityOrdinal right.tools
    && capabilityOrdinal left.autoChoice == capabilityOrdinal right.autoChoice
    && capabilityOrdinal left.noneChoice == capabilityOrdinal right.noneChoice
    && capabilityOrdinal left.specificChoice == capabilityOrdinal right.specificChoice

def sameReasoningCapability (left right : ReasoningCapability) : Bool :=
  capabilityOrdinal left.reasoning == capabilityOrdinal right.reasoning
    && capabilityOrdinal left.effort == capabilityOrdinal right.effort
    && capabilityOrdinal left.budget == capabilityOrdinal right.budget
    && capabilityOrdinal left.proof == capabilityOrdinal right.proof

def sameModalities (left right : List InputModality) : Bool :=
  left.length == right.length
    && (left.zip right).all fun pair => modalityOrdinal pair.1 == modalityOrdinal pair.2

def sameMetadataEntry (left right : CatalogMetadataEntry) : Bool :=
  sameSelection left.selection right.selection
    && left.displayName == right.displayName
    && sameModalities left.inputModalities right.inputModalities
    && sameToolCapability left.toolCapability right.toolCapability
    && sameReasoningCapability left.reasoningCapability right.reasoningCapability
    && left.contextTokens == right.contextTokens
    && left.maxOutputTokens == right.maxOutputTokens

def sameMetadataEntries (left right : List CatalogMetadataEntry) : Bool :=
  left.length == right.length
    && (left.zip right).all fun pair => sameMetadataEntry pair.1 pair.2

def sameSource : CatalogSourceView → CatalogSourceView → Bool
  | .Embedded, .Embedded => true
  | .Verified left, .Verified right =>
      sameRevision left.revision right.revision && sameMetadataEntries left.entries right.entries
  | _, _ => false

def validateSourceRevision : CatalogSourceView → Option CatalogRevision → ValidationResult Unit
  | .Embedded, none => .ok ()
  | .Verified view, some actual => do
      validateRevision actual
      if sameRevision view.revision actual then .ok () else .error .InvalidArgument
  | _, _ => .error .InvalidArgument

/-! ## Descriptors, requests and pages -/

def validateDescriptor (request : DescriptorRequest) (descriptor : ProviderDescriptor) :
    ValidationResult Unit := do
  providerId request.providerId
  routeId request.routeId
  validateCatalogSource request.catalogSource
  providerId descriptor.providerId
  routeId descriptor.routeId
  digest descriptor.catalogDigest
  if descriptor.modelCount > MAX_CATALOG_ENTRIES then .error .Limit
  else if request.providerId != descriptor.providerId || request.routeId != descriptor.routeId then
    .error .InvalidArgument
  else validateSourceRevision request.catalogSource descriptor.sourceRevision

def validateCatalogRequest (descriptorRequest : DescriptorRequest)
    (descriptor : ProviderDescriptor) (request : CatalogRequest) : ValidationResult Unit := do
  validateDescriptor descriptorRequest descriptor
  providerId request.providerId
  routeId request.routeId
  digest request.catalogDigest
  validateCatalogSource request.catalogSource
  if request.limit == 0 || request.limit > MAX_CATALOG_PAGE_ENTRIES then .error .Limit
  else if request.providerId != descriptor.providerId
      || request.routeId != descriptor.routeId
      || request.catalogDigest != descriptor.catalogDigest
      || request.offset > descriptor.modelCount
      || !sameSource descriptorRequest.catalogSource request.catalogSource then
    .error .InvalidArgument
  else .ok ()

/-- `validate_catalog_page` up to its arithmetic: the page against its request. -/
def validatePageBinding (descriptorRequest : DescriptorRequest)
    (descriptor : ProviderDescriptor) (request : CatalogRequest) (page : CatalogPage) :
    ValidationResult Unit := do
  validateCatalogRequest descriptorRequest descriptor request
  providerId page.providerId
  routeId page.routeId
  digest page.catalogDigest
  validateSourceRevision request.catalogSource page.sourceRevision
  if page.providerId != request.providerId
      || page.routeId != request.routeId
      || page.catalogDigest != request.catalogDigest
      || page.declaredCount != descriptor.modelCount
      || page.offset != request.offset then .error .InvalidArgument
  else if page.entries.length > request.limit then .error .Limit
  else validateCatalogEntries page.entries

/-- `u32::checked_add`, with its error. -/
def checkedU32Add (left right : Nat) : ValidationResult Nat :=
  if left + right ≤ 2 ^ 32 - 1 then .ok (left + right) else .error .Limit

/-- The rest of `validate_catalog_page`: where the page ends in the catalog. -/
def validatePageProgress (page : CatalogPage) : ValidationResult Unit := do
  let entryCount ← checkedU32Len page.entries.length
  let computed ← checkedU32Add page.offset entryCount
  if computed > page.declaredCount then .error .InvalidArgument
  else
    let expectedNext := if computed < page.declaredCount then some computed else none
    if expectedNext.isSome && page.entries.isEmpty then .error .InvalidArgument
    else if page.nextOffset != expectedNext then .error .InvalidArgument
    else .ok ()

def validateCatalogPage (descriptorRequest : DescriptorRequest)
    (descriptor : ProviderDescriptor) (request : CatalogRequest) (page : CatalogPage) :
    ValidationResult Unit := do
  validatePageBinding descriptorRequest descriptor request page
  validatePageProgress page

/-! ## One page -/

variable {descriptorRequest : DescriptorRequest} {descriptor : ProviderDescriptor}
  {request : CatalogRequest} {page : CatalogPage}

/-- What the arithmetic of a page relies on. -/
structure Bound (descriptor : ProviderDescriptor) (request : CatalogRequest)
    (page : CatalogPage) : Prop where
  count : descriptor.modelCount ≤ MAX_CATALOG_ENTRIES
  declared : page.declaredCount = descriptor.modelCount
  offset : page.offset = request.offset
  within : page.offset ≤ descriptor.modelCount
  entries : page.entries.length ≤ MAX_CATALOG_PAGE_ENTRIES

theorem validateDescriptor_count (h : validateDescriptor descriptorRequest descriptor = .ok ()) :
    descriptor.modelCount ≤ MAX_CATALOG_ENTRIES := by
  simp only [validateDescriptor, bind_unit_ok] at h
  obtain ⟨-, -, -, -, -, -, h⟩ := h
  split at h
  · cases h
  · omega

theorem validateCatalogRequest_bounds
    (h : validateCatalogRequest descriptorRequest descriptor request = .ok ()) :
    descriptor.modelCount ≤ MAX_CATALOG_ENTRIES ∧ request.limit ≤ MAX_CATALOG_PAGE_ENTRIES ∧
      request.offset ≤ descriptor.modelCount := by
  simp only [validateCatalogRequest, bind_unit_ok] at h
  obtain ⟨hdescriptor, -, -, -, -, h⟩ := h
  split at h
  next => cases h
  next hlimit =>
    split at h
    next => cases h
    next hsame =>
      simp only [Bool.or_eq_true, decide_eq_true_eq, not_or] at hlimit hsame
      exact ⟨validateDescriptor_count hdescriptor, by omega, by omega⟩

theorem validatePageBinding_bound
    (h : validatePageBinding descriptorRequest descriptor request page = .ok ()) :
    Bound descriptor request page := by
  simp only [validatePageBinding, bind_unit_ok] at h
  obtain ⟨hrequest, -, -, -, -, h⟩ := h
  obtain ⟨hcount, hlimit, hoffset⟩ := validateCatalogRequest_bounds hrequest
  split at h
  next => cases h
  next hsame =>
    split at h
    next => cases h
    next hentries =>
      simp only [Bool.or_eq_true, bne_iff_ne, ne_eq, not_or, not_not] at hsame
      obtain ⟨⟨-, hdeclared⟩, hstart⟩ := hsame
      exact ⟨hcount, hdeclared, hstart, by omega, by omega⟩

/-- The sum of a page never overflows. -/
theorem Bound.fits (h : Bound descriptor request page) :
    checkedU32Len page.entries.length = .ok page.entries.length ∧
      checkedU32Add page.offset page.entries.length =
        .ok (page.offset + page.entries.length) := by
  have hcount := h.count
  have hentries := h.entries
  have hwithin := h.within
  unfold MAX_CATALOG_ENTRIES at hcount
  unfold MAX_CATALOG_PAGE_ENTRIES at hentries
  constructor
  · rw [checkedU32Len, if_pos (by omega)]
  · rw [checkedU32Add, if_pos (by omega)]

/-- Where an accepted page ends, and what it names as the next offset. -/
theorem validateCatalogPage_ok
    (h : validateCatalogPage descriptorRequest descriptor request page = .ok ()) :
    Bound descriptor request page ∧
      page.offset + page.entries.length ≤ descriptor.modelCount ∧
      (page.nextOffset = none ∧
          page.offset + page.entries.length = descriptor.modelCount ∨
        page.nextOffset = some (page.offset + page.entries.length) ∧
          page.offset + page.entries.length < descriptor.modelCount ∧ page.entries ≠ []) := by
  rw [validateCatalogPage, bind_unit_ok] at h
  obtain ⟨hbinding, h⟩ := h
  have hbound := validatePageBinding_bound hbinding
  obtain ⟨hlength, hsum⟩ := hbound.fits
  have hrest : (if page.offset + page.entries.length > page.declaredCount then
        Except.error MCode.Validation.ValidationError.InvalidArgument
      else
        let expectedNext := if page.offset + page.entries.length < page.declaredCount then
          some (page.offset + page.entries.length) else none
        if expectedNext.isSome && page.entries.isEmpty then .error .InvalidArgument
        else if page.nextOffset != expectedNext then .error .InvalidArgument
        else .ok ()) = .ok () := by
    rw [validatePageProgress, hlength] at h
    have h' : checkedU32Add page.offset page.entries.length >>= _ = _ := h
    rw [hsum] at h'
    exact h'
  rw [hbound.declared] at hrest
  refine ⟨hbound, ?_⟩
  split at hrest
  next => cases hrest
  next hend =>
    refine ⟨by omega, ?_⟩
    by_cases hmore : page.offset + page.entries.length < descriptor.modelCount
    · rw [if_pos hmore] at hrest
      dsimp only at hrest
      split at hrest
      next => cases hrest
      next hentries =>
        split at hrest
        next => cases hrest
        next hsame =>
          refine .inr ⟨by simpa using hsame, hmore, ?_⟩
          intro hempty
          exact hentries (by simp [hempty])
    · rw [if_neg hmore] at hrest
      dsimp only at hrest
      rw [Option.isSome_none, Bool.false_and, if_neg Bool.false_ne_true] at hrest
      split at hrest
      next => cases hrest
      next hsame => exact .inl ⟨by simpa using hsame, by omega⟩

/-! ## Chains of pages -/

/-- The pages that were accepted so far, and the offset of the next request. -/
structure Chain where
  pages : List CatalogPage
  next : Option Nat
  deriving DecidableEq

def Chain.start : Chain := ⟨[], some 0⟩

/-- A request at the next offset, and an accepted answer to it. -/
def step (descriptorRequest : DescriptorRequest) (descriptor : ProviderDescriptor)
    (chain : Chain) (exchange : CatalogRequest × CatalogPage) : Option Chain :=
  if chain.next = some exchange.1.offset then
    match validateCatalogPage descriptorRequest descriptor exchange.1 exchange.2 with
    | .ok () => some ⟨chain.pages ++ [exchange.2], exchange.2.nextOffset⟩
    | .error _ => none
  else none

/-- The entries seen so far. -/
def Chain.seen (chain : Chain) : Nat := (chain.pages.map (·.entries.length)).sum

/-- The positions in the catalog that a page fills. -/
def CatalogPage.positions (page : CatalogPage) : List Nat :=
  List.range' page.offset page.entries.length

/-- What holds of a chain of accepted pages. -/
structure Covers (descriptor : ProviderDescriptor) (chain : Chain) : Prop where
  declared : ∀ page ∈ chain.pages, page.declaredCount = descriptor.modelCount
  ascending : (chain.pages.map (·.offset)).Pairwise (· < ·)
  positions : chain.pages.flatMap CatalogPage.positions = List.range chain.seen
  seen : chain.seen ≤ descriptor.modelCount
  next : ∀ offset ∈ chain.next, offset = chain.seen ∧
    ∀ page ∈ chain.pages, page.offset < offset
  ended : chain.pages ≠ [] → (chain.next = none ↔ chain.seen = descriptor.modelCount)

theorem Covers.start : Covers descriptor Chain.start where
  declared := nofun
  ascending := List.Pairwise.nil
  positions := rfl
  seen := Nat.zero_le _
  next := by
    rintro offset ⟨⟩
    exact ⟨rfl, nofun⟩
  ended := by
    intro h
    exact absurd rfl h

theorem step_some {chain after : Chain} {exchange : CatalogRequest × CatalogPage}
    (h : step descriptorRequest descriptor chain exchange = some after) :
    chain.next = some exchange.1.offset ∧
      validateCatalogPage descriptorRequest descriptor exchange.1 exchange.2 = .ok () ∧
      after = ⟨chain.pages ++ [exchange.2], exchange.2.nextOffset⟩ := by
  unfold step at h
  split at h
  next hnext =>
    split at h
    next hvalid => exact ⟨hnext, hvalid, (Option.some.inj h).symm⟩
    next => cases h
  next => cases h

/-- One more page continues where the pages before it end. -/
theorem Covers.step {chain after : Chain} {exchange : CatalogRequest × CatalogPage}
    (h : Covers descriptor chain)
    (hstep : step descriptorRequest descriptor chain exchange = some after) :
    Covers descriptor after := by
  obtain ⟨request, page⟩ := exchange
  obtain ⟨hnext, hvalid, rfl⟩ := step_some hstep
  dsimp only at hnext hvalid ⊢
  obtain ⟨hbound, hend, hprogress⟩ := validateCatalogPage_ok hvalid
  obtain ⟨hoffset, hbefore⟩ := h.next request.offset hnext
  have hstart : page.offset = chain.seen := hbound.offset.trans hoffset
  have hseen : Chain.seen ⟨chain.pages ++ [page], page.nextOffset⟩ =
      page.offset + page.entries.length := by
    rw [Chain.seen, List.map_append, List.sum_append, hstart]
    rfl
  refine ⟨?_, ?_, ?_, ?_, ?_, ?_⟩
  · intro other hother
    rcases List.mem_append.1 hother with hold | hnew
    · exact h.declared other hold
    · rw [List.mem_singleton.1 hnew]
      exact hbound.declared
  · show ((chain.pages ++ [page]).map (·.offset)).Pairwise (· < ·)
    rw [List.map_append, List.pairwise_append]
    refine ⟨h.ascending, List.pairwise_singleton _ _, ?_⟩
    intro old hold new hnew
    obtain ⟨other, hother, rfl⟩ := List.mem_map.1 hold
    rw [List.mem_singleton.1 hnew]
    show other.offset < page.offset
    rw [hbound.offset]
    exact hbefore other hother
  · show (chain.pages ++ [page]).flatMap CatalogPage.positions = _
    rw [List.flatMap_append, h.positions, hseen, List.flatMap_singleton,
      CatalogPage.positions, hstart, List.range_eq_range', List.range_eq_range']
    have hjoin := @List.range'_append_1 0 chain.seen page.entries.length
    rwa [Nat.zero_add] at hjoin
  · rw [hseen]
    exact hend
  · intro offset hmem
    rw [hseen]
    rcases hprogress with ⟨hnone, -⟩ | ⟨hsome, -, hentries⟩
    · rw [show Chain.next ⟨chain.pages ++ [page], page.nextOffset⟩ = none from hnone] at hmem
      cases hmem
    · rw [show Chain.next ⟨chain.pages ++ [page], page.nextOffset⟩ = _ from hsome] at hmem
      cases hmem
      have hpos := List.length_pos_iff.2 hentries
      refine ⟨rfl, ?_⟩
      intro other hother
      rcases List.mem_append.1 hother with hold | hnew
      · have hlt := hbefore other hold
        have hsame := hbound.offset
        omega
      · rw [List.mem_singleton.1 hnew]
        omega
  · intro _
    rw [hseen]
    show page.nextOffset = none ↔ _
    rcases hprogress with ⟨hnone, hlast⟩ | ⟨hsome, hmore, -⟩
    · exact ⟨fun _ => hlast, fun _ => hnone⟩
    · rw [hsome]
      constructor
      · intro hnone
        cases hnone
      · intro hall
        omega

/-- **Chains of catalog pages.**  The arithmetic of a page never overflows, whatever the
page has in it.  Along a chain of accepted pages the offsets increase, the pages fill the
positions of the catalog one after the other, each of them once, and there is no next
offset exactly when all the declared entries were seen; then they are all positions. -/
theorem catalog_pages_partition (descriptorRequest : DescriptorRequest)
    (descriptor : ProviderDescriptor) :
    (∀ request page,
      validatePageBinding descriptorRequest descriptor request page = .ok () →
        checkedU32Len page.entries.length = .ok page.entries.length ∧
          checkedU32Add page.offset page.entries.length =
            .ok (page.offset + page.entries.length)) ∧
    ∀ chain, Reaches (step descriptorRequest descriptor) Chain.start chain →
      Covers descriptor chain ∧
        (chain.pages ≠ [] → chain.next = none →
          chain.pages.flatMap CatalogPage.positions = List.range descriptor.modelCount) := by
  constructor
  · intro request page h
    exact (validatePageBinding_bound h).fits
  · intro chain h
    have hcovers : Covers descriptor chain :=
      h.preserves (fun _ _ _ hbefore hstep => hbefore.step hstep) Covers.start
    refine ⟨hcovers, ?_⟩
    intro hpages hnext
    rw [hcovers.positions, (hcovers.ended hpages).1 hnext]

/-! ## Two pages -/

def sampleDigest : String :=
  "sha256:0000000000000000000000000000000000000000000000000000000000000000"

def sampleSource : DescriptorRequest := ⟨"provider", "route", .Embedded⟩

def sampleDescriptor : ProviderDescriptor := ⟨"provider", "route", none, sampleDigest, 2⟩

def sampleEntry (model : String) : CatalogEntry :=
  ⟨.Exact model, model, none, [.Text], ⟨.Unknown, .Unknown, .Unknown, .Unknown⟩,
    ⟨.Unknown, .Unknown, .Unknown, .Unknown⟩, none, none, "complete"⟩

def sampleExchange (offset : Nat) (model : String) (next : Option Nat) :
    CatalogRequest × CatalogPage :=
  (⟨"provider", "route", .Embedded, sampleDigest, offset, 1⟩,
    ⟨"provider", "route", none, sampleDigest, 2, offset, [sampleEntry model], next⟩)

theorem catalog_pages_partition_two :
    Covers sampleDescriptor ⟨[(sampleExchange 0 "a" (some 1)).2,
      (sampleExchange 1 "b" none).2], none⟩ :=
  ((catalog_pages_partition sampleSource sampleDescriptor).2 _
    ⟨[sampleExchange 0 "a" (some 1), sampleExchange 1 "b" none], by decide +kernel⟩).1

end MCode.Adapter.Catalog
