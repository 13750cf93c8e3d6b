import MCode.Adapter.Authority
import MCode.Adapter.MistralText

/-!
# The sizes of a tool result

`validate_mistral_aggregate` says how long the body of a tool result will be, and
what it will be charged, before a byte of it is copied: a constant for the array
with its text, a constant for every image, and the lengths of the text and of the
data URIs.  The array is then built and serialized by code that knows nothing of
these constants.

Here the sums are compared with that array: its length as `serialized_length`
measures it, its text as `serialize` writes it, and its charge.
-/

namespace MCode.Adapter

open MCode.Lib
open MCode.Lib.Results
open MCode.Validation (ValidationResult ValidationError Text LogicalCharge Charges stringCharge
  MAX_LOGICAL_CHARGE U64_MAX utf8Len utf8Len_cons utf8Len_append utf8Len_wrapped checkedAdd
  checkedAdd_fits checkedAdd_ok checkedLen escapeChar serializeString)

/-! ## Lengths that fit -/

theorem escapedLength_fits {text : Text} {length : Nat}
    (h : length + utf8Len (text.flatMap escapeChar) ≤ U64_MAX) :
    escapedLength text length = .ok (length + utf8Len (text.flatMap escapeChar)) := by
  induction text generalizing length with
  | nil => rfl
  | cons c text ih =>
      rw [List.flatMap_cons, utf8Len_append] at h ⊢
      unfold escapedLength
      rw [escapedSize_eq, checkedAdd_fits (by omega), ← Nat.add_assoc]
      exact ih (by omega)

theorem utf8Len_string (value : String) :
    utf8Len (serializeString value) = 2 + utf8Len (value.toList.flatMap escapeChar) := by
  unfold serializeString
  rw [utf8Len_wrapped]
  show 1 + _ + 1 = _
  omega

theorem serializedStringLength_fits {value : String}
    (h : utf8Len (serializeString value) ≤ U64_MAX) :
    serializedStringLength value = .ok (utf8Len (serializeString value)) := by
  rw [utf8Len_string] at h ⊢
  exact escapedLength_fits h

theorem commaLength_fits {position length : Nat}
    (h : length + utf8Len (comma position) ≤ U64_MAX) :
    commaLength position length = .ok (length + utf8Len (comma position)) := by
  unfold comma at h ⊢
  unfold commaLength
  by_cases hposition : (position != 0) = true
  · rw [if_pos hposition] at h ⊢
    rw [if_pos hposition]
    exact checkedAdd_fits h
  · rw [if_neg hposition, if_neg hposition]
    rfl

/-- A value is measured where its text fits. -/
def LengthFits (value : AdapterJson) : Prop :=
  utf8Len (serialize value) ≤ U64_MAX → serializedLength value = .ok (utf8Len (serialize value))

theorem itemsLength_fits {items : List AdapterJson} {position length : Nat}
    (hitems : ∀ item ∈ items, LengthFits item)
    (h : length + utf8Len (serializeItems items position) ≤ U64_MAX) :
    itemsLength items position length =
      .ok (length + utf8Len (serializeItems items position)) := by
  induction items generalizing position length with
  | nil => rfl
  | cons item items ih =>
      rw [serializeItems, utf8Len_append, utf8Len_append] at h ⊢
      have hitem := hitems item List.mem_cons_self (by omega)
      rw [itemsLength, commaLength_fits (by omega), ok_bind, hitem, ok_bind,
        checkedAdd_fits (by omega), ok_bind,
        ih (fun other hother => hitems other (List.mem_cons_of_mem _ hother)) (by omega)]
      congr 1
      omega

theorem fieldsLength_fits {fields : List (String × AdapterJson)} {position length : Nat}
    (hfields : ∀ field ∈ fields, LengthFits field.2)
    (h : length + utf8Len (serializeFields fields position) ≤ U64_MAX) :
    fieldsLength fields position length =
      .ok (length + utf8Len (serializeFields fields position)) := by
  induction fields generalizing position length with
  | nil => rfl
  | cons field fields ih =>
      obtain ⟨key, value⟩ := field
      have hcolon : utf8Len [':'] = 1 := rfl
      rw [serializeFields, utf8Len_append, utf8Len_append, utf8Len_append, utf8Len_append,
        hcolon] at h ⊢
      have hvalue : serializedLength value = .ok (utf8Len (serialize value)) :=
        hfields (key, value) List.mem_cons_self (by show utf8Len (serialize value) ≤ _; omega)
      rw [fieldsLength, commaLength_fits (by omega), ok_bind,
        serializedStringLength_fits (by omega), ok_bind, checkedAdd_fits (by omega), ok_bind,
        checkedAdd_fits (by omega), ok_bind, hvalue, ok_bind, checkedAdd_fits (by omega), ok_bind,
        ih (fun other hother => hfields other (List.mem_cons_of_mem _ hother)) (by omega)]
      congr 1
      omega

/-- What fits is measured. -/
theorem serializedLength_fits (value : AdapterJson) : LengthFits value := by
  induction value using AdapterJson.induction with
  | null => exact fun _ => rfl
  | boolean value => cases value <;> exact fun _ => rfl
  | number value => exact fun h => if_pos h
  | string value derived => exact serializedStringLength_fits
  | array items ih =>
      intro h
      rw [serialize, utf8Len_wrapped] at h ⊢
      have hends : Char.utf8Size '[' + utf8Len (serializeItems items 0) + Char.utf8Size ']' =
          2 + utf8Len (serializeItems items 0) := by
        show 1 + _ + 1 = _
        omega
      rw [hends] at h ⊢
      exact itemsLength_fits ih h
  | object fields ih =>
      intro h
      rw [serialize, utf8Len_wrapped] at h ⊢
      have hends : Char.utf8Size '{' + utf8Len (serializeFields fields 0) + Char.utf8Size '}' =
          2 + utf8Len (serializeFields fields 0) := by
        show 1 + _ + 1 = _
        omega
      rw [hends] at h ⊢
      exact fieldsLength_fits ih h

/-! ## The data URI -/

theorem mediaMime_plain (mediaType : ImageMediaType) :
    (mediaMime mediaType).toList.countP isJsonEscape = 0 := by
  cases mediaType <;> decide

/-- The characters of a padded text take a byte each, and none of them is escaped. -/
theorem padded_plain (bytes : List UInt8) :
    ∀ c ∈ Base64.encodePadded Base64.standard bytes,
      c.utf8Size = 1 ∧ isJsonEscape c = false := by
  intro c hc
  have halphabet : ∀ i, (Base64.standard.char i).utf8Size = 1 ∧
      isJsonEscape (Base64.standard.char i) = false := by decide +kernel
  unfold Base64.encodePadded Base64.encode Base64.padding at hc
  rcases List.mem_append.1 hc with hdigit | hpad
  · obtain ⟨i, -, rfl⟩ := List.mem_map.1 hdigit
    exact halphabet i
  · rw [List.eq_of_mem_replicate hpad]
    decide

theorem utf8Len_padded (bytes : List UInt8) :
    utf8Len (Base64.encodePadded Base64.standard bytes) = paddedLength bytes.length := by
  have hone : (Base64.encodePadded Base64.standard bytes).map Char.utf8Size =
      List.replicate (Base64.encodePadded Base64.standard bytes).length 1 :=
    List.map_eq_replicate_iff.2 fun c hc => (padded_plain bytes c hc).1
  unfold utf8Len
  rw [hone, List.sum_replicate, Base64.encodePadded_length]
  show _ * 1 = _
  rw [Nat.mul_one]
  rfl

theorem utf8Len_dataUri (image : ImageView) :
    utf8Len (dataUriText image) =
      5 + utf8Len (mediaMime image.mediaType).toList + 8 + paddedLength image.bytes.length := by
  unfold dataUriText
  rw [utf8Len_append, utf8Len_append, utf8Len_append, utf8Len_padded]
  rfl

theorem dataUri_plain (image : ImageView) : (dataUriText image).countP isJsonEscape = 0 := by
  have hpadded : (Base64.encodePadded Base64.standard image.bytes).countP isJsonEscape = 0 := by
    rw [List.countP_eq_zero]
    intro c hc
    rw [(padded_plain image.bytes c hc).2]
    exact Bool.false_ne_true
  unfold dataUriText
  rw [List.countP_append, List.countP_append, List.countP_append, hpadded, mediaMime_plain]
  decide

/-- The capacity that is predicted is the length of what is built. -/
theorem dataUriLength_eq (image : ImageView) :
    dataUriLength image =
      if utf8Len (dataUriText image) > MAX_LOGICAL_CHARGE then .error .Limit
      else .ok (utf8Len (dataUriText image)) := by
  rw [utf8Len_dataUri]
  rfl

theorem dataUri_eq (image : ImageView) :
    dataUri image =
      if utf8Len (dataUriText image) > MAX_LOGICAL_CHARGE then .error .Limit
      else .ok (String.ofList (dataUriText image)) := by
  unfold dataUri
  rw [dataUriLength_eq]
  by_cases hlong : utf8Len (dataUriText image) > MAX_LOGICAL_CHARGE
  · rw [if_pos hlong, if_pos hlong]
    rfl
  · rw [if_neg hlong, if_neg hlong]
    refine bind_ok.2 ⟨_, rfl, ?_⟩
    have hsame : (utf8Len (dataUriText image) != utf8Len (dataUriText image)) = false :=
      bne_self_eq_false _
    dsimp only
    rw [hsame]
    rfl

/-- The lengths of all images are predicted where every one fits. -/
theorem imageLengths_ok {images : List ImageView} {lengths : List Nat}
    (h : images.mapM dataUriLength = .ok lengths) :
    lengths = images.map (fun image => utf8Len (dataUriText image)) ∧
      images.mapM dataUri = .ok (images.map fun image => String.ofList (dataUriText image)) := by
  have hall := mapM_ok.1 h
  clear h
  induction hall with
  | nil => exact ⟨rfl, rfl⟩
  | cons hlength hrest ih =>
      rename_i image length images lengths
      obtain ⟨hlengths, huris⟩ := ih
      rw [dataUriLength_eq] at hlength
      by_cases hlong : utf8Len (dataUriText image) > MAX_LOGICAL_CHARGE
      · rw [if_pos hlong] at hlength
        cases hlength
      · rw [if_neg hlong] at hlength
        cases hlength
        constructor
        · rw [hlengths, List.map_cons]
        · rw [List.mapM_cons, dataUri_eq, if_neg hlong, huris]
          rfl

/-! ## The sums -/

/-- The sums that `validate_mistral_aggregate` holds against the limit. -/
def mistralSums (textLength textSerializedLength : Nat) (imageLengths : List Nat) :
    ValidationResult MistralSums := do
  let wire ← checkedAdd 25 textSerializedLength
  let logical ← checkedAdd 64 textLength
  imageLengths.foldlM addImageLength ⟨textLength, wire, logical⟩

def MistralSums.exceed (sums : MistralSums) : Bool :=
  sums.retained > MAX_LOGICAL_CHARGE || sums.wire > MAX_LOGICAL_CHARGE
    || sums.logical > MAX_LOGICAL_CHARGE

theorem validateMistralAggregate_eq (textLength textSerializedLength : Nat)
    (imageLengths : List Nat) :
    validateMistralAggregate textLength textSerializedLength imageLengths =
      mistralSums textLength textSerializedLength imageLengths >>= fun sums =>
        if sums.exceed then .error .Limit else .ok () := by
  unfold validateMistralAggregate mistralSums
  rw [bind_assoc]
  refine bind_congr fun wire => ?_
  rw [bind_assoc]
  rfl

theorem checkedAdd_le {left right sum : Nat} (h : checkedAdd left right = .ok sum) :
    sum ≤ U64_MAX := by
  unfold checkedAdd at h
  split at h
  · cases h
    assumption
  · cases h

/-- The sums of the images, each with its constant. -/
theorem imageSums_ok {lengths : List Nat} {start sums : MistralSums}
    (h : lengths.foldlM addImageLength start = .ok sums) (hstart : start.wire ≤ U64_MAX) :
    sums.wire = start.wire + (lengths.map (36 + ·)).sum ∧
      sums.logical = start.logical + (lengths.map (66 + ·)).sum ∧ sums.wire ≤ U64_MAX := by
  induction lengths generalizing start with
  | nil =>
      cases h
      exact ⟨rfl, rfl, hstart⟩
  | cons length lengths ih =>
      rw [List.foldlM_cons] at h
      obtain ⟨middle, hmiddle, hrest⟩ := bind_ok.1 h
      unfold addImageLength at hmiddle
      obtain ⟨retained, -, hmiddle⟩ := bind_ok.1 hmiddle
      obtain ⟨chunk, hchunk, hmiddle⟩ := bind_ok.1 hmiddle
      obtain ⟨wire, hwire, hmiddle⟩ := bind_ok.1 hmiddle
      obtain ⟨charge, hcharge, hmiddle⟩ := bind_ok.1 hmiddle
      obtain ⟨logical, hlogical, hmiddle⟩ := bind_ok.1 hmiddle
      cases hmiddle
      have hfits := checkedAdd_le hwire
      obtain ⟨hsum, htotal, hle⟩ := ih hrest hfits
      rw [List.map_cons, List.map_cons, List.sum_cons, List.sum_cons]
      have hwire' := checkedAdd_ok hwire
      have hchunk' := checkedAdd_ok hchunk
      have hlogical' := checkedAdd_ok hlogical
      have hcharge' := checkedAdd_ok hcharge
      dsimp only at hsum htotal
      refine ⟨?_, ?_, hle⟩
      · omega
      · omega

theorem mistralSums_ok {textLength textSerializedLength : Nat} {lengths : List Nat}
    {sums : MistralSums} (h : mistralSums textLength textSerializedLength lengths = .ok sums) :
    sums.wire = 25 + textSerializedLength + (lengths.map (36 + ·)).sum ∧
      sums.logical = 64 + textLength + (lengths.map (66 + ·)).sum ∧ sums.wire ≤ U64_MAX := by
  obtain ⟨wire, hwire, h⟩ := bind_ok.1 h
  obtain ⟨logical, hlogical, h⟩ := bind_ok.1 h
  have hsums := imageSums_ok h (checkedAdd_le hwire)
  dsimp only at hsums
  rw [checkedAdd_ok hwire, checkedAdd_ok hlogical] at hsums
  exact hsums

/-! ## The array -/

/-- The array of a tool result: its text, and a data URI for every image. -/
def mistralArray (texts : List String) (images : List ImageView) (isError : Bool) :
    AdapterJson :=
  .Array (textChunk (String.ofList (mistralText texts (!images.isEmpty) isError)) ::
    images.map fun image => imageChunk (String.ofList (dataUriText image)))

/-- The length of a chunk: its braces, two colons, a comma, and four strings. -/
theorem utf8Len_chunk (key text kind : String) :
    utf8Len (serialize (.Object [(key, derivedString text), ("type", ordinaryString kind)])) =
      11 + utf8Len (serializeString key) + utf8Len (serializeString text) +
        utf8Len (serializeString kind) := by
  have hfirst : utf8Len (comma 0) = 0 := rfl
  have hcomma : utf8Len (comma (0 + 1)) = 1 := rfl
  have hcolon : utf8Len [':'] = 1 := rfl
  have hempty : utf8Len (serializeFields [] (0 + 1 + 1)) = 0 := rfl
  have htype : utf8Len (serializeString "type") = 6 := by decide
  unfold derivedString ordinaryString
  rw [serialize, utf8Len_wrapped, serializeFields, serializeFields, utf8Len_append,
    utf8Len_append, utf8Len_append, utf8Len_append, utf8Len_append, utf8Len_append,
    utf8Len_append, utf8Len_append, hfirst, hcomma, hcolon, hempty, htype]
  show 1 + (0 + (_ + 1 + utf8Len (serializeString text)) +
    (1 + (6 + 1 + utf8Len (serializeString kind)) + 0)) + 1 = _
  omega

/-- The charge of a chunk: that of an object, of two fields, and of four strings. -/
theorem charges_chunk (key text kind : String) :
    Charges (chargeValue (.Object [(key, derivedString text), ("type", ordinaryString kind)]))
      True (8 + (stringCharge key + 8 + stringCharge text) +
        (stringCharge "type" + 8 + stringCharge kind)) := by
  have hvalue (value : String) (derived : Bool) :
      Charges (chargeValue (.String value derived)) True (4 + stringCharge value) :=
    ((Charges.add 4).bind (Charges.string value)).congr (by simp) rfl
  have hfields : Charges (chargeFields
      [(key, derivedString text), ("type", ordinaryString kind)]) True
        (stringCharge key + 8 + stringCharge text +
          (stringCharge "type" + 8 + stringCharge kind)) := by
    have hlast : Charges (chargeFields [("type", ordinaryString kind)]) True
        (stringCharge "type" + 8 + stringCharge kind) :=
      ((Charges.string "type").bind ((Charges.add 4).bind
        ((hvalue kind false).bind Charges.pure))).congr (by simp) (by omega)
    exact ((Charges.string key).bind ((Charges.add 4).bind
      ((hvalue text true).bind hlast))).congr (by simp) (by omega)
  exact ((Charges.add 4).bind ((Charges.add 4).bind hfields)).congr (by simp) (by omega)

theorem utf8Len_textChunk (text : String) :
    utf8Len (serialize (textChunk text)) = 23 + utf8Len (serializeString text) := by
  have htext : utf8Len (serializeString "text") = 6 := by decide
  unfold textChunk
  rw [utf8Len_chunk, htext]
  omega

theorem utf8Len_imageChunk (uri : String) :
    utf8Len (serialize (imageChunk uri)) = 33 + utf8Len (serializeString uri) := by
  have himage : utf8Len (serializeString "image_url") = 11 := by decide
  unfold imageChunk
  rw [utf8Len_chunk, himage]
  omega

theorem charges_textChunk (text : String) :
    Charges (chargeValue (textChunk text)) True (52 + utf8Len text.toList) := by
  have htext : stringCharge "text" = 8 := by decide
  have htype : stringCharge "type" = 8 := by decide
  have hcharge : stringCharge text = 4 + utf8Len text.toList := rfl
  exact (charges_chunk "text" text "text").congr Iff.rfl (by omega)

theorem charges_imageChunk (uri : String) :
    Charges (chargeValue (imageChunk uri)) True (62 + utf8Len uri.toList) := by
  have himage : stringCharge "image_url" = 13 := by decide
  have htype : stringCharge "type" = 8 := by decide
  have hcharge : stringCharge uri = 4 + utf8Len uri.toList := rfl
  exact (charges_chunk "image_url" uri "image_url").congr Iff.rfl (by omega)

/-- Every image behind the text adds a comma and its chunk. -/
theorem utf8Len_imageChunks (images : List ImageView) (position : Nat) :
    utf8Len (serializeItems
        (images.map fun image => imageChunk (String.ofList (dataUriText image))) (position + 1)) =
      ((images.map fun image => utf8Len (dataUriText image)).map (36 + ·)).sum := by
  induction images generalizing position with
  | nil => rfl
  | cons image images ih =>
      have hcomma : utf8Len (comma (position + 1)) = 1 := rfl
      rw [List.map_cons, List.map_cons, List.map_cons, List.sum_cons, serializeItems,
        utf8Len_append, utf8Len_append, hcomma, utf8Len_imageChunk, utf8Len_jsonString,
        dataUri_plain, ih]
      omega

theorem charges_imageChunks (images : List ImageView) :
    Charges (chargeItems
        (images.map fun image => imageChunk (String.ofList (dataUriText image)))) True
      ((images.map fun image => utf8Len (dataUriText image)).map (66 + ·)).sum := by
  induction images with
  | nil => exact Charges.pure
  | cons image images ih =>
      have hchunk := charges_imageChunk (String.ofList (dataUriText image))
      rw [String.toList_ofList] at hchunk
      rw [List.map_cons, List.map_cons, List.map_cons, List.sum_cons]
      exact ((Charges.add 4).bind (hchunk.bind ih)).congr (by simp) (by omega)

/-- The length of the array, from the lengths of its parts. -/
theorem utf8Len_mistralArray (texts : List String) (images : List ImageView) (isError : Bool) :
    utf8Len (serialize (mistralArray texts images isError)) =
      25 + utf8Len (serializeString
        (String.ofList (mistralText texts (!images.isEmpty) isError))) +
        ((images.map fun image => utf8Len (dataUriText image)).map (36 + ·)).sum := by
  have hfirst : utf8Len (comma 0) = 0 := rfl
  unfold mistralArray
  rw [serialize, utf8Len_wrapped, serializeItems, utf8Len_append, utf8Len_append, hfirst,
    utf8Len_textChunk, utf8Len_imageChunks]
  show 1 + _ + 1 = _
  omega

theorem charges_mistralArray (texts : List String) (images : List ImageView) (isError : Bool) :
    Charges (chargeValue (mistralArray texts images isError)) True
      (64 + utf8Len (mistralText texts (!images.isEmpty) isError) +
        ((images.map fun image => utf8Len (dataUriText image)).map (66 + ·)).sum) := by
  have htext := charges_textChunk (String.ofList (mistralText texts (!images.isEmpty) isError))
  rw [String.toList_ofList] at htext
  exact ((Charges.add 4).bind ((Charges.add 4).bind ((Charges.add 4).bind
    (htext.bind (charges_imageChunks images))))).congr (by simp) (by omega)

/-! ## Before and after -/

/-- The sums that are made of a tool result before anything is built. -/
def predictedSums (texts : List String) (images : List ImageView) (isError : Bool) :
    AdapterValidationResult MistralSums := do
  let plan ← mapSourceError (MistralTextPlan.new texts (!images.isEmpty) isError)
  let imageLengths ← images.mapM dataUriLength
  mapSourceError (mistralSums plan.resultLength plan.serializedLength imageLengths)

/-- The sums are the sizes of a value. -/
structure Predicts (sums : MistralSums) (value : AdapterJson) : Prop where
  wire : serializedLength value = .ok sums.wire
  written : utf8Len (serialize value) = sums.wire
  logical : Charges (chargeValue value) True sums.logical

variable {texts : List String} {images : List ImageView} {isError : Bool}

theorem predictedSums_ok {sums : MistralSums}
    (h : predictedSums texts images isError = .ok sums) :
    Predicts sums (mistralArray texts images isError) := by
  obtain ⟨plan, hplan, h⟩ := bind_ok.1 h
  obtain ⟨lengths, hlengths, h⟩ := bind_ok.1 h
  have hplan := mapError_ok.1 hplan
  obtain ⟨-, rfl⟩ := new_ok hplan
  obtain ⟨rfl, -⟩ := imageLengths_ok hlengths
  obtain ⟨hwire, hlogical, hfits⟩ := mistralSums_ok (mapError_ok.1 h)
  have hserialized : (measured texts (!images.isEmpty) isError).serializedLength =
      utf8Len (serializeString (String.ofList (mistralText texts (!images.isEmpty) isError))) := rfl
  rw [hserialized, ← utf8Len_mistralArray] at hwire
  rw [hwire] at hfits
  refine ⟨?_, hwire.symm, ?_⟩
  · rw [hwire]
    exact serializedLength_fits _ hfits
  · rw [hlogical]
    exact charges_mistralArray texts images isError

/-- Nothing can go wrong behind the sums but the limit. -/
theorem mistralChunks_eq (texts : List String) (images : List ImageView) (isError : Bool) :
    mistralChunks texts images isError =
      predictedSums texts images isError >>= fun sums =>
        if sums.exceed then .error .Limit else .ok (mistralArray texts images isError) := by
  unfold mistralChunks predictedSums
  rw [bind_assoc]
  cases hplan : mapSourceError (MistralTextPlan.new texts (!images.isEmpty) isError) with
  | error error => rfl
  | ok plan =>
      obtain ⟨hbuild, -⟩ := new_ok (mapError_ok.1 hplan)
      show (images.mapM dataUriLength >>= _) = (images.mapM dataUriLength >>= _) >>= _
      rw [bind_assoc]
      cases hlengths : images.mapM dataUriLength with
      | error error => rfl
      | ok lengths =>
          obtain ⟨-, huris⟩ := imageLengths_ok hlengths
          show (mapSourceError (validateMistralAggregate _ _ lengths) >>= _) =
            mapSourceError (mistralSums _ _ lengths) >>= _
          rw [validateMistralAggregate_eq, hbuild, huris]
          cases mistralSums plan.resultLength plan.serializedLength lengths with
          | error error => rfl
          | ok sums =>
              show (mapSourceError (if sums.exceed then _ else _) >>= _) =
                if sums.exceed then _ else _
              cases sums.exceed with
              | true => rfl
              | false =>
                  show Except.ok (AdapterJson.Array (_ :: (images.map _).map imageChunk)) = _
                  rw [List.map_map]
                  rfl

/-- What `mistral_content` returns is made of the parts of a tool result. -/
theorem mistralContent_outcome (self : Evaluator) (transform : AdapterTransform)
    (scope : Scope) :
    Outcome (fun _ => True) (fun value => ∃ index result,
      toolResult scope = .ok (index, result) ∧
        mistralChunks (result.blocks.filterMap (·.text?)) (result.blocks.filterMap (·.image?))
          result.isError = .ok value) (mistralContent self transform scope) := by
  have hreturned {α : Type} (x : AdapterValidationResult α) :
      Outcome (fun _ => True) (fun value => x = .ok value) (lift (returned x)) :=
    Outcome.lift ((ends_returned x).mono (fun _ _ => trivial) fun _ h => h)
  have hblocks (index : Nat) (blocks : List (ToolResultBlock × Nat)) :
      Outcome (fun _ => True) (fun _ => True) (blocks.forM (consumeResultBlock index)) := by
    apply Outcome.forM
    intro block _
    refine (consume_outcome trivial _).bind fun _ _ => ?_
    cases block.1 with
    | Text text => exact consume_outcome trivial _
    | Image image =>
        exact (consume_outcome trivial _).bind fun _ _ => consume_outcome trivial _
  unfold mistralContent
  refine (hreturned _).bind fun _ _ => ?_
  refine (hreturned _).bind fun part hpart => ?_
  obtain ⟨index, result⟩ := part
  refine (consume_outcome trivial _).bind fun _ _ => ?_
  refine (consume_outcome trivial _).bind fun _ _ => ?_
  refine (hreturned _).bind fun _ _ => ?_
  refine (hblocks index result.blocks.zipIdx).bind fun _ _ => ?_
  exact (hreturned _).mono (fun _ h => h) fun value hvalue => ⟨index, result, hpart, hvalue⟩

/-- **The predicted sizes are those of the array.**  The sums of a tool result's parts are the
length, the text and the charge of the array of its text and images; that array is what is
built, where no sum is over the limit, and what `mistral_content` returns.  The length that is
predicted of a data URI is that of the URI which is built. -/
theorem mistral_sizes_exact :
    (∀ (blocks : List ToolResultBlock) (isError : Bool) (sums : MistralSums),
      let texts := blocks.filterMap (·.text?)
      let images := blocks.filterMap (·.image?)
      predictedSums texts images isError = .ok sums →
        Predicts sums (mistralArray texts images isError) ∧
          mistralChunks texts images isError =
            if sums.exceed then .error .Limit else .ok (mistralArray texts images isError)) ∧
      (∀ (self : Evaluator) (transform : AdapterTransform) (scope : Scope) (ledger after : Ledger)
        (value : AdapterJson),
        mistralContent self transform scope ledger = .ok (value, after) →
          ∃ index result sums, toolResult scope = .ok (index, result) ∧
            predictedSums (result.blocks.filterMap (·.text?))
              (result.blocks.filterMap (·.image?)) result.isError = .ok sums ∧
            sums.exceed = false ∧ Predicts sums value) ∧
      ∀ image : ImageView,
        dataUriLength image =
            (if utf8Len (dataUriText image) > MAX_LOGICAL_CHARGE then .error .Limit
              else .ok (utf8Len (dataUriText image))) ∧
          dataUri image =
            (if utf8Len (dataUriText image) > MAX_LOGICAL_CHARGE then .error .Limit
              else .ok (String.ofList (dataUriText image))) := by
  refine ⟨?_, ?_, fun image => ⟨dataUriLength_eq image, dataUri_eq image⟩⟩
  · intro blocks isError sums texts images hsums
    refine ⟨predictedSums_ok hsums, ?_⟩
    rw [mistralChunks_eq, hsums]
    rfl
  · intro self transform scope ledger after value h
    obtain ⟨index, result, hresult, hchunks⟩ :=
      (mistralContent_outcome self transform scope ledger).ok h
    rw [mistralChunks_eq] at hchunks
    obtain ⟨sums, hsums, hvalue⟩ := bind_ok.1 hchunks
    split at hvalue
    · cases hvalue
    · rename_i hexceed
      cases hvalue
      exact ⟨index, result, sums, hresult, hsums, Bool.eq_false_iff.2 hexceed,
        predictedSums_ok hsums⟩

/-- A result of a text that is escaped and an image of two bytes. -/
def pictureResult : ToolResultMessage :=
  ⟨"call", [.Text ⟨"a\"b "⟩, .Image ⟨"", .Png, [0xff, 0x00], ⟨1, 1, 1⟩⟩], false⟩

def pictureEvaluator : Evaluator :=
  ⟨plainContract, plainRequest "p" "r" "t" "s" "x", [("call", ⟨"call", "tool", .Success⟩)]⟩

theorem mistral_sizes_picture :
    ∃ value after, mistralContent pictureEvaluator .MistralToolResultContent
        (.Message 0 (.ToolResult pictureResult)) ⟨[], []⟩ = .ok (value, after) ∧
      ∃ sums, Predicts sums value ∧ sums.wire = 93 := by
  have hrun : (mistralContent pictureEvaluator .MistralToolResultContent
      (.Message 0 (.ToolResult pictureResult)) ⟨[], []⟩).isOk = true := by decide +kernel
  obtain ⟨⟨value, after⟩, hvalue⟩ := isOk_true.1 hrun
  obtain ⟨index, result, sums, hresult, hsums, hexceed, hpredicts⟩ :=
    mistral_sizes_exact.2.1 _ _ _ _ _ _ hvalue
  have hwire : (predictedSums ["a\"b "] [⟨"", .Png, [0xff, 0x00], ⟨1, 1, 1⟩⟩] false).toOption.map
      (·.wire) = some 93 := by decide +kernel
  refine ⟨value, after, hvalue, sums, hpredicts, ?_⟩
  cases hresult
  have hparts : predictedSums ["a\"b "] [⟨"", .Png, [0xff, 0x00], ⟨1, 1, 1⟩⟩] false = .ok sums :=
    hsums
  rw [hparts] at hwire
  exact Option.some.inj hwire

end MCode.Adapter
