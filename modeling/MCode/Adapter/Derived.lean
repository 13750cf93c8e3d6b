import MCode.Adapter.Json
import MCode.Adapter.Request
import MCode.Lib.Base64

/-!
# Derived values

`adapter/source.rs`: bytes in Base64, images as data URIs, and the text that
one wire makes of a tool result.  Lengths and offsets are those of bytes.
-/

namespace MCode.Adapter

open MCode.Lib
open MCode.Validation (ValidationResult Text MAX_LOGICAL_CHARGE utf8Len checkedAdd checkedLen)

/-! ## Bytes and images -/

/-- The length of `STANDARD.encode`. -/
def paddedLength (length : Nat) : Nat := (length + 2) / 3 * 4

/-- The length of `STANDARD_NO_PAD.encode`. -/
def unpaddedLength (length : Nat) : Nat :=
  length / 3 * 4 + if length % 3 == 0 then 0 else if length % 3 == 1 then 2 else 3

/-- A text of a length that was computed before. -/
def sizedText (length : Nat) (text : Text) : AdapterValidationResult AdapterJson :=
  if length > MAX_LOGICAL_CHARGE then .error .Limit
  else .ok (derivedString (String.ofList text))

/-- `encode_bytes`. -/
def encodeBytes (transform : AdapterTransform) (bytes : List UInt8) :
    AdapterValidationResult AdapterJson :=
  match transform with
  | .Base64StandardPadded =>
      sizedText (paddedLength bytes.length) (Base64.encodePadded Base64.standard bytes)
  | .Base64StandardUnpadded =>
      sizedText (unpaddedLength bytes.length) (Base64.encode Base64.standard bytes)
  | _ => .error .InvalidContract

def mediaMime : ImageMediaType → String
  | .Png => "image/png"
  | .Jpeg => "image/jpeg"
  | .Gif => "image/gif"
  | .Webp => "image/webp"
  | .Tiff => "image/tiff"

def mediaOrdinal : ImageMediaType → Nat
  | .Png => 0
  | .Jpeg => 1
  | .Gif => 2
  | .Webp => 3
  | .Tiff => 4

def effortOrdinal : ReasoningEffort → Nat
  | .Minimal => 0
  | .Low => 1
  | .Medium => 2
  | .High => 3

/-- `data_uri_length`. -/
def dataUriLength (image : ImageView) : AdapterValidationResult Nat :=
  let total := 5 + utf8Len (mediaMime image.mediaType).toList + 8
    + paddedLength image.bytes.length
  if total > MAX_LOGICAL_CHARGE then .error .Limit else .ok total

def dataUriText (image : ImageView) : Text :=
  "data:".toList ++ (mediaMime image.mediaType).toList ++ ";base64,".toList
    ++ Base64.encodePadded Base64.standard image.bytes

/-- `data_uri`. -/
def dataUri (image : ImageView) : AdapterValidationResult String := do
  let capacity ← dataUriLength image
  let output := dataUriText image
  if utf8Len output != capacity then .error .SourceMismatch
  else return String.ofList output

/-! ## The text of a tool result -/

def isMistralTrim (c : Char) : Bool :=
  let value := c.toNat
  value == 0x09 || value == 0x0a || value == 0x20 || value == 0xa0 || value == 0x1680
    || (0x2000 ≤ value && value ≤ 0x200a) || value == 0x2028 || value == 0x2029
    || value == 0x202f || value == 0x205f || value == 0x3000 || value == 0xfeff

/-- The characters that the loops over the texts go through: a line feed in front of each
text but the first. -/
def joinedTexts (texts : List String) : Text :=
  ['\n'].intercalate (texts.map (·.toList))

/-- `account_trim_char` over a text: its length, and that of its leading blanks. -/
def accountTrim : Text → Nat → Nat → Bool → ValidationResult (Nat × Nat)
  | [], total, leading, _ => .ok (total, leading)
  | c :: text, total, leading, leadingOpen => do
      let total ← checkedAdd total c.utf8Size
      if leadingOpen && isMistralTrim c then
        let leading ← checkedAdd leading c.utf8Size
        accountTrim text total leading true
      else accountTrim text total leading false

/-- `account_trailing` over a reversed text, up to the first character that stays. -/
def accountTrailing : Text → Nat → ValidationResult Nat
  | [], trailing => .ok trailing
  | c :: text, trailing =>
      if isMistralTrim c then do accountTrailing text (← checkedAdd trailing c.utf8Size)
      else .ok trailing

/-- `joined_escape_count`: the escapes from `start` to `stop`. -/
def escapeCount (start stop : Nat) : Text → Nat → Nat → ValidationResult Nat
  | [], _, escapes => .ok escapes
  | c :: text, offset, escapes => do
      let inside := start ≤ offset && offset < stop
      let escaped := c == '"' || c == '\\' || c == '\t' || c == '\n'
      let escapes ← if inside && escaped then checkedAdd escapes 1 else .ok escapes
      let offset ← checkedAdd offset c.utf8Size
      escapeCount start stop text offset escapes

structure MistralTextPlan where
  start : Nat
  stop : Nat
  front : String
  placeholder : Option String
  resultLength : Nat
  serializedLength : Nat

/-- `checked_sub`. -/
def checkedSub (left right : Nat) : ValidationResult Nat :=
  if right ≤ left then .ok (left - right) else .error .Limit

/-- The length of the text between the front and the end of a plan. -/
def bodyLength (placeholder : Option String) (start stop : Nat) : ValidationResult Nat :=
  match placeholder with
  | some value => checkedLen (utf8Len value.toList)
  | none => checkedSub stop start

/-- `MistralTextPlan::new`. -/
def MistralTextPlan.new (texts : List String) (hasImages isError : Bool) :
    ValidationResult MistralTextPlan := do
  let joined := joinedTexts texts
  let (total, leading) ← accountTrim joined 0 0 true
  if total > MAX_LOGICAL_CHARGE then .error .Limit
  else
    let trailing ← if leading < total then accountTrailing joined.reverse 0 else .ok 0
    let stop ← checkedSub total trailing
    let front := if isError then "[tool error] " else ""
    let placeholder :=
      if leading < stop then none
      else some (if hasImages then "(see attached image)" else "(no tool output)")
    let body ← bodyLength placeholder leading stop
    let resultLength ← checkedAdd (← checkedLen (utf8Len front.toList)) body
    let escapes ← if placeholder.isSome then .ok 0 else escapeCount leading stop joined 0 0
    let serializedLength ← checkedAdd (← checkedAdd 2 resultLength) escapes
    if resultLength > MAX_LOGICAL_CHARGE then .error .Limit
    else return ⟨leading, stop, front, placeholder, resultLength, serializedLength⟩

/-- The parts of a text before and behind a byte, unless a character stands there. -/
def splitAtByte : Text → Nat → Option (Text × Text)
  | text, 0 => some ([], text)
  | [], _ + 1 => none
  | c :: text, offset + 1 =>
      if c.utf8Size ≤ offset + 1 then
        (splitAtByte text (offset + 1 - c.utf8Size)).map fun (before, behind) =>
          (c :: before, behind)
      else none

/-- `str::get` of a range of bytes. -/
def byteRange (text : Text) (start stop : Nat) : Option Text := do
  let (before, _) ← splitAtByte text stop
  let (_, range) ← splitAtByte before start
  return range

/-- `append_segment`: the part of a segment at `offset` that is in the range. -/
def segmentPart (segment : Text) (start stop offset : Nat) : ValidationResult Text :=
  let segmentEnd := offset + utf8Len segment
  let copyStart := min (max start offset) segmentEnd
  let copyEnd := min (max stop offset) segmentEnd
  if copyStart < copyEnd then
    match byteRange segment (copyStart - offset) (copyEnd - offset) with
    | none => .error .InvalidArgument
    | some part => .ok part
  else .ok []

/-- `append_joined_range`. -/
def joinedRange (start stop : Nat) : List Text → Nat → ValidationResult Text
  | [], _ => .ok []
  | segment :: segments, offset => do
      let part ← segmentPart segment start stop offset
      let offset ← checkedAdd offset (utf8Len segment)
      let rest ← joinedRange start stop segments offset
      return part ++ rest

/-- The segments of the joined texts. -/
def segmentsOf (texts : List String) : List Text :=
  (texts.map (·.toList)).intersperse ['\n']

/-- What stands behind the front. -/
def MistralTextPlan.body (self : MistralTextPlan) (texts : List String) : ValidationResult Text :=
  match self.placeholder with
  | some placeholder => .ok placeholder.toList
  | none => joinedRange self.start self.stop (segmentsOf texts) 0

/-- `MistralTextPlan::build`. -/
def MistralTextPlan.build (self : MistralTextPlan) (texts : List String) :
    ValidationResult String := do
  let body ← self.body texts
  let output := self.front.toList ++ body
  if utf8Len output != self.resultLength then .error .InvalidArgument
  else return String.ofList output

/-- The sums of `validate_mistral_aggregate`. -/
structure MistralSums where
  retained : Nat
  wire : Nat
  logical : Nat

def addImageLength (sums : MistralSums) (length : Nat) : ValidationResult MistralSums := do
  let retained ← checkedAdd sums.retained length
  let wire ← checkedAdd sums.wire (← checkedAdd 36 length)
  let logical ← checkedAdd sums.logical (← checkedAdd 66 length)
  return ⟨retained, wire, logical⟩

/-- `validate_mistral_aggregate`. -/
def validateMistralAggregate (textLength textSerializedLength : Nat) (imageLengths : List Nat) :
    ValidationResult Unit := do
  let wire ← checkedAdd 25 textSerializedLength
  let logical ← checkedAdd 64 textLength
  let sums ← imageLengths.foldlM addImageLength ⟨textLength, wire, logical⟩
  if sums.retained > MAX_LOGICAL_CHARGE || sums.wire > MAX_LOGICAL_CHARGE
      || sums.logical > MAX_LOGICAL_CHARGE then .error .Limit
  else .ok ()

def textChunk (text : String) : AdapterJson :=
  .Object [("text", derivedString text), ("type", ordinaryString "text")]

def imageChunk (uri : String) : AdapterJson :=
  .Object [("image_url", derivedString uri), ("type", ordinaryString "image_url")]

/-- The end of `mistral_content`: the chunks of a result's texts and images. -/
def mistralChunks (texts : List String) (images : List ImageView) (isError : Bool) :
    AdapterValidationResult AdapterJson := do
  let plan ← mapSourceError (MistralTextPlan.new texts (!images.isEmpty) isError)
  let imageLengths ← images.mapM dataUriLength
  mapSourceError
    (validateMistralAggregate plan.resultLength plan.serializedLength imageLengths)
  let text ← mapSourceError (plan.build texts)
  let uris ← images.mapM dataUri
  return .Array (textChunk text :: uris.map imageChunk)

end MCode.Adapter
