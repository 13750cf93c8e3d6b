import MCode.Render.Plain
import MCode.Tools.Ignore

/-!
# Host interactions

`mcode-tui/src/interaction.rs`: the prompt that a host shows, the digit keys of
its options, and the smallest viewport in which all of it can be read.

A prompt can only be made by `InteractionPrompt.new`, which keeps at most nine
options; that is a field of the structure here.  Sizes of a terminal are 16-bit
numbers in the source; no sum of them here goes past that.
-/

namespace MCode.Tui.App

open MCode.Render MCode.Tools

/-! ## Viewports -/

structure Viewport where
  width : Nat
  height : Nat
  deriving DecidableEq

def INTERACTION_MIN_COLUMNS : Nat := 24
def INTERACTION_INPUT_ROWS : Nat := 3
def INTERACTION_STATUS_ROWS : Nat := 1
def INTERACTION_BORDER_ROWS : Nat := 2
def INTERACTION_MIN_FIXED_INNER_ROWS : Nat := 2
def INTERACTION_MAX_TITLE_COLUMNS : Nat := 78
def INTERACTION_MAX_BODY_COLUMNS : Nat := 76
def INTERACTION_MAX_BODY_LINES : Nat := 12
def INTERACTION_MAX_OPTIONS : Nat := 9
def INTERACTION_MAX_REQUEST_ID_CHARS : Nat := 64
def INTERACTION_MAX_OPTION_ID_CHARS : Nat := 64
def INTERACTION_MAX_OPTION_LABEL_COLUMNS : Nat := INTERACTION_MAX_BODY_COLUMNS
def FIRST_OPTION_KEY : Nat := 49
def INTERACTION_TITLE : List Char := "Request".toList

def minInnerRows (optionCount : Nat) : Nat := INTERACTION_MIN_FIXED_INNER_ROWS + optionCount

/-- The height of the body panel while an interaction is visible. -/
def interactionBodyHeight (viewport : Viewport) : Nat :=
  let status := if 0 < viewport.height then INTERACTION_STATUS_ROWS else 0
  let input :=
    if 4 ≤ viewport.height then
      let budget := viewport.height - (status + 1)
      if INTERACTION_INPUT_ROWS < budget then INTERACTION_INPUT_ROWS else budget
    else viewport.height - status
  viewport.height - (status + input)

def isReadable (viewport : Viewport) (optionCount : Nat) : Bool :=
  if optionCount = 0 ∨ viewport.width < INTERACTION_MIN_COLUMNS then false
  else minInnerRows optionCount ≤ interactionBodyHeight viewport - INTERACTION_BORDER_ROWS

/-! ## Texts -/

section

variable {Value : Type} (unicode : Unicode Value)

def hasVisibleContent (text : List Char) : Bool :=
  trim text ≠ [] ∧ 0 < unicode.displayWidth (trim text)

def boundLine (raw : List Char) (maxColumns : Nat) : List Char :=
  let line := (lines (sanitizeTerminalText raw)).head?.getD []
  if hasVisibleContent unicode line then truncateDisplayWidth unicode line maxColumns else []

def boundBodyLines (raw : List Char) : List (List Char) :=
  ((lines (sanitizeTerminalText raw)).take INTERACTION_MAX_BODY_LINES).map fun line =>
    truncateDisplayWidth unicode line INTERACTION_MAX_BODY_COLUMNS

end

/-! ## Identifiers -/

structure InteractionIdError where
  field : String
  reason : String
  deriving DecidableEq

def validateIdentifier (raw : List Char) (maxChars : Nat) (field : String) :
    Except InteractionIdError (List Char) :=
  if raw = [] then .error ⟨field, "must not be empty"⟩
  else if raw.any (fun c => isControl c) then
    .error ⟨field, "must not contain control characters"⟩
  else if maxChars < raw.length then .error ⟨field, "exceeds its scalar limit"⟩
  else .ok raw

/-! ## Prompts -/

structure InteractionOption where
  id : List Char
  label : List Char
  deriving DecidableEq

section

variable {Value : Type} (unicode : Unicode Value)

def InteractionOption.new (id label : List Char) : Except InteractionIdError InteractionOption := do
  let id ← validateIdentifier id INTERACTION_MAX_OPTION_ID_CHARS "option ID"
  return ⟨id, boundLine unicode label INTERACTION_MAX_OPTION_LABEL_COLUMNS⟩

/-- The loop of `pack_options`. -/
def packOptions : List InteractionOption → List InteractionOption → List InteractionOption
  | [], packed => packed
  | option :: rest, packed =>
      if INTERACTION_MAX_OPTIONS ≤ packed.length then packed
      else if ¬ hasVisibleContent unicode option.label then packOptions rest packed
      else if packed.any fun existing => existing.id = option.id then packOptions rest packed
      else packOptions rest (packed ++ [option])

theorem packOptions_length {options packed : List InteractionOption}
    (h : packed.length ≤ INTERACTION_MAX_OPTIONS) :
    (packOptions unicode options packed).length ≤ INTERACTION_MAX_OPTIONS := by
  induction options generalizing packed with
  | nil => exact h
  | cons option rest ih =>
      rw [packOptions]
      split
      · exact h
      · split
        · exact ih h
        · split
          · exact ih h
          · apply ih
            rw [List.length_append, List.length_singleton]
            omega

end

structure InteractionPrompt where
  requestId : List Char
  title : List Char
  bodyLines : List (List Char)
  options : List InteractionOption
  options_le : options.length ≤ INTERACTION_MAX_OPTIONS
  deriving DecidableEq

def InteractionPrompt.new {Value : Type} (unicode : Unicode Value)
    (requestId title body : List Char) (options : List InteractionOption) :
    Except InteractionIdError InteractionPrompt := do
  let title := boundLine unicode title INTERACTION_MAX_TITLE_COLUMNS
  let requestId ← validateIdentifier requestId INTERACTION_MAX_REQUEST_ID_CHARS "request ID"
  return {
    requestId
    title := if hasVisibleContent unicode title then title else INTERACTION_TITLE
    bodyLines := boundBodyLines unicode body
    options := packOptions unicode options []
    options_le := packOptions_length unicode (Nat.zero_le _) }

/-- The digit of the option at this place. -/
def optionKey (index : Nat) : Option Char :=
  if INTERACTION_MAX_OPTIONS ≤ index then none else some (Char.ofNat (FIRST_OPTION_KEY + index))

def InteractionPrompt.optionForKey (self : InteractionPrompt) (key : Char) :
    Option InteractionOption :=
  self.options.zipIdx.findSome? fun (option, index) =>
    if optionKey index = some key then some option else none

def InteractionPrompt.presentableIn (self : InteractionPrompt) (viewport : Viewport) : Bool :=
  isReadable viewport self.options.length

inductive InteractionResponse where
  | Selected (optionId : List Char)
  | Cancelled
  deriving DecidableEq

/-- The option of a key is the one at the place of its digit. -/
theorem InteractionPrompt.optionForKey_eq_some {self : InteractionPrompt} {key : Char}
    {option : InteractionOption} (h : self.optionForKey key = some option) :
    ∃ index, optionKey index = some key ∧ self.options[index]? = some option := by
  obtain ⟨⟨found, index⟩, hmem, hfound⟩ := List.exists_of_findSome?_eq_some h
  dsimp only at hfound
  split at hfound
  · rename_i hkey
    refine ⟨index, hkey, ?_⟩
    rw [← Option.some.inj hfound]
    exact (List.mk_mem_zipIdx_iff_getElem? ..).1 hmem
  · cases hfound

/-! ## The options of a prompt -/

/-- The loop adds visible options in their order, with no identifier twice; it leaves one out only
behind nine others or for its identifier. -/
theorem packOptions_packs {Value : Type} (unicode : Unicode Value)
    (options packed : List InteractionOption) :
    ∃ kept, packOptions unicode options packed = packed ++ kept ∧ kept.Sublist options ∧
      (∀ option ∈ kept, hasVisibleContent unicode option.label = true) ∧
      ((packed.map (·.id)).Nodup → ((packed ++ kept).map (·.id)).Nodup) ∧
      ∀ option ∈ options, hasVisibleContent unicode option.label = true →
        option.id ∈ (packed ++ kept).map (·.id) ∨
          INTERACTION_MAX_OPTIONS ≤ (packed ++ kept).length := by
  fun_induction packOptions unicode options packed with
  | case1 packed => exact ⟨[], by simp⟩
  | case2 option rest packed hfull =>
      exact ⟨[], by simp, List.nil_sublist _, nofun, by simp, fun _ _ _ => by simp [hfull]⟩
  | case3 option rest packed hroom hblank ih =>
      obtain ⟨kept, heq, hsublist, hvisible, hdistinct, hcomplete⟩ := ih
      refine ⟨kept, heq, hsublist.cons option, hvisible, hdistinct, ?_⟩
      grind
  | case4 option rest packed hroom hvisible hknown ih =>
      obtain ⟨kept, heq, hsublist, hvisible, hdistinct, hcomplete⟩ := ih
      have hin : option.id ∈ packed.map (·.id) := by simpa using hknown
      refine ⟨kept, heq, hsublist.cons option, hvisible, hdistinct, ?_⟩
      grind
  | case5 option rest packed hroom hlabel hnew ih =>
      obtain ⟨kept, heq, hsublist, hvisible, hdistinct, hcomplete⟩ := ih
      have hout : option.id ∉ packed.map (·.id) := by simpa using hnew
      rw [List.append_assoc, List.singleton_append] at heq hdistinct hcomplete
      refine ⟨option :: kept, heq, hsublist.cons_cons option, by grind, fun h => hdistinct ?_, ?_⟩
      · rw [List.map_append]
        exact h.append (List.nodup_singleton _) (by simpa using hout)
      · grind

/-- A prompt gets visible options in their order, with no identifier twice; a visible one is left
out only behind nine others or for its identifier. -/
theorem options_packed {Value : Type} (unicode : Unicode Value)
    (options : List InteractionOption) :
    (packOptions unicode options []).Sublist options ∧
    ((packOptions unicode options []).map (·.id)).Nodup ∧
    (∀ option ∈ packOptions unicode options [],
      hasVisibleContent unicode option.label = true) ∧
    ∀ option ∈ options, hasVisibleContent unicode option.label = true →
      option.id ∈ (packOptions unicode options []).map (·.id) ∨
        (packOptions unicode options []).length = INTERACTION_MAX_OPTIONS := by
  obtain ⟨kept, heq, hsublist, hvisible, hdistinct, hcomplete⟩ :=
    packOptions_packs unicode options []
  have hle : (packOptions unicode options []).length ≤ INTERACTION_MAX_OPTIONS :=
    packOptions_length unicode (Nat.zero_le _)
  rw [List.nil_append] at heq hdistinct hcomplete
  rw [heq] at hle ⊢
  exact ⟨hsublist, hdistinct List.nodup_nil, hvisible, fun option hin hlabel =>
    (hcomplete option hin hlabel).imp_right hle.antisymm⟩

end MCode.Tui.App
