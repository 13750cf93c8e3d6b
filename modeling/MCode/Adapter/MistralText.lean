import MCode.Adapter.Derived
import MCode.Lib.Trim
import MCode.Validation.WireLength

/-!
# The text of a tool result

`MistralTextPlan` measures the joined texts of a tool result without joining them:
the blanks at both ends, the length of what is left and of its JSON string.  Then
it copies the pieces of the texts that are inside.

Here the plan is compared with the text that it stands for: the texts joined by
line feeds, without the blanks at both ends, or a placeholder where nothing is
left.
-/

namespace MCode.Adapter

open MCode.Lib
open MCode.Validation (ValidationResult Text MAX_LOGICAL_CHARGE U64_MAX utf8Len utf8Len_cons
  utf8Len_append checkedAdd checkedAdd_fits checkedLen escapeChar serializeString)

/-! ## What the text should be -/

/-- The joined texts without the blanks at both ends. -/
def trimmedTexts (texts : List String) : Text := Trim.trim isMistralTrim (joinedTexts texts)

def mistralFront (isError : Bool) : Text := if isError then "[tool error] ".toList else []

def mistralPlaceholder (hasImages : Bool) : Text :=
  if hasImages then "(see attached image)".toList else "(no tool output)".toList

/-- The text that stands for a tool result. -/
def mistralText (texts : List String) (hasImages isError : Bool) : Text :=
  mistralFront isError ++
    if trimmedTexts texts = [] then mistralPlaceholder hasImages else trimmedTexts texts

/-! ## Ranges of bytes -/

/-- The characters of a text at `offset` that start in the range. -/
def within (start stop : Nat) : Text → Nat → Text
  | [], _ => []
  | c :: text, offset =>
      if start ≤ offset ∧ offset < stop then c :: within start stop text (offset + c.utf8Size)
      else within start stop text (offset + c.utf8Size)

variable {start stop offset : Nat} {text : Text}

theorem within_cons (start stop : Nat) (c : Char) (text : Text) (offset : Nat) :
    within start stop (c :: text) offset =
      if start ≤ offset ∧ offset < stop then c :: within start stop text (offset + c.utf8Size)
      else within start stop text (offset + c.utf8Size) := rfl

theorem within_append (start stop : Nat) (front rest : Text) (offset : Nat) :
    within start stop (front ++ rest) offset =
      within start stop front offset ++ within start stop rest (offset + utf8Len front) := by
  induction front generalizing offset with
  | nil => rfl
  | cons c front ih =>
      rw [List.cons_append, utf8Len_cons, ← Nat.add_assoc, within_cons, within_cons]
      split
      · rw [ih, List.cons_append]
      · rw [ih]

/-- No character starts in the range. -/
theorem within_none
    (h : ∀ place, offset ≤ place → place < offset + utf8Len text → start ≤ place →
      stop ≤ place) : within start stop text offset = [] := by
  induction text generalizing offset with
  | nil => rfl
  | cons c text ih =>
      have hsize := Char.utf8Size_pos c
      rw [utf8Len_cons] at h
      rw [within_cons, if_neg]
      · apply ih
        intro place hle hlt hstart
        exact h place (by omega) (by omega) hstart
      · rintro ⟨hstart, hstop⟩
        have hle := h offset (Nat.le_refl _) (by omega) hstart
        omega

/-- The whole text is in the range. -/
theorem within_all (hstart : start ≤ offset) (hstop : offset + utf8Len text ≤ stop) :
    within start stop text offset = text := by
  induction text generalizing offset with
  | nil => rfl
  | cons c text ih =>
      have hsize := Char.utf8Size_pos c
      rw [utf8Len_cons] at hstop
      rw [within_cons, if_pos ⟨hstart, by omega⟩, ih (by omega) (by omega)]

/-- A range that consists of whole pieces of the text. -/
theorem within_split {front middle rest : Text} (hstart : offset + utf8Len front = start)
    (hstop : start + utf8Len middle = stop) :
    within start stop (front ++ (middle ++ rest)) offset = middle := by
  rw [within_append, within_append, within_none, within_all (by omega) (by omega), within_none]
  · rw [List.nil_append, List.append_nil]
  · intro place hle hlt hplace
    omega
  · intro place hle hlt hplace
    omega

/-! ## Copying -/

theorem splitAtByte_append (front rest : Text) :
    splitAtByte (front ++ rest) (utf8Len front) = some (front, rest) := by
  induction front with
  | nil => cases rest <;> rfl
  | cons c front ih =>
      have hsize := Char.utf8Size_pos c
      obtain ⟨size, hlength⟩ : ∃ size, utf8Len (c :: front) = size + 1 :=
        ⟨utf8Len (c :: front) - 1, by rw [utf8Len_cons]; omega⟩
      rw [hlength, List.cons_append]
      unfold splitAtByte
      rw [utf8Len_cons] at hlength
      rw [if_pos (by omega), show size + 1 - c.utf8Size = utf8Len front by omega, ih]
      rfl

theorem byteRange_split (front middle rest : Text) :
    byteRange (front ++ (middle ++ rest)) (utf8Len front) (utf8Len front + utf8Len middle) =
      some middle := by
  unfold byteRange
  rw [← List.append_assoc, ← utf8Len_append, splitAtByte_append]
  rw [Option.bind_eq_bind, Option.bind_some]
  dsimp only
  rw [splitAtByte_append]
  rfl

/-- No character of the text goes across the place. -/
def Clean (text : Text) (offset place : Nat) : Prop :=
  place ≤ offset ∨ offset + utf8Len text ≤ place ∨
    ∃ front rest, text = front ++ rest ∧ offset + utf8Len front = place

/-- The place where a range is cut off at the ends of a segment. -/
theorem Clean.clamp {place : Nat} (h : Clean text offset place) :
    ∃ front rest, text = front ++ rest ∧
      min (max place offset) (offset + utf8Len text) = offset + utf8Len front := by
  obtain hbefore | hbehind | ⟨front, rest, rfl, hplace⟩ := h
  · refine ⟨[], text, rfl, ?_⟩
    show _ = offset + 0
    omega
  · refine ⟨text, [], (List.append_nil text).symm, ?_⟩
    omega
  · refine ⟨front, rest, rfl, ?_⟩
    rw [utf8Len_append]
    omega

theorem segmentPart_eq (hstart : Clean text offset start) (hstop : Clean text offset stop) :
    segmentPart text start stop offset = .ok (within start stop text offset) := by
  obtain ⟨front, rest, htext, hfirst⟩ := hstart.clamp
  obtain ⟨whole, behind, hwhole, hlast⟩ := hstop.clamp
  have hlength := congrArg utf8Len htext
  rw [utf8Len_append] at hlength
  have hlength' := congrArg utf8Len hwhole
  rw [utf8Len_append] at hlength'
  unfold segmentPart
  dsimp only
  rw [hfirst, hlast]
  by_cases hlt : offset + utf8Len front < offset + utf8Len whole
  · obtain ⟨middle, rfl⟩ : ∃ middle, whole = front ++ middle := by
      have hsame := htext.symm.trans hwhole
      obtain ⟨more, hmore, -⟩ | ⟨more, hmore, -⟩ := List.append_eq_append_iff.1 hsame
      · exact ⟨more, hmore⟩
      · rw [hmore, utf8Len_append] at hlt
        omega
    rw [utf8Len_append] at hlt hlast hlength'
    rw [List.append_assoc] at hwhole
    rw [if_pos (by rw [utf8Len_append]; omega), Nat.add_sub_cancel_left, Nat.add_sub_cancel_left,
      utf8Len_append, hwhole, byteRange_split]
    rw [hwhole, utf8Len_append, utf8Len_append] at hfirst hlast
    show Except.ok middle = _
    rw [within_append, within_append, within_none, within_all, within_none]
    · rw [List.nil_append, List.append_nil]
    · intro place hle hlt' hplace
      omega
    · omega
    · omega
    · intro place hle hlt' hplace
      omega
  · rw [if_neg hlt, within_none]
    intro place hle hlt' hplace
    omega

/-- A place between the characters of two texts is between those of each. -/
theorem Clean.append {segment rest : Text} {place : Nat}
    (h : Clean (segment ++ rest) offset place) :
    Clean segment offset place ∧ Clean rest (offset + utf8Len segment) place := by
  unfold Clean at h
  rw [utf8Len_append] at h
  obtain hbefore | hbehind | ⟨front, behind, hsame, hplace⟩ := h
  · exact ⟨Or.inl hbefore, Or.inl (by omega)⟩
  · exact ⟨Or.inr (Or.inl (by omega)), Or.inr (Or.inl (by omega))⟩
  obtain ⟨more, rfl, hrest⟩ | ⟨more, rfl, -⟩ := List.append_eq_append_iff.1 hsame
  · rw [utf8Len_append] at hplace
    exact ⟨Or.inr (Or.inl (by omega)), Or.inr (Or.inr ⟨more, behind, hrest, by omega⟩)⟩
  · refine ⟨Or.inr (Or.inr ⟨front, more, rfl, hplace⟩), Or.inl ?_⟩
    rw [utf8Len_append]
    omega

/-- The pieces that are copied make up the range. -/
theorem joinedRange_eq {segments : List Text} (hstart : Clean segments.flatten offset start)
    (hstop : Clean segments.flatten offset stop)
    (hfits : offset + utf8Len segments.flatten ≤ U64_MAX) :
    joinedRange start stop segments offset =
      .ok (within start stop segments.flatten offset) := by
  induction segments generalizing offset with
  | nil => rfl
  | cons segment segments ih =>
      rw [List.flatten_cons] at hstart hstop hfits ⊢
      rw [utf8Len_append] at hfits
      obtain ⟨hfirst, hrest⟩ := hstart.append
      obtain ⟨hlast, hmore⟩ := hstop.append
      unfold joinedRange
      rw [segmentPart_eq hfirst hlast, checkedAdd_fits (by omega), within_append]
      show (do
        let rest ← joinedRange start stop segments (offset + utf8Len segment)
        return within start stop segment offset ++ rest) = _
      rw [ih hrest hmore (by omega)]
      rfl

/-! ## Counting -/

/-- What a JSON string escapes by a backslash. -/
def isJsonEscape (c : Char) : Bool := c == '"' || c == '\\' || c == '\t' || c == '\n'

theorem utf8Len_jsonString (text : Text) :
    utf8Len (serializeString (String.ofList text)) =
      2 + utf8Len text + text.countP isJsonEscape := by
  have hone (c : Char) :
      utf8Len (escapeChar c) = c.utf8Size + if isJsonEscape c then 1 else 0 := by
    by_cases hquote : c = '"'
    · subst hquote
      rfl
    by_cases hslash : c = '\\'
    · subst hslash
      rfl
    by_cases htab : c = '\t'
    · subst htab
      rfl
    by_cases hline : c = '\n'
    · subst hline
      rfl
    simp [escapeChar, isJsonEscape, hquote, hslash, htab, hline, utf8Len]
  have hchars : utf8Len (text.flatMap escapeChar) =
      utf8Len text + text.countP isJsonEscape := by
    induction text with
    | nil => rfl
    | cons c text ih =>
        rw [List.flatMap_cons, utf8Len_append, ih, hone, utf8Len_cons, List.countP_cons]
        omega
  unfold serializeString
  rw [String.toList_ofList, List.cons_append, utf8Len_cons, utf8Len_append, hchars]
  show 1 + (_ + 1) = _
  omega

theorem escapeCount_eq {escapes : Nat} (hfits : offset + utf8Len text ≤ U64_MAX)
    (hescapes : escapes + utf8Len text ≤ U64_MAX) :
    escapeCount start stop text offset escapes =
      .ok (escapes + (within start stop text offset).countP isJsonEscape) := by
  induction text generalizing offset escapes with
  | nil => rfl
  | cons c text ih =>
      have hsize := Char.utf8Size_pos c
      rw [utf8Len_cons] at hfits hescapes
      unfold escapeCount
      dsimp only
      rw [within_cons]
      by_cases hin : start ≤ offset ∧ offset < stop
      · rw [if_pos hin, List.countP_cons]
        by_cases hescape : isJsonEscape c = true
        · rw [if_pos (by simpa [isJsonEscape, hin] using hescape), checkedAdd_fits (by omega),
            checkedAdd_fits (by omega), if_pos hescape]
          show escapeCount start stop text (offset + c.utf8Size) (escapes + 1) = _
          rw [ih (by omega) (by omega)]
          congr 1
          omega
        · rw [if_neg (by simpa [isJsonEscape, hin] using hescape), checkedAdd_fits (by omega),
            if_neg hescape]
          exact ih (by omega) (by omega)
      · have hout : (decide (start ≤ offset) && decide (offset < stop)) = false := by
          rw [← Bool.decide_and]
          exact decide_eq_false hin
        rw [if_neg hin, hout, if_neg (by simp), checkedAdd_fits (by omega)]
        exact ih (by omega) (by omega)

theorem accountTrim_cons {c : Char} {total leading : Nat} {leadingOpen : Bool}
    (hfits : total + c.utf8Size ≤ U64_MAX) (hle : leading ≤ total) :
    accountTrim (c :: text) total leading leadingOpen =
      if leadingOpen && isMistralTrim c then
        accountTrim text (total + c.utf8Size) (leading + c.utf8Size) true
      else accountTrim text (total + c.utf8Size) leading false := by
  conv_lhs => unfold accountTrim
  rw [checkedAdd_fits hfits, checkedAdd_fits (show leading + c.utf8Size ≤ U64_MAX by omega)]
  rfl

/-- The lengths of the text and of the blanks in front, where they fit. -/
theorem accountTrim_eq {total leading : Nat} {leadingOpen : Bool} (htotal : total ≤ U64_MAX)
    (hle : leading ≤ total) :
    accountTrim text total leading leadingOpen =
      if total + utf8Len text ≤ U64_MAX then
        .ok (total + utf8Len text,
          leading + if leadingOpen then utf8Len (text.takeWhile isMistralTrim) else 0)
      else .error .Limit := by
  induction text generalizing total leading leadingOpen with
  | nil =>
      rw [if_pos (show total + utf8Len [] ≤ U64_MAX from htotal)]
      cases leadingOpen <;> rfl
  | cons c text ih =>
      have hsize := Char.utf8Size_pos c
      rw [utf8Len_cons, ← Nat.add_assoc]
      by_cases hfits : total + c.utf8Size ≤ U64_MAX
      · rw [accountTrim_cons hfits hle]
        by_cases hblank : (leadingOpen && isMistralTrim c) = true
        · obtain ⟨rfl, htrim⟩ := Bool.and_eq_true_iff.1 hblank
          rw [if_pos hblank, ih hfits (by omega), if_pos rfl, if_pos rfl,
            List.takeWhile_cons_of_pos htrim, utf8Len_cons, Nat.add_assoc leading]
        · rw [if_neg hblank, ih hfits (by omega)]
          cases leadingOpen with
          | true =>
              rw [Bool.true_and] at hblank
              rw [List.takeWhile_cons_of_neg hblank]
              rfl
          | false => rfl
      · rw [if_neg (by omega)]
        unfold accountTrim checkedAdd
        rw [if_neg hfits]
        rfl

theorem accountTrailing_eq {trailing : Nat} (hfits : trailing + utf8Len text ≤ U64_MAX) :
    accountTrailing text trailing =
      .ok (trailing + utf8Len (text.takeWhile isMistralTrim)) := by
  induction text generalizing trailing with
  | nil => rfl
  | cons c text ih =>
      rw [utf8Len_cons] at hfits
      unfold accountTrailing
      by_cases hblank : isMistralTrim c = true
      · rw [if_pos hblank, checkedAdd_fits (by omega), List.takeWhile_cons_of_pos hblank,
          utf8Len_cons]
        show accountTrailing text (trailing + c.utf8Size) = _
        rw [ih (by omega), Nat.add_assoc]
      · rw [if_neg hblank, List.takeWhile_cons_of_neg hblank]
        rfl

/-! ## The plan -/

/-- What the plan should be. -/
def measured (texts : List String) (hasImages isError : Bool) : MistralTextPlan where
  start := utf8Len ((joinedTexts texts).takeWhile isMistralTrim)
  stop := utf8Len ((joinedTexts texts).takeWhile isMistralTrim) + utf8Len (trimmedTexts texts)
  front := if isError then "[tool error] " else ""
  placeholder :=
    if trimmedTexts texts = [] then
      some (if hasImages then "(see attached image)" else "(no tool output)")
    else none
  resultLength := utf8Len (mistralText texts hasImages isError)
  serializedLength :=
    utf8Len (serializeString (String.ofList (mistralText texts hasImages isError)))

theorem ok_bind {α β : Type} (a : α) (f : α → ValidationResult β) :
    (Except.ok a : ValidationResult α) >>= f = f a := rfl

theorem utf8Len_reverse (text : Text) : utf8Len text.reverse = utf8Len text := by
  unfold utf8Len
  rw [List.map_reverse, List.sum_reverse]

theorem utf8Len_pos (h : text ≠ []) : 0 < utf8Len text := by
  cases text with
  | nil => exact absurd rfl h
  | cons c text =>
      have hsize := Char.utf8Size_pos c
      rw [utf8Len_cons]
      omega

theorem countP_le_utf8Len (p : Char → Bool) (text : Text) : text.countP p ≤ utf8Len text := by
  induction text with
  | nil => exact Nat.le_refl _
  | cons c text ih =>
      have hsize := Char.utf8Size_pos c
      rw [List.countP_cons, utf8Len_cons]
      split <;> omega

theorem joined_split (texts : List String) :
    joinedTexts texts = (joinedTexts texts).takeWhile isMistralTrim ++
      (trimmedTexts texts ++ Trim.back isMistralTrim (joinedTexts texts)) :=
  (Trim.split _).symm

theorem utf8Len_joined (texts : List String) :
    utf8Len (joinedTexts texts) = utf8Len ((joinedTexts texts).takeWhile isMistralTrim) +
      (utf8Len (trimmedTexts texts) + utf8Len (Trim.back isMistralTrim (joinedTexts texts))) := by
  conv_lhs => rw [joined_split]
  rw [utf8Len_append, utf8Len_append]

/-- The range of the plan is what is left of the joined texts. -/
theorem within_trimmed (texts : List String) :
    within (measured texts false false).start (measured texts false false).stop
      (joinedTexts texts) 0 = trimmedTexts texts := by
  calc within (measured texts false false).start (measured texts false false).stop
          (joinedTexts texts) 0
      = within (measured texts false false).start (measured texts false false).stop
          ((joinedTexts texts).takeWhile isMistralTrim ++
            (trimmedTexts texts ++ Trim.back isMistralTrim (joinedTexts texts))) 0 :=
        congrArg (fun text => within _ _ text 0) (joined_split texts)
    _ = trimmedTexts texts := within_split (Nat.zero_add _) rfl

theorem front_length (isError : Bool) :
    utf8Len (if isError then "[tool error] " else "").toList = utf8Len (mistralFront isError) ∧
      utf8Len (mistralFront isError) ≤ 20 ∧ (mistralFront isError).countP isJsonEscape = 0 := by
  cases isError <;> decide

theorem placeholder_length (hasImages : Bool) :
    utf8Len (if hasImages then "(see attached image)" else "(no tool output)").toList =
        utf8Len (mistralPlaceholder hasImages) ∧
      utf8Len (mistralPlaceholder hasImages) ≤ 40 ∧
      (mistralPlaceholder hasImages).countP isJsonEscape = 0 := by
  cases hasImages <;> decide

variable {texts : List String} {hasImages isError : Bool}

/-- Where everything is blank, the placeholder is measured. -/
theorem new_blank (hfits : utf8Len (joinedTexts texts) ≤ MAX_LOGICAL_CHARGE)
    (hblank : ∀ c ∈ joinedTexts texts, isMistralTrim c = true) :
    MistralTextPlan.new texts hasImages isError =
      if utf8Len (mistralText texts hasImages isError) > MAX_LOGICAL_CHARGE then .error .Limit
      else .ok (measured texts hasImages isError) := by
  have hmax : MAX_LOGICAL_CHARGE + 100 ≤ U64_MAX := by decide
  have hnil : trimmedTexts texts = [] := Trim.trim_of_all hblank
  have hall := Trim.takeWhile_of_all hblank
  obtain ⟨hfront, hshort, hescapes⟩ := front_length isError
  obtain ⟨hplaceholder, hsmall, hnone⟩ := placeholder_length hasImages
  have htext : mistralText texts hasImages isError =
      mistralFront isError ++ mistralPlaceholder hasImages := by
    unfold mistralText
    rw [if_pos hnil]
  have hlength : utf8Len (mistralText texts hasImages isError) =
      utf8Len (mistralFront isError) + utf8Len (mistralPlaceholder hasImages) := by
    rw [htext, utf8Len_append]
  have hserialized : utf8Len (serializeString
      (String.ofList (mistralText texts hasImages isError))) =
        2 + utf8Len (mistralText texts hasImages isError) + 0 := by
    rw [utf8Len_jsonString, htext, List.countP_append, hescapes, hnone]
  have hbody (start stop : Nat) :
      bodyLength (some (if hasImages then "(see attached image)" else "(no tool output)")) start
        stop = .ok (utf8Len (mistralPlaceholder hasImages)) := by
    rw [← hplaceholder]
    exact if_pos (by omega)
  have hstop : checkedSub (utf8Len (joinedTexts texts)) 0 = .ok (utf8Len (joinedTexts texts)) :=
    if_pos (Nat.zero_le _)
  have hfrontLen : checkedLen (utf8Len (mistralFront isError)) =
      .ok (utf8Len (mistralFront isError)) := if_pos (by omega)
  unfold MistralTextPlan.new
  dsimp only
  rw [accountTrim_eq (Nat.zero_le _) (Nat.le_refl _), if_pos (by omega), if_pos rfl, Nat.zero_add,
    Nat.zero_add, ok_bind]
  dsimp only
  rw [if_neg (by omega), hfront, hall, if_neg (Nat.lt_irrefl _), ok_bind, hstop, ok_bind,
    if_neg (Nat.lt_irrefl _), hbody, ok_bind, hfrontLen, ok_bind, checkedAdd_fits (by omega),
    ok_bind, Option.isSome_some, if_pos rfl, ok_bind, checkedAdd_fits (by omega), ok_bind,
    checkedAdd_fits (by omega), ok_bind, ← hlength, ← hserialized]
  unfold measured
  rw [hall, if_pos hnil, hnil]
  rfl

/-- Where something stays, it is measured. -/
theorem new_kept (hfits : utf8Len (joinedTexts texts) ≤ MAX_LOGICAL_CHARGE)
    (hblank : ¬∀ c ∈ joinedTexts texts, isMistralTrim c = true) :
    MistralTextPlan.new texts hasImages isError =
      if utf8Len (mistralText texts hasImages isError) > MAX_LOGICAL_CHARGE then .error .Limit
      else .ok (measured texts hasImages isError) := by
  have hmax : MAX_LOGICAL_CHARGE + MAX_LOGICAL_CHARGE + 100 ≤ U64_MAX := by decide
  have hne : trimmedTexts texts ≠ [] := Trim.trim_ne_nil hblank
  have hpos := utf8Len_pos hne
  have htotal := utf8Len_joined texts
  have hcount := countP_le_utf8Len isJsonEscape (trimmedTexts texts)
  obtain ⟨hfront, hshort, hescapes⟩ := front_length isError
  have htext : mistralText texts hasImages isError =
      mistralFront isError ++ trimmedTexts texts := by
    unfold mistralText
    rw [if_neg hne]
  have hlength : utf8Len (mistralText texts hasImages isError) =
      utf8Len (mistralFront isError) + utf8Len (trimmedTexts texts) := by
    rw [htext, utf8Len_append]
  have hserialized : utf8Len (serializeString
      (String.ofList (mistralText texts hasImages isError))) =
        2 + utf8Len (mistralText texts hasImages isError) +
          (trimmedTexts texts).countP isJsonEscape := by
    rw [utf8Len_jsonString, htext, List.countP_append, hescapes, Nat.zero_add]
  have hescapes : escapeCount (utf8Len ((joinedTexts texts).takeWhile isMistralTrim))
      (utf8Len ((joinedTexts texts).takeWhile isMistralTrim) + utf8Len (trimmedTexts texts))
      (joinedTexts texts) 0 0 = .ok ((trimmedTexts texts).countP isJsonEscape) := by
    rw [escapeCount_eq (by omega) (by omega), Nat.zero_add]
    exact congrArg (fun text : Text => Except.ok (text.countP isJsonEscape)) (within_trimmed texts)
  have hstop : checkedSub (utf8Len (joinedTexts texts))
      (utf8Len (Trim.back isMistralTrim (joinedTexts texts))) =
        .ok (utf8Len ((joinedTexts texts).takeWhile isMistralTrim) +
          utf8Len (trimmedTexts texts)) := by
    unfold checkedSub
    rw [if_pos (by omega)]
    congr 1
    omega
  have hbody : bodyLength none (utf8Len ((joinedTexts texts).takeWhile isMistralTrim))
      (utf8Len ((joinedTexts texts).takeWhile isMistralTrim) + utf8Len (trimmedTexts texts)) =
        .ok (utf8Len (trimmedTexts texts)) := by
    unfold bodyLength checkedSub
    dsimp only
    rw [if_pos (Nat.le_add_right _ _), Nat.add_sub_cancel_left]
  have hfrontLen : checkedLen (utf8Len (mistralFront isError)) =
      .ok (utf8Len (mistralFront isError)) := if_pos (by omega)
  unfold MistralTextPlan.new
  dsimp only
  rw [accountTrim_eq (Nat.zero_le _) (Nat.le_refl _), if_pos (by omega), if_pos rfl, Nat.zero_add,
    Nat.zero_add, ok_bind]
  dsimp only
  rw [if_neg (by omega), hfront, if_pos (by omega),
    accountTrailing_eq (by rw [utf8Len_reverse]; omega), ok_bind, Trim.takeWhile_reverse hblank,
    utf8Len_reverse, Nat.zero_add, hstop, ok_bind, if_pos (by omega), hbody, ok_bind, hfrontLen,
    ok_bind, checkedAdd_fits (by omega), ok_bind, Option.isSome_none, if_neg Bool.false_ne_true,
    hescapes, ok_bind, checkedAdd_fits (by omega), ok_bind, checkedAdd_fits (by omega), ok_bind,
    ← hlength, ← hserialized]
  unfold measured
  rw [if_neg hne]
  rfl

/-- What is built is the text that the plan stands for. -/
theorem build_eq (hfits : utf8Len (joinedTexts texts) ≤ MAX_LOGICAL_CHARGE) :
    (measured texts hasImages isError).build texts =
      .ok (String.ofList (mistralText texts hasImages isError)) := by
  have hmax : MAX_LOGICAL_CHARGE ≤ U64_MAX := by decide
  have hjoined : (segmentsOf texts).flatten = joinedTexts texts := rfl
  have hclean (front rest : Text) (h : joinedTexts texts = front ++ rest) :
      Clean (segmentsOf texts).flatten 0 (utf8Len front) :=
    Or.inr (Or.inr ⟨front, rest, hjoined.trans h, Nat.zero_add _⟩)
  have hbody : (measured texts hasImages isError).body texts =
      .ok (if trimmedTexts texts = [] then mistralPlaceholder hasImages
        else trimmedTexts texts) := by
    unfold MistralTextPlan.body measured
    dsimp only
    by_cases hnil : trimmedTexts texts = []
    · rw [if_pos hnil, if_pos hnil]
      cases hasImages <;> rfl
    · rw [if_neg hnil, if_neg hnil]
      dsimp only
      rw [joinedRange_eq (hclean _ _ (joined_split texts)) ?_ (by rw [hjoined]; omega), hjoined]
      · exact congrArg Except.ok (within_trimmed texts)
      · rw [← utf8Len_append]
        apply hclean _ (Trim.back isMistralTrim (joinedTexts texts))
        rw [List.append_assoc]
        exact joined_split texts
  have hfront : (measured texts hasImages isError).front.toList = mistralFront isError := by
    cases isError <;> rfl
  unfold MistralTextPlan.build
  rw [hbody, ok_bind]
  dsimp only
  rw [hfront]
  show (if (utf8Len (mistralText texts hasImages isError) !=
      utf8Len (mistralText texts hasImages isError)) = true then _ else _) = _
  rw [if_neg (by simp)]
  rfl

theorem new_long {texts : List String} (hasImages isError : Bool)
    (h : ¬ utf8Len (joinedTexts texts) ≤ MAX_LOGICAL_CHARGE) :
    MistralTextPlan.new texts hasImages isError = .error .Limit := by
  unfold MistralTextPlan.new
  dsimp only
  rw [accountTrim_eq (Nat.zero_le _) (Nat.le_refl _), Nat.zero_add]
  split
  · rw [ok_bind]
    exact if_pos (by omega)
  · rfl

theorem new_fits {texts : List String} (hasImages isError : Bool)
    (h : utf8Len (joinedTexts texts) ≤ MAX_LOGICAL_CHARGE) :
    MistralTextPlan.new texts hasImages isError =
      if utf8Len (mistralText texts hasImages isError) > MAX_LOGICAL_CHARGE then .error .Limit
      else .ok (measured texts hasImages isError) := by
  by_cases hblank : ∀ c ∈ joinedTexts texts, isMistralTrim c = true
  · exact new_blank h hblank
  · exact new_kept h hblank

theorem new_ok {texts : List String} {hasImages isError : Bool} {plan : MistralTextPlan}
    (h : MistralTextPlan.new texts hasImages isError = .ok plan) :
    plan.build texts = .ok (String.ofList (mistralText texts hasImages isError)) ∧
      plan = measured texts hasImages isError := by
  by_cases hfits : utf8Len (joinedTexts texts) ≤ MAX_LOGICAL_CHARGE
  · rw [new_fits _ _ hfits] at h
    split at h
    · cases h
    · cases h
      exact ⟨build_eq hfits, rfl⟩
  · rw [new_long _ _ hfits] at h
    cases h

/-- **The streaming plan is exact.**  A plan is made if and only if the joined texts and
the text that they stand for fit, and fails by the limit otherwise; and what is built from it
is that text, of the length that was predicted and with a JSON string of the length that was
predicted. -/
theorem mistral_text_exact (texts : List String) (hasImages isError : Bool) :
    (∀ plan, MistralTextPlan.new texts hasImages isError = .ok plan →
      plan.build texts = .ok (String.ofList (mistralText texts hasImages isError)) ∧
        plan.resultLength = utf8Len (mistralText texts hasImages isError) ∧
        plan.serializedLength =
          utf8Len (serializeString (String.ofList (mistralText texts hasImages isError)))) ∧
      ((∃ plan, MistralTextPlan.new texts hasImages isError = .ok plan) ↔
        utf8Len (joinedTexts texts) ≤ MAX_LOGICAL_CHARGE ∧
          utf8Len (mistralText texts hasImages isError) ≤ MAX_LOGICAL_CHARGE) ∧
      ∀ error, MistralTextPlan.new texts hasImages isError = .error error → error = .Limit := by
  by_cases hfits : utf8Len (joinedTexts texts) ≤ MAX_LOGICAL_CHARGE
  · rw [new_fits _ _ hfits]
    by_cases hlong : utf8Len (mistralText texts hasImages isError) > MAX_LOGICAL_CHARGE
    · rw [if_pos hlong]
      refine ⟨nofun, ?_, ?_⟩
      · constructor
        · rintro ⟨plan, hplan⟩
          cases hplan
        · rintro ⟨-, hshort⟩
          omega
      · rintro error ⟨⟩
        rfl
    · rw [if_neg hlong]
      refine ⟨?_, ?_, nofun⟩
      · rintro plan ⟨⟩
        exact ⟨build_eq hfits, rfl, rfl⟩
      · exact iff_of_true ⟨_, rfl⟩ ⟨hfits, by omega⟩
  · rw [new_long _ _ hfits]
    refine ⟨nofun, ?_, ?_⟩
    · constructor
      · rintro ⟨plan, hplan⟩
        cases hplan
      · rintro ⟨hshort, -⟩
        exact absurd hshort hfits
    · rintro error ⟨⟩
      rfl

end MCode.Adapter
