import MCode.Validation.WireText

/-!
# The measure of a wire document

`serialized_node_stats` adds up lengths and escapes by formula, before
`serialize_node` writes the text.  For an accepted document both agree: the
charge bounds the text, so that no sum overflows, and what is measured is the
length of the text and what its escapes add inside a JSON string.

The text of an accepted document has no control character, so quotes and
backslashes are all that a JSON string has to escape in it.
-/

namespace MCode.Validation

open MCode.Lib

/-! ## Escapes -/

/-- What a JSON string escapes by a backslash in a text without control characters. -/
def isEscaped (c : Char) : Bool := c == '"' || c == '\\'

/-- The characters that are escaped. -/
def escapes (text : Text) : Nat := text.countP isEscaped

theorem escapes_append (left right : Text) :
    escapes (left ++ right) = escapes left + escapes right := List.countP_append

theorem escapes_cons (c : Char) (text : Text) :
    escapes (c :: text) = escapes text + if isEscaped c then 1 else 0 := List.countP_cons

theorem escapes_le (text : Text) : escapes text ≤ utf8Len text := by
  induction text with
  | nil => exact Nat.le_refl _
  | cons c text ih =>
      have hsize : 0 < c.utf8Size := Char.utf8Size_pos c
      rw [escapes_cons, utf8Len_cons]
      split <;> omega

/-- No control character. -/
def Plain (text : Text) : Prop := ∀ c ∈ text, 32 ≤ c.toNat

theorem Plain.of_all {text : Text} (h : text.all (fun c => decide (32 ≤ c.toNat)) = true) :
    Plain text := by
  intro c hc
  exact of_decide_eq_true (List.all_eq_true.1 h c hc)

theorem Plain.append {left right : Text} (hleft : Plain left) (hright : Plain right) :
    Plain (left ++ right) := by
  intro c hc
  rcases List.mem_append.1 hc with hc | hc
  · exact hleft c hc
  · exact hright c hc

theorem Plain.cons {c : Char} {text : Text} (hc : 32 ≤ c.toNat) (htext : Plain text) :
    Plain (c :: text) := List.forall_mem_cons.2 ⟨hc, htext⟩

/-- A text without control characters, as a JSON string. -/
theorem utf8Len_serializeString {text : Text} (h : Plain text) :
    utf8Len (serializeString (String.ofList text)) = 2 + utf8Len text + escapes text := by
  have hchars : utf8Len (text.flatMap escapeChar) = utf8Len text + escapes text := by
    induction text with
    | nil => rfl
    | cons c text ih =>
        have hrest := ih fun d hd => h d (List.mem_cons_of_mem _ hd)
        have hplain : 32 ≤ c.toNat := h c List.mem_cons_self
        have hone : utf8Len (escapeChar c) = c.utf8Size + if isEscaped c then 1 else 0 := by
          by_cases hquote : c = '"'
          · subst hquote
            rfl
          by_cases hslash : c = '\\'
          · subst hslash
            rfl
          have htab : c ≠ '\t' := by
            rintro rfl
            exact absurd hplain (by decide)
          have hline : c ≠ '\n' := by
            rintro rfl
            exact absurd hplain (by decide)
          simp [escapeChar, isEscaped, hquote, hslash, htab, hline, utf8Len]
        rw [List.flatMap_cons, utf8Len_append, hrest, hone, escapes_cons, utf8Len_cons]
        omega
  unfold serializeString
  rw [String.toList_ofList, List.cons_append, utf8Len_cons, utf8Len_append, hchars]
  show 1 + (_ + 1) = _
  omega

/-! ## Sums that fit -/

/-- A run that adds the length of a text and its escapes to what was counted before,
as long as the length fits into 64 bits.  There are never more escapes than bytes. -/
def Measures (run : SerializedStats → ValidationResult SerializedStats) (text : Text) : Prop :=
  ∀ length count, count ≤ length → length + utf8Len text ≤ U64_MAX →
    run (length, count) = .ok (length + utf8Len text, count + escapes text)

theorem checkedAdd_fits {left right : Nat} (h : left + right ≤ U64_MAX) :
    checkedAdd left right = .ok (left + right) := if_pos h

theorem Measures.nil : Measures (fun stats => .ok stats) [] := by
  intro length count hle hfits
  rfl

/-- One run after the other. -/
theorem Measures.append {first second : SerializedStats → ValidationResult SerializedStats}
    {left right : Text} (hfirst : Measures first left) (hsecond : Measures second right) :
    Measures (fun stats => first stats >>= second) (left ++ right) := by
  intro length count hle hfits
  rw [utf8Len_append] at hfits ⊢
  have hescapes := escapes_le left
  show first (length, count) >>= second = _
  rw [hfirst length count hle (by omega)]
  show second (length + utf8Len left, count + escapes left) = _
  rw [hsecond _ _ (by omega) (by omega), escapes_append, Nat.add_assoc, Nat.add_assoc]

/-- What was measured by itself. -/
theorem addStats_fits {text : Text} {length count : Nat} (hle : count ≤ length)
    (hfits : length + utf8Len text ≤ U64_MAX) :
    addStats (length, count) (utf8Len text, escapes text) =
      .ok (length + utf8Len text, count + escapes text) := by
  have hescapes := escapes_le text
  show (checkedAdd length (utf8Len text) >>= fun length =>
    checkedAdd count (escapes text) >>= fun count => .ok (length, count)) = _
  rw [checkedAdd_fits hfits, checkedAdd_fits (show count + escapes text ≤ U64_MAX by omega)]
  rfl

theorem Measures.part (text : Text) :
    Measures (fun stats => addStats stats (utf8Len text, escapes text)) text := by
  intro length count hle hfits
  exact addStats_fits hle hfits

/-- One character of a string. -/
theorem serializedCharStats_cons {c : Char} {text : Text} {length count : Nat}
    (hle : count ≤ length) (hfits : length + utf8Len (escapeChar c) ≤ U64_MAX) :
    serializedCharStats (length, count) (c :: text) =
      serializedCharStats (length + utf8Len (escapeChar c), count + escapes (escapeChar c))
        text := by
  rw [serializedCharStats]
  by_cases hescaped : (c == '"' || c == '\\' || c == '\t' || c == '\n') = true
  · have hstats : escapes (escapeChar c) = (if c == '"' || c == '\\' then 1 else 0) + 1 ∧
        utf8Len (escapeChar c) = 2 := by
      simp only [Bool.or_eq_true, beq_iff_eq] at hescaped
      rcases hescaped with ((rfl | rfl) | rfl) | rfl <;> exact ⟨rfl, rfl⟩
    have hcount := escapes_le (escapeChar c)
    rw [if_pos hescaped, ← hstats.1]
    rw [hstats.2] at hfits hcount ⊢
    dsimp only
    rw [checkedAdd_fits hfits,
      checkedAdd_fits (show count + escapes (escapeChar c) ≤ U64_MAX by omega)]
    rfl
  · have hsame : escapeChar c = [c] ∧ isEscaped c = false := by
      simp only [Bool.or_eq_true, beq_iff_eq, not_or] at hescaped
      obtain ⟨⟨⟨hquote, hslash⟩, htab⟩, hline⟩ := hescaped
      simp [escapeChar, isEscaped, hquote, hslash, htab, hline]
    have hone : utf8Len (escapeChar c) = c.utf8Size ∧ escapes (escapeChar c) = 0 := by
      rw [hsame.1]
      simp [utf8Len, escapes, hsame.2]
    rw [if_neg hescaped, hone.2]
    rw [hone.1] at hfits ⊢
    dsimp only
    rw [checkedAdd_fits hfits]
    rfl

theorem Measures.chars (text : Text) :
    Measures (fun stats => serializedCharStats stats text) (text.flatMap escapeChar) := by
  induction text with
  | nil => exact Measures.nil
  | cons c text ih =>
      intro length count hle hfits
      rw [List.flatMap_cons, utf8Len_append] at hfits ⊢
      have hescapes := escapes_le (escapeChar c)
      show serializedCharStats (length, count) (c :: text) = _
      rw [serializedCharStats_cons hle (by omega)]
      have hrest := ih (length + utf8Len (escapeChar c)) (count + escapes (escapeChar c))
        (by omega) (by omega)
      rw [escapes_append, ← Nat.add_assoc, ← Nat.add_assoc]
      exact hrest

theorem utf8Len_serialized (value : String) :
    utf8Len (serializeString value) = 2 + utf8Len (value.toList.flatMap escapeChar) := by
  unfold serializeString
  rw [utf8Len_wrapped]
  show 1 + _ + 1 = _
  omega

theorem escapes_serialized (value : String) :
    escapes (serializeString value) = 2 + escapes (value.toList.flatMap escapeChar) := by
  unfold serializeString
  rw [List.cons_append, escapes_cons, escapes_append]
  show (_ + 1) + 1 = _
  omega

/-- A string that fits is measured as it is written. -/
theorem serializedStringStats_fits {value : String}
    (h : utf8Len (serializeString value) ≤ U64_MAX) :
    serializedStringStats value =
      .ok (utf8Len (serializeString value), escapes (serializeString value)) := by
  rw [utf8Len_serialized] at h
  rw [utf8Len_serialized, escapes_serialized]
  exact Measures.chars value.toList 2 2 (Nat.le_refl 2) h

theorem keyStats_measures (front : Option String) :
    Measures (fun stats => keyStats stats.1 stats.2 front) (frontText front) := by
  cases front with
  | none => exact Measures.nil
  | some key =>
      intro length count hle hfits
      have hescapes := escapes_le (serializeString key)
      have htext : utf8Len (frontText (some key)) = utf8Len (serializeString key) + 1 :=
        utf8Len_append _ _
      have hcount : escapes (frontText (some key)) = escapes (serializeString key) :=
        escapes_append _ _
      rw [htext] at hfits ⊢
      rw [hcount]
      show serializedStringStats key >>= (fun part => addStats (length, count) part >>=
        fun stats => checkedAdd stats.1 1 >>= fun length => .ok (length, stats.2)) = _
      rw [serializedStringStats_fits (by omega)]
      show addStats (length, count) _ >>= _ = _
      rw [addStats_fits hle (by omega)]
      show checkedAdd (length + utf8Len (serializeString key)) 1 >>= _ = _
      rw [checkedAdd_fits (by omega)]
      rfl

theorem frontStats_measures (front : Option String) (position : Nat) :
    Measures (frontStats front position)
      ((if position != 0 then [','] else []) ++ frontText front) := by
  by_cases hposition : position != 0
  · rw [if_pos hposition]
    intro length count hle hfits
    rw [utf8Len_append] at hfits
    have hcomma : utf8Len [','] = 1 := rfl
    rw [hcomma] at hfits
    rw [utf8Len_append, escapes_append, hcomma, ← Nat.add_assoc]
    unfold frontStats
    rw [if_pos hposition, checkedAdd_fits (show length + 1 ≤ U64_MAX by omega)]
    have hkey := keyStats_measures front (length + 1) count (by omega) (by omega)
    rw [show escapes [','] = 0 from rfl, Nat.zero_add]
    exact hkey
  · rw [if_neg hposition, List.nil_append]
    intro length count hle hfits
    unfold frontStats
    rw [if_neg hposition]
    exact keyStats_measures front length count hle hfits

/-- The children of a container, each of which is measured as it is written. -/
theorem partsStats_measures {parts : List (Option String × Rose WireLabel)} {position : Nat}
    (hparts : ∀ part ∈ parts, utf8Len (treeText part.2) ≤ U64_MAX →
      treeStats part.2 = .ok (utf8Len (treeText part.2), escapes (treeText part.2))) :
    Measures (partsStats (parts.map fun part => (part.1, treeStats part.2)) position)
      (joinParts (parts.map fun part => frontText part.1 ++ treeText part.2) position) := by
  induction parts generalizing position with
  | nil => exact Measures.nil
  | cons part parts ih =>
      obtain ⟨front, tree⟩ := part
      have hrest := @ih (position + 1) fun other hother =>
        hparts other (List.mem_cons_of_mem _ hother)
      intro length count hle hfits
      have htext : joinParts (((front, tree) :: parts).map fun part =>
            frontText part.1 ++ treeText part.2) position =
          ((if position != 0 then [','] else []) ++ frontText front) ++ (treeText tree ++
            joinParts (parts.map fun part => frontText part.1 ++ treeText part.2)
              (position + 1)) := by
        rw [List.map_cons, joinParts]
        simp only [List.append_assoc]
      rw [htext] at hfits ⊢
      have hchild : treeStats tree = .ok (utf8Len (treeText tree), escapes (treeText tree)) := by
        apply hparts _ List.mem_cons_self
        rw [utf8Len_append, utf8Len_append (treeText tree)] at hfits
        show utf8Len (treeText tree) ≤ U64_MAX
        omega
      have hall := Measures.append (frontStats_measures front position)
        (Measures.append (Measures.part (treeText tree)) hrest) length count hle hfits
      show frontStats front position (length, count) >>= (fun total =>
        (treeStats tree).bind (addStats total) >>=
          partsStats (parts.map fun part => (part.1, treeStats part.2)) (position + 1)) = _
      rw [hchild]
      exact hall

theorem escapes_wrapped (first last : Char) (text : Text) (hfirst : isEscaped first = false)
    (hlast : isEscaped last = false) : escapes (first :: text ++ [last]) = escapes text := by
  rw [List.cons_append, escapes_cons, escapes_append, escapes_cons, hfirst, hlast]
  rfl

/-- A container whose text fits is measured as it is written. -/
theorem partsStats_wrapped {parts : List (Option String × Rose WireLabel)} {first last : Char}
    (hfirst : first.utf8Size = 1 ∧ isEscaped first = false)
    (hlast : last.utf8Size = 1 ∧ isEscaped last = false) {text : Text}
    (htext : text = first :: joinParts
      (parts.map fun part => frontText part.1 ++ treeText part.2) 0 ++ [last])
    (hfits : utf8Len text ≤ U64_MAX)
    (hparts : ∀ part ∈ parts, utf8Len (treeText part.2) ≤ U64_MAX →
      treeStats part.2 = .ok (utf8Len (treeText part.2), escapes (treeText part.2))) :
    partsStats (parts.map fun part => (part.1, treeStats part.2)) 0 (2, 0) =
      .ok (utf8Len text, escapes text) := by
  rw [htext, utf8Len_wrapped, hfirst.1, hlast.1] at hfits
  rw [htext, utf8Len_wrapped, hfirst.1, hlast.1, escapes_wrapped _ _ _ hfirst.2 hlast.2]
  rw [partsStats_measures hparts 2 0 (Nat.zero_le 2) (by omega)]
  congr 2
  · omega
  · omega

/-- A number has no quote and no backslash. -/
theorem IsNumberChar.plain {c : Char} (h : IsNumberChar c) :
    32 ≤ c.toNat ∧ isEscaped c = false := by
  rcases h with h | rfl | rfl | rfl
  · simp only [isAsciiDigit, Bool.and_eq_true, decide_eq_true_eq] at h
    have hlow : '0'.toNat ≤ c.toNat := h.1
    have hhigh : c.toNat ≤ '9'.toNat := h.2
    refine ⟨Nat.le_trans (by decide) hlow, ?_⟩
    rw [isEscaped, Bool.or_eq_false_iff, beq_eq_false_iff_ne, beq_eq_false_iff_ne]
    constructor
    · rintro rfl
      exact absurd hlow (by decide)
    · rintro rfl
      exact absurd hhigh (by decide)
  · exact ⟨by decide, rfl⟩
  · exact ⟨by decide, rfl⟩
  · exact ⟨by decide, rfl⟩

theorem escapes_number {text : Text} (h : ∀ c ∈ text, IsNumberChar c) : escapes text = 0 := by
  apply List.countP_eq_zero.2
  intro c hc
  rw [(h c hc).plain.2]
  exact Bool.false_ne_true

/-- The parts of a container with the keys of its fields. -/
theorem labelText_parts (children : List (Rose WireLabel)) (keys : List String) :
    labelText .Array (children.map treeText) = '[' :: joinParts
        ((children.map fun child => ((none : Option String), child)).map
          fun part => frontText part.1 ++ treeText part.2) 0 ++ [']'] ∧
      labelText (.Object keys) (children.map treeText) = '\x7b' :: joinParts
        ((List.zipWith (fun key child => (some key, child)) keys children).map
          fun part => frontText part.1 ++ treeText part.2) 0 ++ ['\x7d'] := by
  constructor
  · rw [labelText, List.map_map]
    rfl
  · rw [labelText, List.map_zipWith, List.zipWith_map_right]
    rfl

/-- A tree whose text fits is measured as it is written. -/
theorem treeStats_fits {tree : Rose WireLabel} (hlabels : tree.Each fun label _ => LabelOk label)
    (hfits : utf8Len (treeText tree) ≤ U64_MAX) :
    treeStats tree = .ok (utf8Len (treeText tree), escapes (treeText tree)) := by
  induction tree using Rose.induction with
  | node label children ih =>
      obtain ⟨hlabel, hchildren⟩ := Rose.each_node.1 hlabels
      rw [treeText_node] at hfits
      rw [treeStats_node, treeText_node]
      cases label with
      | Null => rfl
      | Boolean value => cases value <;> rfl
      | Number value =>
          have hescapes : escapes value.toList = 0 :=
            escapes_number (numberGrammar_le hlabel.2)
          have hlength : checkedLen (utf8Len value.toList) = .ok (utf8Len value.toList) :=
            if_pos hfits
          rw [labelStats, labelText, hlength, hescapes]
          rfl
      | Text value => exact serializedStringStats_fits hfits
      | Array =>
          have hsame : (children.map treeStats).map (fun part => ((none : Option String), part)) =
              (children.map fun child => (none, child)).map
                fun part => (part.1, treeStats part.2) := by
            rw [List.map_map, List.map_map]
            rfl
          rw [labelStats, hsame]
          refine partsStats_wrapped ⟨rfl, rfl⟩ ⟨rfl, rfl⟩ (labelText_parts children []).1 hfits ?_
          intro part hpart
          obtain ⟨child, hchild, rfl⟩ := List.mem_map.1 hpart
          exact ih child hchild (hchildren child hchild)
      | Object keys =>
          have hsame : List.zipWith (fun key part => (some key, part)) keys
                (children.map treeStats) =
              (List.zipWith (fun key child => (some key, child)) keys children).map
                fun part => (part.1, treeStats part.2) := by
            rw [List.zipWith_map_right, List.map_zipWith]
          rw [labelStats, hsame]
          refine partsStats_wrapped ⟨rfl, rfl⟩ ⟨rfl, rfl⟩ (labelText_parts children keys).2
            hfits ?_
          intro part hpart
          obtain ⟨k, hk, rfl⟩ := List.mem_iff_getElem.1 hpart
          rw [List.getElem_zipWith]
          exact ih _ (List.getElem_mem _) (hchildren _ (List.getElem_mem _))

/-! ## What the charge leaves room for -/

theorem utf8Len_escapeChar (c : Char) : utf8Len (escapeChar c) ≤ 2 * c.utf8Size := by
  by_cases hescaped : c = '"' ∨ c = '\\' ∨ c = '\t' ∨ c = '\n'
  · rcases hescaped with rfl | rfl | rfl | rfl <;> decide
  · simp only [not_or] at hescaped
    obtain ⟨hquote, hslash, htab, hline⟩ := hescaped
    have hpos : 0 < c.utf8Size := Char.utf8Size_pos c
    have hsame : escapeChar c = [c] := by
      simp [escapeChar, hquote, hslash, htab, hline]
    rw [hsame]
    show c.utf8Size + 0 ≤ _
    omega

/-- A string takes less than twice its charge. -/
theorem utf8Len_serialized_le (value : String) :
    utf8Len (serializeString value) ≤ 2 * utf8Len value.toList + 2 := by
  have hchars (text : Text) : utf8Len (text.flatMap escapeChar) ≤ 2 * utf8Len text := by
    induction text with
    | nil => exact Nat.le_refl _
    | cons c text ih =>
        have hone := utf8Len_escapeChar c
        rw [List.flatMap_cons, utf8Len_append, utf8Len_cons]
        omega
  have hvalue := hchars value.toList
  rw [utf8Len_serialized]
  omega

theorem utf8Len_joinParts_le (parts : List Text) (position : Nat) :
    utf8Len (joinParts parts position) ≤ parts.length + (parts.map utf8Len).sum := by
  induction parts generalizing position with
  | nil => exact Nat.le_refl _
  | cons part parts ih =>
      have hrest := ih (position + 1)
      have hcomma : utf8Len (if position != 0 then [','] else []) ≤ 1 := by
        split <;> decide
      rw [joinParts, utf8Len_append, utf8Len_append, List.length_cons, List.map_cons,
        List.sum_cons]
      omega

/-- The parts of an object, with their keys and the commas between them. -/
theorem utf8Len_fields_le (keys : List String) (texts : List Text) :
    (List.zipWith (fun key text => serializeString key ++ [':'] ++ text) keys texts).length +
        ((List.zipWith (fun key text => serializeString key ++ [':'] ++ text) keys texts).map
          utf8Len).sum ≤
      2 * (keys.map fun key => stringCharge key + 4).sum + (texts.map utf8Len).sum := by
  induction keys generalizing texts with
  | nil =>
      rw [List.zipWith_nil_left]
      exact Nat.zero_le _
  | cons key keys ih =>
      cases texts with
      | nil => exact Nat.zero_le _
      | cons text texts =>
          have hrest := ih texts
          have hkey := utf8Len_serialized_le key
          simp only [List.zipWith_cons_cons, List.length_cons, List.map_cons, List.sum_cons]
          rw [utf8Len_append, utf8Len_append]
          show _ + 1 + (utf8Len (serializeString key) + 1 + utf8Len text + _) ≤
            2 * (4 + utf8Len key.toList + 4 + _) + (utf8Len text + _)
          omega

/-- A node adds less than twice its charge to the texts of its children. -/
theorem utf8Len_labelText_le (label : WireLabel) (texts : List Text) :
    utf8Len (labelText label texts) ≤
      2 * labelCharge label texts.length + (texts.map utf8Len).sum := by
  cases label with
  | Null =>
      show 4 ≤ 8 + _
      omega
  | Boolean value =>
      cases value with
      | false =>
          show 5 ≤ 10 + _
          omega
      | true =>
          show 4 ≤ 10 + _
          omega
  | Number value =>
      show utf8Len value.toList ≤ 2 * (4 + (4 + utf8Len value.toList)) + _
      omega
  | Text value =>
      have hvalue := utf8Len_serialized_le value
      show utf8Len (serializeString value) ≤ 2 * (4 + (4 + utf8Len value.toList)) + _
      omega
  | Array =>
      have hparts := utf8Len_joinParts_le texts 0
      rw [labelText, utf8Len_wrapped]
      show 1 + _ + 1 ≤ 2 * (4 + (4 + 4 * texts.length)) + _
      omega
  | Object keys =>
      have hparts := utf8Len_joinParts_le
        (List.zipWith (fun key text => serializeString key ++ [':'] ++ text) keys texts) 0
      have hfields := utf8Len_fields_le keys texts
      rw [labelText, utf8Len_wrapped]
      show 1 + _ + 1 ≤ 2 * (4 + (4 + (keys.map fun key => stringCharge key + 4).sum)) + _
      omega

/-- A text takes less than twice the charge of its tree. -/
theorem utf8Len_treeText_le (tree : Rose WireLabel) :
    utf8Len (treeText tree) ≤ 2 * tree.sum labelCharge := by
  induction tree using Rose.induction with
  | node label children ih =>
      have hlabel := utf8Len_labelText_le label (children.map treeText)
      have hchildren : ((children.map treeText).map utf8Len).sum ≤
          2 * (children.map (Rose.sum labelCharge)).sum := by
        clear hlabel
        induction children with
        | nil => exact Nat.le_refl _
        | cons child children ihs =>
            have hchild := ih child List.mem_cons_self
            have hrest := ihs fun other hother => ih other (List.mem_cons_of_mem _ hother)
            simp only [List.map_cons, List.sum_cons]
            omega
      rw [treeText_node, Rose.sum_node]
      rw [List.length_map] at hlabel
      omega

/-- The text of a document is within twice the limit of its charge. -/
theorem WellFormed.text_le {document : WireJsonDocument} {objectRoot : Bool}
    (h : WellFormed document objectRoot) {tree : Rose WireLabel}
    (htree : document.Denotes tree) : utf8Len (treeText tree) ≤ 2 * MAX_LOGICAL_CHARGE := by
  have hlast : document.root = (arenaOf document.nodes).length - 1 := by
    have hroot := h.root
    rw [arenaOf_length]
    omega
  have hdenotes : (arenaOf document.nodes).Denotes ((arenaOf document.nodes).length - 1) tree :=
    hlast ▸ htree
  have hsum := h.oneTree.sum_eq labelCharge hdenotes
  have hnodes : ((arenaOf document.nodes).map fun node => labelCharge node.1 node.2.length).sum =
      (document.nodes.map fun node => labelCharge node.label node.references.length).sum := by
    rw [arenaOf, List.map_map]
    rfl
  have htext := utf8Len_treeText_le tree
  have hcharge := h.charge
  rw [documentCharge, ← hnodes, ← hsum] at hcharge
  omega

/-! ## No control characters -/

theorem plain_escapeChar {c : Char} (h : isUnsafeChar c = false) : Plain (escapeChar c) := by
  by_cases hescaped : c = '"' ∨ c = '\\' ∨ c = '\t' ∨ c = '\n'
  · rcases hescaped with rfl | rfl | rfl | rfl <;> exact Plain.of_all rfl
  · simp only [not_or] at hescaped
    obtain ⟨hquote, hslash, htab, hline⟩ := hescaped
    have hsame : escapeChar c = [c] := by
      simp [escapeChar, hquote, hslash, htab, hline]
    have htab' : c.toNat ≠ 9 := by
      intro hnine
      exact htab (Char.ext (UInt32.toNat_inj.1 hnine))
    have hline' : c.toNat ≠ 10 := by
      intro hten
      exact hline (Char.ext (UInt32.toNat_inj.1 hten))
    simp only [isUnsafeChar, Bool.or_eq_false_iff, Bool.and_eq_false_iff,
      decide_eq_false_iff_not] at h
    rw [hsame]
    refine Plain.cons ?_ (Plain.of_all rfl)
    omega

theorem plain_serializeString {maximum : Nat} {value : String} (h : SafeText maximum value) :
    Plain (serializeString value) := by
  unfold serializeString
  rw [List.cons_append]
  refine Plain.cons (by decide) (Plain.append ?_ (Plain.cons (by decide) nofun))
  intro c hc
  obtain ⟨source, hsource, hc⟩ := List.mem_flatMap.1 hc
  exact plain_escapeChar (h.2 source hsource) c hc

theorem plain_joinParts {parts : List Text} (h : ∀ part ∈ parts, Plain part) (position : Nat) :
    Plain (joinParts parts position) := by
  induction parts generalizing position with
  | nil => exact nofun
  | cons part parts ih =>
      have hcomma : Plain (if position != 0 then [','] else []) := by
        split
        · exact Plain.cons (by decide) nofun
        · exact nofun
      exact (hcomma.append (h part List.mem_cons_self)).append
        (ih (fun other hother => h other (List.mem_cons_of_mem _ hother)) (position + 1))

/-- The text of an accepted document has no control character. -/
theorem plain_treeText {tree : Rose WireLabel}
    (h : tree.Each fun label _ => LabelOk label) : Plain (treeText tree) := by
  induction tree using Rose.induction with
  | node label children ih =>
      obtain ⟨hlabel, hchildren⟩ := Rose.each_node.1 h
      have htexts : ∀ text ∈ children.map treeText, Plain text := by
        intro text htext
        obtain ⟨child, hchild, rfl⟩ := List.mem_map.1 htext
        exact ih child hchild (hchildren child hchild)
      rw [treeText_node]
      cases label with
      | Null => exact Plain.of_all rfl
      | Boolean value => cases value <;> exact Plain.of_all rfl
      | Number value =>
          intro c hc
          exact (numberGrammar_le hlabel.2 c hc).plain.1
      | Text value => exact plain_serializeString hlabel
      | Array =>
          exact Plain.cons (by decide)
            ((plain_joinParts htexts 0).append (Plain.cons (by decide) nofun))
      | Object keys =>
          refine Plain.cons (by decide)
            ((plain_joinParts ?_ 0).append (Plain.cons (by decide) nofun))
          intro part hpart
          obtain ⟨k, hk, rfl⟩ := List.mem_iff_getElem.1 hpart
          rw [List.getElem_zipWith]
          have hcolon : Plain [':'] := Plain.cons (by decide) nofun
          exact ((plain_serializeString (hlabel.2 _ (List.getElem_mem _))).append hcolon).append
            (htexts _ (List.getElem_mem _))

/-! ## Documents -/

/-- **The measure of an accepted document.**  It does not overflow; its length is the
number of bytes that are written, so that the check of the output never fails, and
together with its escapes it is the length of the text as a JSON string. -/
theorem serialized_lengths (document : WireJsonDocument) (objectRoot : Bool)
    (stats : WireJsonStats) (h : validateWireJson document objectRoot = .ok stats) :
    ∃ text visited length added,
      serializeNode document.nodes document.nodes.length document.root = some (text, visited) ∧
      serializedNodeStats document.nodes document.nodes.length document.root =
        some (.ok (length, added)) ∧
      length = utf8Len text ∧
      2 + length + added = utf8Len (serializeString (String.ofList text)) ∧
      (∀ c ∈ text, 32 ≤ c.toNat) ∧
      canonicalSerialize document =
        some (if length > MAX_LOGICAL_CHARGE then .error .Limit else .ok text) ∧
      (objectRoot = true → canonicalSerializeForJsonString document =
        some (if 2 + length + added > MAX_LOGICAL_CHARGE then .error .Limit else .ok text)) := by
  obtain ⟨hwell, -, -⟩ := validateWireJson_ok.1 h
  obtain ⟨tree, htree⟩ := hwell.exists_tree
  obtain ⟨visited, hwritten, -⟩ := serializeNode_perm hwell htree
  have hroot : document.root < document.nodes.length := by
    have hlast := hwell.root
    omega
  have hlabels : tree.Each fun label _ => LabelOk label := by
    refine Arena.Denotes.each ?_ htree
    intro node hnode
    obtain ⟨source, hsource, rfl⟩ := List.mem_map.1 hnode
    exact hwell.labels source hsource
  have hbytes := hwell.text_le htree
  have hescapes := escapes_le (treeText tree)
  have hroom : 2 + 2 * MAX_LOGICAL_CHARGE + 2 * MAX_LOGICAL_CHARGE ≤ U64_MAX := by decide
  have hmeasured := treeStats_fits hlabels (by omega)
  have hstats := serializedNodeStats_eq hwell.oneTree.below htree hroot
  rw [hmeasured] at hstats
  have hplain := plain_treeText hlabels
  refine ⟨treeText tree, visited, _, _, hwritten, hstats, rfl,
    (utf8Len_serializeString hplain).symm, hplain, ?_, ?_⟩
  · rw [canonicalSerialize_eq hwell.any htree, treeSerialized, hmeasured]
  · intro hobject
    subst hobject
    have hsum : (checkedAdd 2 (utf8Len (treeText tree))).bind
          (checkedAdd · (escapes (treeText tree))) =
        .ok (2 + utf8Len (treeText tree) + escapes (treeText tree)) := by
      rw [checkedAdd_fits (by omega)]
      exact checkedAdd_fits (by omega)
    rw [canonicalSerializeForJsonString, h]
    dsimp only
    rw [hstats]
    dsimp only
    rw [hsum]
    dsimp only
    split
    · rfl
    · rename_i henclosing
      rw [serializeSized, if_neg (by omega), hwritten]
      show (if _ then _ else _) = _
      rw [if_neg (by simp)]

/-- An object with a text that has a line break in it. -/
def lineBreakDocument : WireJsonDocument :=
  ⟨1, [.StringValue "a\n", .ObjectValue [⟨"k", 0⟩]]⟩

theorem serialized_lengths_lineBreak :
    ∃ text visited length added,
      serializeNode lineBreakDocument.nodes 2 1 = some (text, visited) ∧
      serializedNodeStats lineBreakDocument.nodes 2 1 = some (.ok (length, added)) ∧
      length = utf8Len text ∧
      2 + length + added = utf8Len (serializeString (String.ofList text)) := by
  obtain ⟨text, visited, length, added, hwritten, hstats, hlength, henclosed, -⟩ :=
    serialized_lengths lineBreakDocument true ⟨35, 2⟩ rfl
  exact ⟨text, visited, length, added, hwritten, hstats, hlength, henclosed⟩

end MCode.Validation
