import MCode.Edit.Distance
import MCode.Edit.Tokens
import MCode.Lib.Fields

/-!
# Windows

Every window of tokens that is within the ranking distance is ranked: its length is
in the band, since an edit makes or removes one space at most, and it holds an
anchor, since an edit touches two tokens at most.  So the best window and the
runner-up are those of all windows of the text.
-/

namespace MCode.Edit.Fuzzy

open MCode.Lib MCode.Tools
open MCode.Lib.Results (bind_ok)
open MCode.Lib.EditDistance (levenshtein)
open MCode.Edit.Literal (Text)
open MCode.Edit.Template (Failure)

/-! ## Windows -/

/-- A window of tokens, by its start and its length. -/
def IsWindow (haystack : Normalized) (start wlen : Nat) : Prop :=
  1 ≤ wlen ∧ start + wlen ≤ haystack.tokens.length

/-- The tokens of a window joined by spaces. -/
def windowText (haystack : Normalized) (start wlen : Nat) : Text :=
  joined (((haystack.tokens.drop start).take wlen).map haystack.text)

def windowDistance (needle haystack : Normalized) (start wlen : Nat) : Nat :=
  levenshtein needle.norm (windowText haystack start wlen)

/-- A window with its range in the text and its distance. -/
def candidate (needle haystack : Normalized) (start wlen : Nat) : Candidate where
  start := (haystack.tokens[start]?.map Token.origStart).getD 0
  stop := (haystack.tokens[start + wlen - 1]?.map Token.origEnd).getD 0
  distance := windowDistance needle haystack start wlen

section Windows

variable {table : Alphanumeric} {place place' : Nat} {needle haystack : Normalized}
  {texts texts' : List Text} {start wlen : Nat}

theorem IsWindow.tokens (h : IsWindow haystack start wlen) :
    ∃ first last, haystack.tokens[start]? = some first ∧
      haystack.tokens[start + wlen - 1]? = some last := by
  obtain ⟨hpos, hle⟩ := h
  exact ⟨_, _, List.getElem?_eq_getElem (by omega), List.getElem?_eq_getElem (by omega)⟩

/-- The slice that is compared is the window. -/
theorem slice_window (hcut : Cut table place haystack texts) (hpos : 1 ≤ wlen) {first last : Token}
    (hfirst : haystack.tokens[start]? = some first)
    (hlast : haystack.tokens[start + wlen - 1]? = some last) :
    haystack.slice first.normStart last.normEnd = windowText haystack start wlen := by
  obtain ⟨count, rfl⟩ : ∃ count, wlen = count + 1 := ⟨wlen - 1, by omega⟩
  unfold windowText
  rw [hcut.slice hfirst hlast, List.map_take, List.map_drop, hcut.map_text]

/-- Tokens at different places begin and end at different places. -/
theorem Cut.places (hcut : Cut table place haystack texts) {i j : Nat} (hij : i < j) {a b : Token}
    (ha : haystack.tokens[i]? = some a) (hb : haystack.tokens[j]? = some b) :
    a.origStart < b.origStart ∧ a.origEnd < b.origEnd := by
  obtain ⟨_, _, _, _, _, _, _, _, hsize, _⟩ := hcut.token ha
  obtain ⟨_, _, _, _, _, _, _, _, hsize', _⟩ := hcut.token hb
  obtain ⟨hi, rfl⟩ := List.getElem?_eq_some_iff.1 ha
  obtain ⟨hj, rfl⟩ := List.getElem?_eq_some_iff.1 hb
  have hbehind := List.pairwise_iff_getElem.1 hcut.ordered i j hi hj hij
  omega

theorem Cut.index_eq (hcut : Cut table place haystack texts) {i j : Nat} {a b : Token}
    (ha : haystack.tokens[i]? = some a) (hb : haystack.tokens[j]? = some b)
    (h : a.origStart = b.origStart ∨ a.origEnd = b.origEnd) : i = j := by
  rcases Nat.lt_trichotomy i j with hlt | heq | hgt
  · have hplaces := hcut.places hlt ha hb
    omega
  · exact heq
  · have hplaces := hcut.places hgt hb ha
    omega

/-- A range is the range of one window. -/
theorem candidate_inj (hcut : Cut table place haystack texts) {start' wlen' : Nat}
    (h : IsWindow haystack start wlen) (h' : IsWindow haystack start' wlen')
    (hstart : (candidate needle haystack start wlen).start =
      (candidate needle haystack start' wlen').start)
    (hstop : (candidate needle haystack start wlen).stop =
      (candidate needle haystack start' wlen').stop) : start = start' ∧ wlen = wlen' := by
  obtain ⟨first, last, hfirst, hlast⟩ := h.tokens
  obtain ⟨first', last', hfirst', hlast'⟩ := h'.tokens
  unfold candidate at hstart hstop
  rw [hfirst, hfirst'] at hstart
  rw [hlast, hlast'] at hstop
  have hs := hcut.index_eq hfirst hfirst' (Or.inl hstart)
  have he := hcut.index_eq hlast hlast' (Or.inr hstop)
  have hpos := h.1
  have hpos' := h'.1
  omega

/-! ## The prunings -/

theorem splitOn_joined {texts : List Text} (hne : texts ≠ []) (h : ∀ text ∈ texts, ' ' ∉ text) :
    (joined texts).splitOn ' ' = texts :=
  List.splitOn_intercalate ' ' h hne

theorem count_joined {texts : List Text} (hne : texts ≠ []) (h : ∀ text ∈ texts, ' ' ∉ text) :
    (joined texts).count ' ' + 1 = texts.length := by
  rw [← Fields.splitOn_length, splitOn_joined hne h]

/-- The texts of a window. -/
theorem window_texts (hcut : Cut table place haystack texts) (h : IsWindow haystack start wlen) :
    ∃ inside : List Text, windowText haystack start wlen = joined inside ∧ inside.length = wlen ∧
      inside = ((haystack.tokens.drop start).take wlen).map haystack.text ∧
      ∀ text ∈ inside, ' ' ∉ text := by
  refine ⟨_, rfl, ?_, rfl, ?_⟩
  · have hle := h.2
    rw [List.length_map, List.length_take, List.length_drop]
    omega
  · intro text htext
    rw [List.map_take, List.map_drop, hcut.map_text] at htext
    exact (hcut.texts_ok text (List.mem_of_mem_drop (List.mem_of_mem_take htext))).2

/-- The band: the numbers of tokens differ by the distance at most. -/
theorem distance_band (hneedle : Cut table place needle texts)
    (hcut : Cut table place' haystack texts') (hsome : needle.tokens ≠ [])
    (h : IsWindow haystack start wlen) :
    needle.tokens.length ≤ wlen + windowDistance needle haystack start wlen ∧
      wlen ≤ needle.tokens.length + windowDistance needle haystack start wlen := by
  obtain ⟨inside, htext, hlength, -, hspace⟩ := window_texts hcut h
  have hne : texts ≠ [] := by
    rw [← List.length_pos_iff, ← hneedle.length]
    exact List.length_pos_iff.2 hsome
  have hinside : inside ≠ [] := by
    have hpos := h.1
    rw [← List.length_pos_iff]
    omega
  have hcount := count_joined hne fun text ht => (hneedle.texts_ok text ht).2
  have hcount' := count_joined hinside hspace
  rw [← hneedle.norm, ← hneedle.length] at hcount
  rw [← htext, hlength] at hcount'
  have hle := EditDistance.countP_le_levenshtein needle.norm
    (windowText haystack start wlen) (· == ' ')
  have hle' := EditDistance.countP_le_levenshtein
    (windowText haystack start wlen) needle.norm (· == ' ')
  rw [EditDistance.levenshtein_comm] at hle'
  unfold windowDistance
  unfold List.count at hcount hcount'
  omega

def needleWords (needle : Normalized) : List Text :=
  (needle.tokens.filter Token.isWord).map needle.text

def isNeedleWord (needle : Normalized) (text : Text) : Bool := (needleWords needle).contains text

/-- A token with the text of a word of the needle is a word. -/
theorem word_of_text (hneedle : Cut table place needle texts)
    (hcut : Cut table place' haystack texts') {token : Token} (htoken : token ∈ haystack.tokens)
    (htext : haystack.text token ∈ needleWords needle) : token.isWord = true := by
  have hflag : ∀ {place : Nat} {normalized : Normalized} {texts : List Text} {token : Token},
      Cut table place normalized texts → token ∈ normalized.tokens →
      token.isWord = startsWord table (normalized.text token) := by
    intro place normalized texts token hcut htoken
    obtain ⟨i, hi⟩ := List.mem_iff_getElem?.1 htoken
    obtain ⟨front, text, rest, htexts, hfront, -, -, hword, -⟩ := hcut.token hi
    have hsame := hcut.text hi
    rw [htexts, ← hfront, List.getElem?_append_right (Nat.le_refl _), Nat.sub_self] at hsame
    rw [hword, Option.some.inj hsame]
  obtain ⟨other, hother, hsame⟩ := List.mem_map.1 htext
  obtain ⟨hmem, hword⟩ := List.mem_filter.1 hother
  rw [hflag hcut htoken, ← hsame, ← hflag hneedle hmem, hword]

/-- The anchor: a window that is close enough holds a word of the needle. -/
theorem anchored (hneedle : Cut table place needle texts)
    (hcut : Cut table place' haystack texts') (h : IsWindow haystack start wlen)
    (hwords : windowDistance needle haystack start wlen * 2 < (needleWords needle).length) :
    ∃ i token, start ≤ i ∧ i < start + wlen ∧ haystack.tokens[i]? = some token ∧
      token.isWord = true ∧ haystack.text token ∈ needleWords needle := by
  obtain ⟨inside, htext, hlength, hinside, hspace⟩ := window_texts hcut h
  have hsome : needle.tokens ≠ [] := by
    rintro hnil
    unfold needleWords at hwords
    rw [hnil] at hwords
    exact absurd hwords (Nat.not_lt_zero _)
  have hne : texts ≠ [] := by
    rw [← List.length_pos_iff, ← hneedle.length]
    exact List.length_pos_iff.2 hsome
  have hnonempty : inside ≠ [] := by
    have hpos := h.1
    rw [← List.length_pos_iff]
    omega
  have hfields := @Fields.countP_splitOn Char _ ' ' _ _ _
    (EditDistance.aligned_levenshtein needle.norm (windowText haystack start wlen))
    (isNeedleWord needle) []
  rw [List.nil_append, List.nil_append, hneedle.norm, htext, splitOn_joined hnonempty hspace,
    splitOn_joined hne fun text ht => (hneedle.texts_ok text ht).2, ← htext,
    ← hneedle.norm] at hfields
  have hcount : (needleWords needle).length ≤
      texts.countP (isNeedleWord needle) := by
    rw [← hneedle.map_text, List.countP_map]
    unfold needleWords
    rw [List.length_map, ← List.countP_eq_length_filter]
    apply List.countP_mono_left
    intro token htoken hword
    exact List.contains_iff_mem.2 (List.mem_map_of_mem (List.mem_filter.2 ⟨htoken, hword⟩))
  have hpos : 0 < inside.countP (isNeedleWord needle) := by
    unfold windowDistance at hwords
    omega
  obtain ⟨text, hmem, hword⟩ := List.countP_pos_iff.1 hpos
  rw [hinside] at hmem
  obtain ⟨token, htoken, rfl⟩ := List.mem_map.1 hmem
  obtain ⟨i, hi, rfl⟩ := List.getElem_of_mem htoken
  have hle : i < wlen := by
    rw [List.length_take] at hi
    omega
  have hat : haystack.tokens[start + i]? = some ((haystack.tokens.drop start).take wlen)[i] := by
    rw [← List.getElem?_drop, ← List.getElem?_take_of_lt hle]
    exact List.getElem?_eq_getElem hi
  have hword := List.contains_iff_mem.1 hword
  exact ⟨start + i, _, Nat.le_add_right _ _, by omega, hat,
    word_of_text hneedle hcut (List.mem_of_getElem? hat) hword, hword⟩

end Windows

end MCode.Edit.Fuzzy
