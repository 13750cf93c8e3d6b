import MCode.Edit.Fuzzy

/-!
# Tokens

What `normalize` makes of a text: the texts of the tokens, joined by spaces, and for
each token its place among them and in the text.  No token is empty or holds a space,
and later tokens lie behind.
-/

namespace MCode.Edit.Fuzzy

open MCode.Lib MCode.Tools
open MCode.Lib.Results (bind_ok)
open MCode.Edit.Literal (Text)

/-! ## Joined texts -/

/-- Every text with a space behind it. -/
def spaced (texts : List Text) : Text := texts.flatMap fun text => text ++ [' ']

def joined (texts : List Text) : Text := [' '].intercalate texts

theorem spaced_append (texts texts' : List Text) :
    spaced (texts ++ texts') = spaced texts ++ spaced texts' := List.flatMap_append

theorem joined_cons (text : Text) {texts : List Text} (h : texts ≠ []) :
    joined (text :: texts) = text ++ [' '] ++ joined texts := by
  obtain ⟨second, rest, rfl⟩ := List.exists_cons_of_ne_nil h
  unfold joined
  rw [List.intercalate_cons_cons, List.append_assoc]

/-- A text among others. -/
theorem joined_middle (front : List Text) (text : Text) (rest : List Text) :
    ∃ tail, joined (front ++ text :: rest) = spaced front ++ (text ++ tail) ∧
      (rest = [] → tail = []) := by
  induction front with
  | nil =>
      cases rest with
      | nil => exact ⟨[], by simp [joined, spaced], fun _ => rfl⟩
      | cons second rest =>
          refine ⟨[' '] ++ joined (second :: rest), ?_, fun h => nomatch h⟩
          rw [List.nil_append, joined_cons text (List.cons_ne_nil _ _), List.append_assoc]
          rfl
  | cons first front ih =>
      obtain ⟨tail, htail, hnone⟩ := ih
      refine ⟨tail, ?_, hnone⟩
      have hne : front ++ text :: rest ≠ [] := by simp
      rw [List.cons_append, joined_cons first hne, htail]
      show _ = (first ++ [' '] ++ spaced front) ++ _
      rw [List.append_assoc (first ++ [' '])]

theorem joined_concat (front : List Text) (text : Text) :
    joined (front ++ [text]) = spaced front ++ text := by
  obtain ⟨tail, htail, hnone⟩ := joined_middle front text []
  rw [htail, hnone rfl, List.append_nil]

/-- The characters of some texts in a row. -/
theorem joined_slice (front : List Text) (middle : List Text) (text : Text) (rest : List Text) :
    ((joined (front ++ (middle ++ text :: rest))).take
        ((spaced (front ++ middle)).length + text.length)).drop (spaced front).length =
      joined (middle ++ [text]) := by
  obtain ⟨tail, htail, -⟩ := joined_middle (front ++ middle) text rest
  rw [← List.append_assoc, htail, joined_concat, ← List.append_assoc, spaced_append,
    ← List.length_append, List.take_left, List.append_assoc, List.drop_left]

/-! ## The tokens of a text -/

/-- The word flag of a token is that of its first character. -/
def startsWord (table : Alphanumeric) (text : Text) : Bool :=
  text.head?.any (isWordChar table)

/-- Tokens pushed one behind the other, up to a place of the text. -/
inductive Cut (table : Alphanumeric) : Nat → Normalized → List Text → Prop
  | empty (place : Nat) : Cut table place ⟨[], []⟩ []
  | push {place start stop place' : Nat} {normalized : Normalized} {texts : List Text} {chars : Text}
      (h : Cut table place normalized texts) (behind : place ≤ start) (ahead : start < stop)
      (before : stop ≤ place') (ne_nil : chars ≠ []) (no_space : ' ' ∉ chars) :
      Cut table place' (normalized.push start stop chars (startsWord table chars))
        (texts ++ [chars])

section Cut

variable {table : Alphanumeric} {place : Nat} {normalized : Normalized} {texts : List Text}

theorem Cut.later {place' : Nat} (h : Cut table place normalized texts) (hle : place ≤ place') :
    Cut table place' normalized texts := by
  cases h with
  | empty => exact .empty place'
  | push h behind ahead before ne_nil no_space =>
      exact .push h behind ahead (before.trans hle) ne_nil no_space

theorem Cut.texts_ok (h : Cut table place normalized texts) :
    ∀ text ∈ texts, text ≠ [] ∧ ' ' ∉ text := by
  induction h with
  | empty => exact fun text htext => (List.not_mem_nil htext).elim
  | push h behind ahead before ne_nil no_space ih =>
      intro text htext
      cases List.mem_append.1 htext with
      | inl htext => exact ih text htext
      | inr htext => exact List.mem_singleton.1 htext ▸ ⟨ne_nil, no_space⟩

/-- What a further token is pushed behind. -/
theorem prefix_eq (hnorm : normalized.norm = joined texts) (hne : ∀ text ∈ texts, text ≠ []) :
    (if normalized.norm.isEmpty then normalized.norm else normalized.norm ++ [' ']) =
      spaced texts := by
  rw [hnorm]
  cases List.eq_nil_or_concat texts with
  | inl hnil =>
      rw [hnil]
      rfl
  | inr hlast =>
      obtain ⟨front, text, rfl⟩ := hlast
      have htext := hne text (by simp)
      rw [List.concat_eq_append, joined_concat, if_neg (by simp [htext]), spaced_append,
        List.append_assoc]
      simp [spaced]

theorem Cut.norm (h : Cut table place normalized texts) : normalized.norm = joined texts := by
  induction h with
  | empty => rfl
  | @push _ start stop _ normalized texts chars h _ _ _ ne_nil _ ih =>
      rw [joined_concat, ← prefix_eq ih fun text htext => (h.texts_ok text htext).1]
      rfl

theorem Cut.length (h : Cut table place normalized texts) :
    normalized.tokens.length = texts.length := by
  induction h with
  | empty => rfl
  | push _ _ _ _ _ _ ih =>
      show (_ ++ [_]).length = _
      rw [List.length_append, List.length_append, ih]
      simp

/-- A token has its place among the joined texts and its place in the text. -/
theorem Cut.token (h : Cut table place normalized texts) {i : Nat} {token : Token}
    (htoken : normalized.tokens[i]? = some token) :
    ∃ front text rest, texts = front ++ text :: rest ∧ front.length = i ∧
      token.normStart = (spaced front).length ∧
      token.normEnd = (spaced front).length + text.length ∧
      token.isWord = startsWord table text ∧ token.origStart < token.origEnd ∧
      token.origEnd ≤ place := by
  induction h with
  | empty => cases htoken
  | @push _ start stop _ normalized texts chars h behind ahead before ne_nil no_space ih =>
      have hspaced := prefix_eq h.norm fun text htext => (h.texts_ok text htext).1
      by_cases hi : i < normalized.tokens.length
      · have hold : normalized.tokens[i]? = some token := by
          rw [← htoken]
          exact (List.getElem?_append_left hi).symm
        obtain ⟨front, text, rest, rfl, hfront, hstart, hend, hword, horig, hplace⟩ := ih hold
        refine ⟨front, text, rest ++ [chars], ?_, hfront, hstart, hend, hword, horig, by omega⟩
        rw [List.append_assoc]
        rfl
      · have hlast : i = normalized.tokens.length := by
          have hlt := (List.getElem?_eq_some_iff.1 htoken).1
          have hpush : (normalized.push start stop chars (startsWord table chars)).tokens.length =
              normalized.tokens.length + 1 := List.length_append
          omega
        subst hlast
        have hsame := (List.getElem?_concat_length (l := normalized.tokens)).symm.trans htoken
        cases Option.some.inj hsame
        refine ⟨texts, chars, [], rfl, h.length.symm, ?_, ?_, rfl, ahead, before⟩
        · show (if _ then _ else _ : Text).length = _
          rw [hspaced]
        · show ((if _ then _ else _ : Text) ++ chars).length = _
          rw [hspaced, List.length_append]

/-- Later tokens lie behind. -/
theorem Cut.ordered (h : Cut table place normalized texts) :
    normalized.tokens.Pairwise fun a b => a.origEnd ≤ b.origStart := by
  induction h with
  | empty => exact .nil
  | @push _ start stop _ normalized texts chars h behind _ _ _ _ ih =>
      apply List.pairwise_append.2 ⟨ih, List.pairwise_singleton _ _, ?_⟩
      intro a ha b hb
      obtain ⟨i, hi, rfl⟩ := List.getElem_of_mem ha
      obtain ⟨_, _, _, _, _, _, _, _, _, hplace⟩ := h.token (List.getElem?_eq_getElem hi)
      rw [List.mem_singleton.1 hb]
      exact hplace.trans behind

/-- The slice from one token to another. -/
theorem Cut.slice (h : Cut table place normalized texts) {i count : Nat} {first last : Token}
    (hfirst : normalized.tokens[i]? = some first)
    (hlast : normalized.tokens[i + count]? = some last) :
    normalized.slice first.normStart last.normEnd = joined ((texts.drop i).take (count + 1)) := by
  obtain ⟨front, text, rest, htexts, hfront, hstart, -⟩ := h.token hfirst
  obtain ⟨front', text', rest', htexts', hfront', -, hend, -⟩ := h.token hlast
  have htake : front'.take i = front := by
    have hleft : texts.take i = front := by rw [htexts, ← hfront, List.take_left]
    have hright : texts.take i = front'.take i := by
      rw [htexts', List.take_append_of_le_length (by omega)]
    rw [← hright, hleft]
  obtain ⟨middle, rfl⟩ : ∃ middle, front' = front ++ middle :=
    ⟨front'.drop i, by rw [← htake, List.take_append_drop]⟩
  have hmiddle : middle.length = count := by
    rw [List.length_append] at hfront'
    omega
  have hwindow : (texts.drop i).take (count + 1) = middle ++ [text'] := by
    rw [htexts', List.append_assoc, ← hfront, List.drop_left, ← hmiddle,
      List.take_length_add_append]
    rfl
  unfold Normalized.slice
  rw [h.norm, hstart, hend, hwindow, htexts', List.append_assoc]
  exact joined_slice front middle text' rest'

theorem Cut.text (h : Cut table place normalized texts) {i : Nat} {token : Token}
    (htoken : normalized.tokens[i]? = some token) : texts[i]? = some (normalized.text token) := by
  obtain ⟨front, text, rest, htexts, hfront, -⟩ := h.token htoken
  have hslice := @Cut.slice table place normalized texts h i 0 token token htoken htoken
  have hat : (texts.drop i).take 1 = [text] := by
    rw [htexts, ← hfront, List.drop_left]
    rfl
  rw [hat] at hslice
  unfold Normalized.text
  rw [hslice, htexts, ← hfront, List.getElem?_append_right (Nat.le_refl _), Nat.sub_self]
  simp [joined]

theorem Cut.map_text (h : Cut table place normalized texts) :
    normalized.tokens.map normalized.text = texts := by
  apply List.ext_getElem?
  intro i
  rw [List.getElem?_map]
  cases htoken : normalized.tokens[i]? with
  | none =>
      have hlength := h.length
      rw [List.getElem?_eq_none_iff] at htoken
      exact (List.getElem?_eq_none (by omega)).symm
  | some token => exact (h.text htoken).symm

end Cut

/-! ## The loops -/

theorem checkInterval_ok (index next : Nat) :
    ∃ next', checkInterval false index next = .ok next' := by
  unfold checkInterval
  split
  · exact ⟨_, rfl⟩
  · exact ⟨_, rfl⟩

theorem utf8Size_pos (c : Char) : 0 < c.utf8Size := Char.utf8Size_pos c

theorem wordLoop_ok (table : Alphanumeric) (text : Text) (stop next : Nat) :
    ∃ word, wordLoop table false text stop next = .ok word ∧ stop ≤ word.stop ∧
      (∀ c ∈ word.chars, isWordChar table c = true) ∧ word.rest.length ≤ text.length := by
  induction text generalizing stop next with
  | nil => exact ⟨_, rfl, Nat.le_refl _, fun c hc => (List.not_mem_nil hc).elim, Nat.le_refl _⟩
  | cons c rest ih =>
      obtain ⟨next', hcheck⟩ := checkInterval_ok stop next
      rw [wordLoop, hcheck]
      show ∃ word, (if isWordChar table c = true then
          (wordLoop table false rest (stop + c.utf8Size) next' >>= fun word =>
            .ok { word with chars := c :: word.chars })
        else .ok ⟨[], c :: rest, stop, next'⟩) = .ok word ∧ _
      by_cases hc : isWordChar table c = true
      · obtain ⟨word, hword, hstop, hchars, hrest⟩ := ih (stop + c.utf8Size) next'
        rw [if_pos hc, hword]
        refine ⟨_, rfl, by dsimp only; omega, ?_, hrest.trans (Nat.le_succ _)⟩
        intro d hd
        cases List.mem_cons.1 hd with
        | inl hsame => exact hsame ▸ hc
        | inr hd => exact hchars d hd
      · rw [if_neg hc]
        exact ⟨_, rfl, Nat.le_refl _, fun c hc => (List.not_mem_nil hc).elim, Nat.le_refl _⟩

theorem not_word_space (table : Alphanumeric) : isWordChar table ' ' = false := by
  unfold isWordChar
  rw [table.space]
  rfl

/-- The loop ends with tokens of the text, unless there are too many. -/
theorem normalizeLoop_ok (table : Alphanumeric) (maxTokens : Nat) {fuel : Nat} :
    ∀ {text : Text} {index next : Nat} {normalized : Normalized} {texts : List Text},
      text.length ≤ fuel → Cut table index normalized texts →
      (∃ message, normalizeLoop table maxTokens false fuel text index next normalized =
        .error (.InvalidArgs message)) ∨
      ∃ normalized' place texts',
        normalizeLoop table maxTokens false fuel text index next normalized = .ok normalized' ∧
          Cut table place normalized' texts' := by
  induction fuel with
  | zero =>
      intro text index next normalized texts _ hcut
      exact Or.inr ⟨normalized, index, texts, rfl, hcut⟩
  | succ fuel ih =>
      intro text index next normalized texts hfuel hcut
      cases text with
      | nil => exact Or.inr ⟨normalized, index, texts, rfl, hcut⟩
      | cons c rest =>
          rw [List.length_cons] at hfuel
          obtain ⟨next', hcheck⟩ := checkInterval_ok index next
          have hsize := utf8Size_pos c
          rw [normalizeLoop, hcheck]
          dsimp only [bind, Except.bind]
          by_cases hwhite : isWhiteSpace c = true
          · rw [if_pos hwhite]
            exact ih (by omega) (hcut.later (Nat.le_add_right _ _))
          · rw [if_neg hwhite]
            split
            · exact Or.inl ⟨_, rfl⟩
            · have hspace : c ≠ ' ' := by
                rintro rfl
                exact hwhite (by decide)
              by_cases hc : isWordChar table c = true
              · obtain ⟨word, hword, hstop, hchars, hrest⟩ :=
                  wordLoop_ok table rest (index + c.utf8Size) next'
                rw [if_pos hc, hword]
                have hno : ' ' ∉ c :: word.chars := by
                  intro hin
                  cases List.mem_cons.1 hin with
                  | inl hsame => exact hspace hsame.symm
                  | inr hin =>
                      have hfalse := hchars ' ' hin
                      rw [not_word_space] at hfalse
                      cases hfalse
                have hflag : isWordChar table c = startsWord table (c :: word.chars) := rfl
                rw [hflag]
                exact ih (by omega) (.push hcut (Nat.le_refl _) (by omega) (Nat.le_refl _)
                  (List.cons_ne_nil _ _) hno)
              · rw [if_neg hc]
                have hflag : isWordChar table c = startsWord table [c] := rfl
                rw [hflag]
                exact ih (by omega) (.push hcut (Nat.le_refl _) (by omega) (Nat.le_refl _)
                  (List.cons_ne_nil _ _) fun hin => hspace (List.mem_singleton.1 hin).symm)

theorem normalize_ok (table : Alphanumeric) (text : Text) (maxTokens : Nat) :
    (∃ message, normalize table text maxTokens false = .error (.InvalidArgs message)) ∨
      ∃ normalized place texts, normalize table text maxTokens false = .ok normalized ∧
        Cut table place normalized texts := by
  unfold normalize
  rcases @normalizeLoop_ok table maxTokens text.length text 0 FUZZY_CANCEL_INTERVAL ⟨[], []⟩ []
    (Nat.le_refl _) (.empty 0) with ⟨message, hloop⟩ | ⟨normalized, place, texts, hloop, hcut⟩
  · rw [hloop]
    exact Or.inl ⟨message, rfl⟩
  · rw [hloop]
    exact Or.inr ⟨normalized, place, texts, rfl, hcut⟩

end MCode.Edit.Fuzzy
