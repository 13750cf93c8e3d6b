import MCode.Edit.Literal

/-!
# Occurrences

Where some patterns occur in a text, in the order of their places, and that both
ways of searching find just these: what `Searchers` are relied on for is `Exact`.
-/

namespace MCode.Edit.Literal

open MCode.Lib MCode.Tools
open MCode.Files (Bytes)

/-! ## Places -/

def occursAt (haystack needle : Bytes) (start : Nat) : Bool :=
  needle.isPrefixOf (haystack.drop start)

/-- The patterns that occur at one place. -/
def foundAt (haystack : Bytes) (patterns : List Bytes) (start : Nat) : List Found :=
  patterns.zipIdx.filterMap fun (needle, patternId) =>
    if occursAt haystack needle start then some ⟨start, start + needle.length, patternId⟩ else none

/-- All occurrences of all patterns, by their places. -/
def occurrences (haystack : Bytes) (patterns : List Bytes) : List Found :=
  (List.range haystack.length).flatMap (foundAt haystack patterns)

/-- The finder finds the leftmost place, and the automaton reports all matches, those that
overlap included, in whatever order. -/
structure Searchers.Exact (s : Searchers) : Prop where
  find_none : ∀ needle haystack, needle ≠ [] → s.find needle haystack = none →
    ∀ start, occursAt haystack needle start = false
  find_some : ∀ needle haystack start, needle ≠ [] → s.find needle haystack = some start →
    occursAt haystack needle start = true ∧
      ∀ earlier < start, occursAt haystack needle earlier = false
  build : ∀ patterns, patterns.length ≤ MAX_LITERAL_PATTERNS →
    (∀ needle ∈ patterns, needle ≠ [] ∧ needle.length ≤ MAX_PATTERN_BYTES) →
    ∃ automaton, s.build patterns = .ok automaton ∧
      ∀ haystack, (automaton haystack).Perm (occurrences haystack patterns)

variable {haystack : Bytes} {patterns : List Bytes}

theorem occursAt_lt {needle : Bytes} (hne : needle ≠ []) {start : Nat}
    (h : occursAt haystack needle start = true) : start + needle.length ≤ haystack.length := by
  obtain ⟨rest, hrest⟩ := List.isPrefixOf_iff_prefix.1 h
  have hlength := congrArg List.length hrest
  have hpos := List.length_pos_iff.2 hne
  rw [List.length_append, List.length_drop] at hlength
  omega

theorem mem_foundAt {start : Nat} {found : Found} :
    found ∈ foundAt haystack patterns start ↔
      found.start = start ∧ ∃ needle, patterns[found.patternId]? = some needle ∧
        occursAt haystack needle start = true ∧ found.stop = start + needle.length := by
  unfold foundAt
  rw [List.mem_filterMap]
  constructor
  · rintro ⟨⟨needle, patternId⟩, hmem, h⟩
    dsimp only at h
    split at h
    · rename_i hoccurs
      cases h
      exact ⟨rfl, needle, List.mk_mem_zipIdx_iff_getElem?.1 hmem, hoccurs, rfl⟩
    · cases h
  · rintro ⟨hstart, needle, hat, hoccurs, hstop⟩
    refine ⟨(needle, found.patternId), List.mk_mem_zipIdx_iff_getElem?.2 hat, ?_⟩
    dsimp only
    rw [if_pos hoccurs, ← hstop, ← hstart]

/-- An occurrence is a pattern and a place where it occurs. -/
theorem mem_occurrences (hne : ∀ needle ∈ patterns, needle ≠ []) {found : Found} :
    found ∈ occurrences haystack patterns ↔
      ∃ needle, patterns[found.patternId]? = some needle ∧
        occursAt haystack needle found.start = true ∧ found.stop = found.start + needle.length := by
  unfold occurrences
  rw [List.mem_flatMap]
  constructor
  · rintro ⟨start, -, h⟩
    obtain ⟨rfl, h⟩ := mem_foundAt.1 h
    exact h
  · rintro ⟨needle, hat, hoccurs, hstop⟩
    have hneedle := hne needle (List.mem_of_getElem? hat)
    have hle := occursAt_lt hneedle hoccurs
    have hpos := List.length_pos_iff.2 hneedle
    exact ⟨found.start, List.mem_range.2 (by omega), mem_foundAt.2 ⟨rfl, needle, hat, hoccurs, hstop⟩⟩

theorem occurrence_lt (hne : ∀ needle ∈ patterns, needle ≠ []) {found : Found}
    (h : found ∈ occurrences haystack patterns) : found.start < found.stop := by
  obtain ⟨needle, hat, -, hstop⟩ := (mem_occurrences hne).1 h
  have hpos := List.length_pos_iff.2 (hne needle (List.mem_of_getElem? hat))
  omega

/-- By the place, then by the pattern. -/
theorem occurrences_ascending (haystack : Bytes) (patterns : List Bytes) :
    (occurrences haystack patterns).Pairwise fun a b =>
      a.start < b.start ∨ a.start = b.start ∧ a.patternId < b.patternId := by
  apply List.pairwise_flatMap.2
  constructor
  · intro start hstart
    have hindexes : patterns.zipIdx.Pairwise fun a b => a.2 < b.2 := by
      rw [← List.pairwise_map (f := Prod.snd), List.zipIdx_map_snd]
      exact List.pairwise_lt_range'
    apply List.pairwise_filterMap.2
    apply hindexes.imp
    rintro ⟨needle, patternId⟩ ⟨needle', patternId'⟩ hlt found hfound other hother
    dsimp only at hfound hother
    split at hfound
    · split at hother
      · rw [← Option.some.inj hfound, ← Option.some.inj hother]
        exact Or.inr ⟨rfl, hlt⟩
      · cases hother
    · cases hfound
  · apply List.pairwise_lt_range.imp
    intro left right hlt found hfound other hother
    rw [← (mem_foundAt.1 hfound).1, ← (mem_foundAt.1 hother).1] at hlt
    exact Or.inl hlt

theorem occurrences_nodup (haystack : Bytes) (patterns : List Bytes) :
    (occurrences haystack patterns).Nodup := by
  apply (occurrences_ascending haystack patterns).imp
  rintro a b h rfl
  omega

/-! ## One pattern -/

/-- The occurrences of one pattern from a place on. -/
def occurrencesFrom (haystack needle : Bytes) (cursor : Nat) : List Found :=
  (List.range' cursor (haystack.length - cursor)).flatMap (foundAt haystack [needle])

theorem occurrencesFrom_zero (haystack needle : Bytes) :
    occurrencesFrom haystack needle 0 = occurrences haystack [needle] := by
  unfold occurrencesFrom occurrences
  rw [Nat.sub_zero, List.range_eq_range']

theorem foundAt_single (haystack needle : Bytes) (start : Nat) :
    foundAt haystack [needle] start =
      if occursAt haystack needle start then [⟨start, start + needle.length, 0⟩] else [] := by
  show ([(needle, 0)].filterMap _) = _
  split
  · rename_i hoccurs
    rw [List.filterMap_cons_some (by dsimp only; rw [if_pos hoccurs])]
    rfl
  · rename_i hoccurs
    rw [List.filterMap_cons_none (by dsimp only; rw [if_neg hoccurs])]
    rfl

theorem flatMap_absent {needle : Bytes} {starts : List Nat}
    (h : ∀ start ∈ starts, occursAt haystack needle start = false) :
    starts.flatMap (foundAt haystack [needle]) = [] := by
  rw [List.flatMap_eq_nil_iff]
  intro start hstart
  rw [foundAt_single, h start hstart]
  rfl

theorem occursAt_drop (haystack needle : Bytes) (cursor relative : Nat) :
    occursAt (haystack.drop cursor) needle relative = occursAt haystack needle (cursor + relative) := by
  unfold occursAt
  rw [List.drop_drop]

/-- The first hit behind a place, and the rest from one byte behind it on. -/
theorem occurrencesFrom_hit {needle : Bytes} (hne : needle ≠ []) {cursor relative : Nat}
    (hhit : occursAt haystack needle (cursor + relative) = true)
    (hfirst : ∀ earlier < relative, occursAt haystack needle (cursor + earlier) = false) :
    occurrencesFrom haystack needle cursor =
      ⟨cursor + relative, cursor + relative + needle.length, 0⟩ ::
        occurrencesFrom haystack needle (cursor + relative + 1) := by
  have hle := occursAt_lt hne hhit
  have hpos := List.length_pos_iff.2 hne
  have hsplit : List.range' cursor (haystack.length - cursor) =
      List.range' cursor relative ++ (cursor + relative) ::
        List.range' (cursor + relative + 1) (haystack.length - (cursor + relative + 1)) := by
    rw [← List.range'_succ]
    have happend := @List.range'_append cursor relative
      (haystack.length - (cursor + relative + 1) + 1) 1
    rw [Nat.one_mul] at happend
    rw [happend]
    congr 1
    omega
  have hnone : (List.range' cursor relative).flatMap (foundAt haystack [needle]) = [] := by
    apply flatMap_absent
    intro start hstart
    obtain ⟨i, hi, rfl⟩ := List.mem_range'.1 hstart
    rw [Nat.one_mul]
    exact hfirst i hi
  unfold occurrencesFrom
  rw [hsplit, List.flatMap_append, hnone, List.nil_append, List.flatMap_cons, foundAt_single,
    if_pos hhit]
  rfl

theorem occurrencesFrom_none {s : Searchers} (hexact : s.Exact) {needle : Bytes}
    (hne : needle ≠ []) {cursor : Nat} (h : s.find needle (haystack.drop cursor) = none) :
    occurrencesFrom haystack needle cursor = [] := by
  have hnone := hexact.find_none needle _ hne h
  apply flatMap_absent
  intro start hstart
  obtain ⟨i, hi, rfl⟩ := List.mem_range'.1 hstart
  rw [Nat.one_mul, ← occursAt_drop]
  exact hnone i

theorem occurrencesFrom_some {s : Searchers} (hexact : s.Exact) {needle : Bytes}
    (hne : needle ≠ []) {cursor relative : Nat}
    (h : s.find needle (haystack.drop cursor) = some relative) :
    occurrencesFrom haystack needle cursor =
      ⟨cursor + relative, cursor + relative + needle.length, 0⟩ ::
        occurrencesFrom haystack needle (cursor + relative + 1) := by
  obtain ⟨hhit, hfirst⟩ := hexact.find_some needle _ relative hne h
  simp only [occursAt_drop] at hhit hfirst
  exact occurrencesFrom_hit hne hhit hfirst

/-- The loop finds the occurrences that overlap, too. -/
theorem memmemLoop_exact {s : Searchers} (hexact : s.Exact) {needle : Bytes} (hne : needle ≠ [])
    (room cursor : Nat) (found : List Found) :
    memmemLoop s haystack needle room cursor found =
      if (occurrencesFrom haystack needle cursor).length ≤ room then
        .ok (found ++ occurrencesFrom haystack needle cursor)
      else .error tooManyMatches := by
  induction room generalizing cursor found with
  | zero =>
      unfold memmemLoop
      cases hfind : s.find needle (haystack.drop cursor) with
      | none =>
          rw [occurrencesFrom_none hexact hne hfind, List.append_nil]
          rfl
      | some relative =>
          rw [occurrencesFrom_some hexact hne hfind]
          rfl
  | succ room ih =>
      unfold memmemLoop
      cases hfind : s.find needle (haystack.drop cursor) with
      | none =>
          rw [occurrencesFrom_none hexact hne hfind, List.append_nil]
          rfl
      | some relative =>
          dsimp only
          rw [ih, occurrencesFrom_some hexact hne hfind, List.length_cons, List.append_assoc,
            List.singleton_append]
          simp only [Nat.add_le_add_iff_right]

/-! ## Both searches -/

theorem acLoop_eq (room : Nat) (matches' found : List Found) :
    acLoop room matches' found =
      if matches'.length ≤ room then .ok (found ++ matches') else .error tooManyMatches := by
  induction matches' generalizing room found with
  | nil =>
      unfold acLoop
      rw [List.append_nil, List.length_nil, if_pos (Nat.zero_le room)]
  | cons mat matches' ih =>
      cases room with
      | zero => rfl
      | succ room =>
          rw [acLoop, ih, List.length_cons, List.append_assoc, List.singleton_append]
          simp only [Nat.add_le_add_iff_right]

/-- What a search gives: some order of all occurrences, unless they are too many. -/
def Searches (haystack : Bytes) (patterns : List Bytes)
    (result : Except ToolError (List Found)) : Prop :=
  ∃ found, found.Perm (occurrences haystack patterns) ∧
    result = if found.length ≤ MAX_MATCHES then .ok found else .error tooManyMatches

theorem memmemMatches_searches {s : Searchers} (hexact : s.Exact) {needle : Bytes}
    (hne : needle ≠ []) (haystack : Bytes) :
    Searches haystack [needle] (memmemMatches s haystack needle) := by
  refine ⟨occurrences haystack [needle], List.Perm.refl _, ?_⟩
  unfold memmemMatches
  rw [if_neg hne, memmemLoop_exact hexact hne, occurrencesFrom_zero, List.nil_append]

theorem acMatches_searches {s : Searchers} (hexact : s.Exact)
    (hfew : patterns.length ≤ MAX_LITERAL_PATTERNS)
    (hpatterns : ∀ needle ∈ patterns, needle ≠ [] ∧ needle.length ≤ MAX_PATTERN_BYTES)
    (haystack : Bytes) : Searches haystack patterns (acMatches s haystack patterns) := by
  obtain ⟨automaton, hbuild, hreports⟩ := hexact.build patterns hfew hpatterns
  refine ⟨automaton haystack, hreports haystack, ?_⟩
  unfold acMatches
  rw [hbuild]
  exact acLoop_eq MAX_MATCHES (automaton haystack) []

theorem literalMatches_searches {s : Searchers} (hexact : s.Exact)
    (hfew : patterns.length ≤ MAX_LITERAL_PATTERNS)
    (hpatterns : ∀ needle ∈ patterns, needle ≠ [] ∧ needle.length ≤ MAX_PATTERN_BYTES)
    (haystack : Bytes) : Searches haystack patterns (literalMatches s haystack patterns) := by
  unfold literalMatches
  split
  · rename_i needle
    exact memmemMatches_searches hexact (hpatterns needle List.mem_cons_self).1 haystack
  · exact acMatches_searches hexact hfew hpatterns haystack

/-! ## Searchers that are exact -/

/-- One place after the other. -/
def scan (needle haystack : Bytes) : Option Nat :=
  (List.range (haystack.length + 1)).find? (occursAt haystack needle)

def scanning : Searchers where
  find := scan
  build patterns := .ok fun haystack => occurrences haystack patterns

theorem scanning_exact : scanning.Exact where
  find_none needle haystack hne h start := by
    have hnone := List.find?_eq_none.1 h
    rw [← Bool.not_eq_true]
    intro hoccurs
    have hle := occursAt_lt hne hoccurs
    exact hnone start (List.mem_range.2 (by omega)) hoccurs
  find_some needle haystack start hne h := by
    obtain ⟨hoccurs, front, rest, hrange, hfront⟩ := List.find?_eq_some_iff_append.1 h
    refine ⟨hoccurs, ?_⟩
    intro earlier hlt
    have hlength : front.length = start := by
      have hat : (List.range (haystack.length + 1))[front.length]? =
          (front ++ start :: rest)[front.length]? := by rw [hrange]
      rw [List.getElem?_append_right (Nat.le_refl _), Nat.sub_self, List.getElem?_cons_zero] at hat
      obtain ⟨hbound, heq⟩ := List.getElem?_eq_some_iff.1 hat
      rw [List.getElem_range] at heq
      exact heq
    have hmem : earlier ∈ front := by
      have hat : (front ++ start :: rest)[earlier]? = some earlier := by
        rw [← hrange, List.getElem?_range]
        have hbound := congrArg List.length hrange
        rw [List.length_range, List.length_append, List.length_cons] at hbound
        omega
      rw [List.getElem?_append_left (by omega)] at hat
      exact List.mem_of_getElem? hat
    have hnot := hfront earlier hmem
    rw [Bool.not_eq_true'] at hnot
    exact hnot
  build patterns hfew hpatterns := ⟨_, rfl, fun haystack => List.Perm.refl _⟩

end MCode.Edit.Literal
