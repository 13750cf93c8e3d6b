import Mathlib

/-!
# Paths

A path is a text whose components stand between separators.  One path is above
another if its components are a proper part of the front of the other's; on the
texts that is a question of the text with one more separator.  In a list of
texts in lexicographic order the texts with the same front stand together, so
one look behind the front finds out whether there is any.
-/

namespace MCode.Lib.Paths

variable {α : Type*}

/-! ## Fronts in lexicographic order -/

section

variable [LinearOrder α]

theorem cons_le_cons_iff {a b : α} {l l' : List α} :
    a :: l ≤ b :: l' ↔ a < b ∨ a = b ∧ l ≤ l' := by
  rw [← not_lt, List.cons_lt_cons_iff, ← not_lt (b := l)]
  constructor
  · intro h
    by_cases hlt : a < b
    · exact Or.inl hlt
    · have hsame : b = a := by
        by_contra hne
        exact h (Or.inl (lt_of_le_of_ne (not_lt.1 hlt) hne))
      exact Or.inr ⟨hsame.symm, fun hrest => h (Or.inr ⟨hsame, hrest⟩)⟩
  · rintro (hlt | ⟨rfl, hrest⟩) (hback | ⟨hsame, hback⟩)
    · exact lt_asymm hlt hback
    · exact ne_of_gt hlt hsame
    · exact lt_irrefl _ hback
    · exact hrest hback

theorem front_le {front text : List α} (h : front <+: text) : front ≤ text := by
  obtain ⟨rest, rfl⟩ := h
  induction front with
  | nil => exact not_lt.1 (List.not_lt_nil _)
  | cons a front ih =>
      rw [List.cons_append, cons_le_cons_iff]
      exact Or.inr ⟨rfl, ih⟩

/-- Texts between a front and a text with this front have it too. -/
theorem prefix_of_between {front text other : List α} (h : front <+: text)
    (hlow : front ≤ other) (hhigh : other ≤ text) : front <+: other := by
  induction front generalizing text other with
  | nil => exact List.nil_prefix
  | cons a front ih =>
      obtain ⟨rest, rfl⟩ := h
      cases other with
      | nil => exact absurd hlow (not_le_of_gt (List.nil_lt_cons a front))
      | cons b other =>
          rw [List.cons_append] at hhigh
          rw [cons_le_cons_iff] at hlow hhigh
          have hsame : a = b := by
            cases hlow with
            | inr hlow => exact hlow.1
            | inl hlow =>
                cases hhigh with
                | inl hhigh => exact absurd hlow (lt_asymm hhigh)
                | inr hhigh => exact hhigh.1.symm
          subst hsame
          have hlow : front ≤ other := by simpa using hlow
          have hhigh : other ≤ front ++ rest := by simpa using hhigh
          rw [List.prefix_cons_inj]
          exact ih (List.prefix_append front rest) hlow hhigh

/-- The first text that is not before a front has this front, if any text has. -/
theorem find?_front {β : Type*} {text : β → List α} {entries : List β}
    (hsorted : entries.Pairwise fun a b => text a ≤ text b) (front : List α) :
    (entries.find? fun entry => decide (front ≤ text entry)).any
        (fun entry => front.isPrefixOf (text entry)) = true ↔
      ∃ entry ∈ entries, front <+: text entry := by
  constructor
  · intro h
    rw [Option.any_eq_true] at h
    obtain ⟨entry, hfound, hfront⟩ := h
    exact ⟨entry, List.mem_of_find?_eq_some hfound, List.isPrefixOf_iff_prefix.1 hfront⟩
  · rintro ⟨entry, hentry, hfront⟩
    induction entries with
    | nil => cases hentry
    | cons first entries ih =>
        obtain ⟨hfirst, hrest⟩ := List.pairwise_cons.1 hsorted
        by_cases hle : front ≤ text first
        · have hbelow : text first ≤ text entry := by
            cases hentry with
            | head => exact le_refl _
            | tail _ hentry => exact hfirst entry hentry
          rw [List.find?_cons_of_pos (by simpa using hle), Option.any_some,
            List.isPrefixOf_iff_prefix]
          exact prefix_of_between hfront hle hbelow
        · have hother : entry ∈ entries := by
            cases hentry with
            | head => exact absurd (front_le hfront) hle
            | tail _ hentry => exact hentry
          rw [List.find?_cons_of_neg (by simpa using hle)]
          exact ih hrest hother

end

/-! ## Components -/

variable [DecidableEq α] {sep : α}

/-- The path is above the other: its components are fewer, and the first ones of the other. -/
def Above (sep : α) (path other : List α) : Prop :=
  path.splitOn sep <+: other.splitOn sep ∧ path ≠ other

theorem not_mem_of_mem_splitOn {path component : List α} (h : component ∈ path.splitOn sep) :
    sep ∉ component := by
  induction path generalizing component with
  | nil =>
      rw [List.splitOn_nil, List.mem_singleton] at h
      rw [h]
      exact List.not_mem_nil
  | cons a path ih =>
      rw [List.splitOn_cons_eq_if_modifyHead] at h
      by_cases hsep : (a == sep) = true
      · rw [if_pos hsep] at h
        cases h with
        | head => exact List.not_mem_nil
        | tail _ h => exact ih h
      · rw [if_neg hsep] at h
        cases hsplit : path.splitOn sep with
        | nil => exact absurd hsplit (List.splitOn_ne_nil sep path)
        | cons first rest =>
            rw [hsplit, List.modifyHead_cons] at h
            cases h with
            | head =>
                have hfirst : sep ∉ first := ih (hsplit ▸ List.mem_cons_self)
                have hother : sep ≠ a := by
                  intro hsame
                  exact hsep (beq_iff_eq.2 hsame.symm)
                simp [hfirst, hother]
            | tail _ h => exact ih (hsplit ▸ List.mem_cons_of_mem _ h)

theorem mem_of_mem_splitOn {path component : List α} {a : α} (h : component ∈ path.splitOn sep)
    (ha : a ∈ component) : a ∈ path := by
  induction path generalizing component with
  | nil =>
      rw [List.splitOn_nil, List.mem_singleton] at h
      rwa [h] at ha
  | cons b path ih =>
      rw [List.splitOn_cons_eq_if_modifyHead] at h
      by_cases hsep : (b == sep) = true
      · rw [if_pos hsep] at h
        cases h with
        | head => exact absurd ha List.not_mem_nil
        | tail _ h => exact List.mem_cons_of_mem _ (ih h ha)
      · rw [if_neg hsep] at h
        cases hsplit : path.splitOn sep with
        | nil => exact absurd hsplit (List.splitOn_ne_nil sep path)
        | cons first rest =>
            rw [hsplit, List.modifyHead_cons] at h
            cases h with
            | head =>
                rcases List.mem_cons.1 ha with hhead | hmem
                · rw [hhead]
                  exact List.mem_cons_self
                · exact List.mem_cons_of_mem _ (ih (hsplit ▸ List.mem_cons_self) hmem)
            | tail _ h =>
                exact List.mem_cons_of_mem _ (ih (hsplit ▸ List.mem_cons_of_mem _ h) ha)

theorem splitOn_injective {path other : List α} (h : path.splitOn sep = other.splitOn sep) :
    path = other := by
  calc path = [sep].intercalate (path.splitOn sep) := (List.intercalate_splitOn sep).symm
    _ = other := by rw [h, List.intercalate_splitOn]

omit [DecidableEq α] in
theorem intercalate_append {components more : List (List α)} (hcomponents : components ≠ [])
    (hmore : more ≠ []) :
    [sep].intercalate (components ++ more) =
      [sep].intercalate components ++ sep :: [sep].intercalate more := by
  induction components with
  | nil => exact absurd rfl hcomponents
  | cons component components ih =>
      by_cases hlast : components = []
      · subst hlast
        rw [List.singleton_append, List.intercalate_cons_of_ne_nil hmore,
          List.intercalate_singleton, List.append_assoc, List.singleton_append]
      · have hrest : components ++ more ≠ [] := by simp [hmore]
        rw [List.cons_append, List.intercalate_cons_of_ne_nil hrest, ih hlast,
          List.intercalate_cons_of_ne_nil hlast]
        simp only [List.append_assoc]

/-- A path is above another if and only if the other starts with it and a separator. -/
theorem above_iff {path other : List α} : Above sep path other ↔ path ++ [sep] <+: other := by
  constructor
  · rintro ⟨⟨more, hmore⟩, hne⟩
    have hmore_ne : more ≠ [] := by
      intro hnil
      rw [hnil, List.append_nil] at hmore
      exact hne (splitOn_injective hmore)
    have hother : other = path ++ sep :: [sep].intercalate more := by
      have hjoin : [sep].intercalate (path.splitOn sep ++ more) = _ :=
        intercalate_append (List.splitOn_ne_nil sep path) hmore_ne
      rw [hmore, List.intercalate_splitOn, List.intercalate_splitOn] at hjoin
      exact hjoin
    exact ⟨[sep].intercalate more, by rw [hother]; simp⟩
  · rintro ⟨rest, rfl⟩
    rw [List.append_assoc, List.singleton_append]
    constructor
    · rw [List.splitOn_append_cons_self]
      exact List.prefix_append _ _
    · intro hsame
      have hlength := congrArg List.length hsame
      simp at hlength

theorem Above.trans {path other last : List α} (h : Above sep path other)
    (hlast : Above sep other last) : Above sep path last := by
  rw [above_iff] at h hlast ⊢
  exact h.trans ((List.prefix_append _ _).trans hlast)

theorem Above.irrefl (path : List α) : ¬Above sep path path := fun h => h.2 rfl

/-- A path is above another, or they are the same, if and only if its components start the
other's. -/
theorem prefix_iff {path other : List α} :
    path.splitOn sep <+: other.splitOn sep ↔ path = other ∨ Above sep path other := by
  constructor
  · intro h
    by_cases hsame : path = other
    · exact Or.inl hsame
    · exact Or.inr ⟨h, hsame⟩
  · rintro (rfl | h)
    · exact List.prefix_rfl
    · exact h.1

/-! ## The paths above a path -/

/-- A path that is extended by a component. -/
def push (sep : α) (front component : List α) : List α :=
  (if front.isEmpty then front else front ++ [sep]) ++ component

/-- The paths that come about when components are added one by one. -/
def pushes (sep : α) (front : List α) : List (List α) → List (List α)
  | [] => []
  | component :: components =>
      push sep front component :: pushes sep (push sep front component) components

omit [DecidableEq α] in
theorem push_intercalate {done : List (List α)} {component : List α}
    (hdone : ∀ c ∈ done, c ≠ []) :
    push sep ([sep].intercalate done) component = [sep].intercalate (done ++ [component]) := by
  unfold push
  cases done with
  | nil => simp
  | cons first done =>
      have hfirst : first ≠ [] := hdone first List.mem_cons_self
      have hne : ¬([sep].intercalate (first :: done)).isEmpty = true := by
        cases done <;> simp [hfirst]
      rw [if_neg hne, intercalate_append (List.cons_ne_nil _ _) (List.cons_ne_nil _ _),
        List.intercalate_singleton, List.append_assoc, List.singleton_append]

omit [DecidableEq α] in
theorem mem_pushes {done components : List (List α)} (hdone : ∀ c ∈ done, c ≠ [])
    (hcomponents : ∀ c ∈ components, c ≠ []) {path : List α} :
    path ∈ pushes sep ([sep].intercalate done) components ↔
      ∃ init, init ≠ [] ∧ init <+: components ∧ path = [sep].intercalate (done ++ init) := by
  induction components generalizing done with
  | nil =>
      constructor
      · intro h
        cases h
      · rintro ⟨init, hinit, hnil, -⟩
        exact absurd (List.prefix_nil.1 hnil) hinit
  | cons component components ih =>
      have hmore : ∀ c ∈ done ++ [component], c ≠ [] := by
        intro c hc
        cases List.mem_append.1 hc with
        | inl hc => exact hdone c hc
        | inr hc =>
            rw [List.mem_singleton.1 hc]
            exact hcomponents component List.mem_cons_self
      have hrest := @ih (done ++ [component]) hmore
        fun c hc => hcomponents c (List.mem_cons_of_mem _ hc)
      unfold pushes
      rw [push_intercalate hdone, List.mem_cons, hrest]
      constructor
      · rintro (rfl | ⟨init, -, hinit, rfl⟩)
        · exact ⟨[component], by simp, by simp, rfl⟩
        · exact ⟨component :: init, by simp, (List.prefix_cons_inj _).2 hinit, by simp⟩
      · rintro ⟨init, hne, hinit, rfl⟩
        cases init with
        | nil => exact absurd rfl hne
        | cons first init =>
            obtain ⟨hfirst, htail⟩ := List.cons_prefix_cons.1 hinit
            subst hfirst
            by_cases hlast : init = []
            · subst hlast
              exact Or.inl rfl
            · exact Or.inr ⟨init, hlast, htail, by simp⟩

/-- The paths above a path without empty components are those of all components but the last. -/
theorem mem_pushes_dropLast {path other : List α} (h : ∀ c ∈ other.splitOn sep, c ≠ []) :
    path ∈ pushes sep [] (other.splitOn sep).dropLast ↔ Above sep path other := by
  have hparts : ∀ c ∈ (other.splitOn sep).dropLast, c ≠ [] :=
    fun c hc => h c (List.mem_of_mem_dropLast hc)
  have hmem := @mem_pushes α sep [] _ nofun hparts path
  rw [List.intercalate_nil] at hmem
  rw [hmem]
  have hsplit := List.dropLast_append_getLast (List.splitOn_ne_nil sep other)
  constructor
  · rintro ⟨init, hne, hinit, rfl⟩
    have hnosep : ∀ c ∈ init, sep ∉ c := by
      intro c hc
      exact not_mem_of_mem_splitOn (List.mem_of_mem_dropLast (hinit.subset hc))
    have hback : ([sep].intercalate init).splitOn sep = init := List.splitOn_intercalate sep hnosep hne
    rw [List.nil_append]
    constructor
    · rw [hback]
      exact hinit.trans (List.dropLast_prefix _)
    · intro hsame
      rw [← hsame, hback] at hinit
      have hlength := hinit.length_le
      have hpos := List.length_pos_of_ne_nil hne
      rw [List.length_dropLast] at hlength
      omega
  · rintro ⟨hfront, hne⟩
    refine ⟨path.splitOn sep, List.splitOn_ne_nil sep path, ?_, ?_⟩
    · rw [← hsplit, List.prefix_concat_iff] at hfront
      cases hfront with
      | inl hsame =>
          rw [hsplit] at hsame
          exact absurd (splitOn_injective hsame) hne
      | inr hfront => exact hfront
    · rw [List.nil_append, List.intercalate_splitOn]

theorem above_push {front component : List α} (hfront : front ≠ []) :
    Above sep front (push sep front component) := by
  rw [above_iff]
  unfold push
  rw [if_neg (by simpa using hfront)]
  exact List.prefix_append _ _

/-- Every path stands behind those above it. -/
theorem pushes_pairwise {front : List α} {components : List (List α)}
    (hcomponents : ∀ c ∈ components, c ≠ []) :
    (pushes sep front components).Pairwise (Above sep) ∧
      (front ≠ [] → ∀ path ∈ pushes sep front components, Above sep front path) := by
  induction components generalizing front with
  | nil => exact ⟨List.Pairwise.nil, fun _ _ h => nomatch h⟩
  | cons component components ih =>
      have hpush : push sep front component ≠ [] := by
        unfold push
        simp [hcomponents component List.mem_cons_self]
      obtain ⟨hpairwise, habove⟩ := @ih (push sep front component)
        fun c hc => hcomponents c (List.mem_cons_of_mem _ hc)
      refine ⟨List.pairwise_cons.2 ⟨habove hpush, hpairwise⟩, fun hfront path hpath => ?_⟩
      cases hpath with
      | head => exact above_push hfront
      | tail _ hpath => exact (above_push hfront).trans (habove hpush path hpath)

end MCode.Lib.Paths
