import MCode.Edit.Windows

/-!
# Ranking

A rank keeps the nearest window and the runner-up of those that it was shown.  The
loops show it every window of the text that is within the ranking distance, so that
what is planned is the nearest window of all, if it beats all others by the margin.
-/

namespace MCode.Edit.Fuzzy

open MCode.Lib MCode.Tools
open MCode.Lib.Results (bind_ok isOk_true)
open MCode.Lib.EditDistance (levenshtein)
open MCode.Edit.Literal (Text)
open MCode.Edit.Template (Failure)

/-! ## Best and runner-up -/

/-- No candidate that was seen is nearer. -/
def Least (best : Candidate) (seen : Set Candidate) : Prop :=
  best ∈ seen ∧ ∀ c ∈ seen, best.distance ≤ c.distance

/-- The best and the runner-up of what was seen. -/
inductive Ranks : Rank → Set Candidate → Prop
  | empty (preview : List PreviewCandidate) : Ranks ⟨none, none, preview⟩ ∅
  | one (best : Candidate) (preview : List PreviewCandidate) :
      Ranks ⟨some best, none, preview⟩ {best}
  | two {best second : Candidate} {seen : Set Candidate} (preview : List PreviewCandidate)
      (hbest : Least best seen) (hsecond : Least second (seen \ {best})) :
      Ranks ⟨some best, some second, preview⟩ seen

section Ranks

variable {rank : Rank} {seen : Set Candidate}

/-- The near misses that are shown have no part in the ranking. -/
theorem Ranks.preview (h : Ranks rank seen) (preview : List PreviewCandidate) :
    Ranks { rank with preview } seen := by
  cases h with
  | empty => exact .empty preview
  | one best => exact .one best preview
  | two _ hbest hsecond => exact .two preview hbest hsecond

theorem Least.insert {best new : Candidate} (h : Least best seen)
    (hle : best.distance ≤ new.distance) : Least best (insert new seen) := by
  constructor
  · exact Set.mem_insert_of_mem new h.1
  · intro c hc
    rcases Set.mem_insert_iff.1 hc with rfl | hc
    · exact hle
    · exact h.2 c hc

theorem diff_insert_self {best new : Candidate} (hne : new ≠ best) :
    insert new seen \ {best} = insert new (seen \ {best}) :=
  Set.insert_sdiff_of_notMem seen hne

/-- One more candidate, where a range has one distance. -/
theorem Ranks.consider (h : Ranks rank seen) (new : Candidate)
    (hrange : ∀ c ∈ seen, new.start = c.start → new.stop = c.stop → new = c) :
    Ranks (consider rank new) (insert new seen) := by
  unfold Fuzzy.consider
  dsimp only
  cases h with
  | empty preview =>
      rw [insert_empty_eq]
      exact .one new _
  | one best preview =>
      dsimp only
      by_cases hsame : new.start = best.start ∧ new.stop = best.stop
      · have hnew := hrange best rfl hsame.1 hsame.2
        subst hnew
        rw [if_pos hsame, if_neg (Nat.lt_irrefl _), Set.insert_eq_of_mem (Set.mem_singleton new)]
        exact .one new _
      · have hne : new ≠ best := by
          rintro rfl
          exact hsame ⟨rfl, rfl⟩
        have hbest : best ∈ insert new {best} := Set.mem_insert_of_mem new rfl
        have hfirst : new.distance ≤ best.distance → Least new (insert new {best}) := by
          intro hle
          refine ⟨Set.mem_insert new _, ?_⟩
          rintro c (rfl | rfl)
          · exact Nat.le_refl _
          · exact hle
        have hother : best.distance ≤ new.distance → Ranks
            ⟨some best, some new, rememberPreview preview
              ⟨new.start, new.stop, .Exact new.distance⟩⟩ (insert new {best}) := by
          intro hle
          apply Ranks.two
          · exact Least.insert ⟨rfl, fun c hc => hc ▸ Nat.le_refl _⟩ hle
          · rw [diff_insert_self hne, Set.sdiff_self]
            refine ⟨Set.mem_insert new _, ?_⟩
            rintro c (rfl | hc)
            · exact Nat.le_refl _
            · exact hc.elim
        rw [if_neg hsame]
        split
        · rename_i hlt
          apply Ranks.two _ (hfirst (Nat.le_of_lt hlt))
          refine ⟨⟨hbest, Ne.symm hne⟩, ?_⟩
          rintro c ⟨rfl | rfl, hc⟩
          · exact absurd rfl hc
          · exact Nat.le_refl _
        · split
          · exact hother (by omega)
          · exact hother (by omega)
  | @two best second seen preview hbest hsecond =>
      dsimp only
      by_cases hsame : new.start = best.start ∧ new.stop = best.stop
      · have hnew := hrange best hbest.1 hsame.1 hsame.2
        subst hnew
        rw [if_pos hsame, if_neg (Nat.lt_irrefl _), Set.insert_eq_of_mem hbest.1]
        exact .two _ hbest hsecond
      · have hne : new ≠ best := by
          rintro rfl
          exact hsame ⟨rfl, rfl⟩
        -- the runner-up is the new one
        have hnew (hle : ∀ c ∈ seen \ {best}, new.distance ≤ c.distance) :
            Least new (insert new seen \ {best}) := by
          rw [diff_insert_self hne]
          refine ⟨Set.mem_insert new _, ?_⟩
          rintro c (rfl | hc)
          · exact Nat.le_refl _
          · exact hle c hc
        have hleast := hbest.2
        have hnext := hsecond.2
        rw [if_neg hsame]
        split
        · rename_i hlt
          apply Ranks.two
          · refine ⟨Set.mem_insert new _, ?_⟩
            rintro c (rfl | hc)
            · exact Nat.le_refl _
            · exact (Nat.le_of_lt hlt).trans (hleast c hc)
          · refine ⟨⟨Set.mem_insert_of_mem new hbest.1, Ne.symm hne⟩, ?_⟩
            rintro c ⟨rfl | hc, hother⟩
            · exact absurd rfl hother
            · exact hleast c hc
        · split
          · rename_i hle heq
            apply Ranks.two _ (hbest.insert (by omega))
            exact hnew fun c hc => heq ▸ hleast c hc.1
          · split
            · rename_i hlt
              apply Ranks.two _ (hbest.insert (by omega))
              exact hnew fun c hc => (Nat.le_of_lt hlt).trans (hnext c hc)
            · apply Ranks.two _ (hbest.insert (by omega))
              rw [diff_insert_self hne]
              exact hsecond.insert (by omega)

end Ranks

/-! ## The windows of one start -/

/-- The windows of a kind that are within the distance. -/
def near (needle haystack : Normalized) (limit : Nat) (kind : Nat → Nat → Prop) :
    Set Candidate :=
  {c | ∃ start wlen, IsWindow haystack start wlen ∧
    windowDistance needle haystack start wlen ≤ limit ∧ kind start wlen ∧
    c = candidate needle haystack start wlen}

section Loops

variable {table : Alphanumeric} {place : Nat} {needle haystack : Normalized} {texts : List Text}
  {limit : Nat} {kind kind' : Nat → Nat → Prop}

theorem near_congr
    (h : ∀ start wlen, IsWindow haystack start wlen →
      windowDistance needle haystack start wlen ≤ limit → (kind start wlen ↔ kind' start wlen)) :
    near needle haystack limit kind = near needle haystack limit kind' := by
  ext c
  constructor
  · rintro ⟨start, wlen, hwindow, hle, hkind, rfl⟩
    exact ⟨start, wlen, hwindow, hle, (h start wlen hwindow hle).1 hkind, rfl⟩
  · rintro ⟨start, wlen, hwindow, hle, hkind, rfl⟩
    exact ⟨start, wlen, hwindow, hle, (h start wlen hwindow hle).2 hkind, rfl⟩

theorem near_insert {start wlen : Nat} (hwindow : IsWindow haystack start wlen)
    (hle : windowDistance needle haystack start wlen ≤ limit) :
    near needle haystack limit (fun s w => kind s w ∨ s = start ∧ w = wlen) =
      insert (candidate needle haystack start wlen) (near needle haystack limit kind) := by
  ext c
  constructor
  · rintro ⟨s, w, hw, hd, hkind | ⟨rfl, rfl⟩, rfl⟩
    · exact Or.inr ⟨s, w, hw, hd, hkind, rfl⟩
    · exact Or.inl rfl
  · rintro (rfl | ⟨s, w, hw, hd, hkind, rfl⟩)
    · exact ⟨start, wlen, hwindow, hle, Or.inr ⟨rfl, rfl⟩, rfl⟩
    · exact ⟨s, w, hw, hd, Or.inl hkind, rfl⟩

/-- What is made of one window. -/
def shown (needle haystack : Normalized) (limit : Nat) (rank : Rank) (start wlen : Nat) : Rank :=
  let new := candidate needle haystack start wlen
  if new.distance ≤ limit then consider rank new
  else { rank with
    preview := rememberPreview rank.preview ⟨new.start, new.stop, .GreaterThan limit⟩ }

theorem Ranks.shown {rank : Rank} (h : Ranks rank (near needle haystack limit kind))
    (hcut : Cut table place haystack texts) {start wlen : Nat}
    (hwindow : IsWindow haystack start wlen) :
    Ranks (shown needle haystack limit rank start wlen)
      (near needle haystack limit fun s w => kind s w ∨ s = start ∧ w = wlen) := by
  unfold Fuzzy.shown
  dsimp only
  by_cases hle : windowDistance needle haystack start wlen ≤ limit
  · rw [if_pos (show (candidate needle haystack start wlen).distance ≤ limit from hle),
      near_insert hwindow hle]
    apply h.consider
    rintro c ⟨s, w, hw, -, -, rfl⟩ hstart hstop
    obtain ⟨rfl, rfl⟩ := candidate_inj hcut hwindow hw hstart hstop
    rfl
  · rw [if_neg (show ¬(candidate needle haystack start wlen).distance ≤ limit from hle)]
    have hsame : near needle haystack limit (fun s w => kind s w ∨ s = start ∧ w = wlen) =
        near needle haystack limit kind := by
      apply near_congr
      intro s w _ hnear
      constructor
      · rintro (hkind | ⟨rfl, rfl⟩)
        · exact hkind
        · exact absurd hnear hle
      · exact Or.inl
    rw [hsame]
    exact h.preview _

/-- A round of the loop shows its window. -/
theorem windowLoop_succ (hcut : Cut table place haystack texts)
    (hshort : needle.norm.length ≤ MAX_FUZZY_NORM_CHARS) (hlimit : limit < U32_MAX)
    {start wlen count attempted : Nat} {rank : Rank} (hwindow : IsWindow haystack start wlen)
    (hfew : attempted + 1 ≤ MAX_FUZZY_WINDOWS) :
    windowLoop needle haystack limit false start (count + 1) wlen (rank, attempted) =
      windowLoop needle haystack limit false start count (wlen + 1)
        (shown needle haystack limit rank start wlen, attempted + 1) := by
  obtain ⟨first, last, hfirst, hlast⟩ := hwindow.tokens
  have hdistance : boundedLevenshteinStr needle.norm (haystack.slice first.normStart last.normEnd)
      limit = exactWithin needle.norm (windowText haystack start wlen) limit := by
    rw [slice_window hcut hwindow.1 hfirst hlast,
      boundedLevenshteinStr_eq hshort _ (Nat.le_of_lt hlimit)]
    exact (capped_exact_iff _ _ (Nat.le_of_lt hlimit)).2 (Or.inl hlimit)
  have hnew : candidate needle haystack start wlen =
      ⟨first.origStart, last.origEnd, windowDistance needle haystack start wlen⟩ := by
    unfold candidate
    rw [hfirst, hlast]
    rfl
  rw [windowLoop]
  dsimp only
  rw [if_neg (Nat.not_lt.2 hwindow.2), if_neg (Nat.not_lt.2 hfew), hfirst, hlast]
  dsimp only
  unfold shown
  rw [hdistance, hnew]
  dsimp only
  unfold exactWithin windowDistance
  by_cases hnear : levenshtein needle.norm (windowText haystack start wlen) ≤ limit
  · rw [if_pos hnear, if_pos hnear]
    split <;> rfl
  · rw [if_neg hnear, if_neg hnear]
    split <;> rfl

/-- A step of the search: it runs into its budget, or shows windows of one more kind. -/
def Shows (needle haystack : Normalized) (limit : Nat)
    (step : Rank × Nat → Except Failure (Rank × Nat)) (more : Nat → Nat → Prop) : Prop :=
  ∀ (kind : Nat → Nat → Prop) (state : Rank × Nat),
    Ranks state.1 (near needle haystack limit kind) →
      (∃ message, step state = .error (.Error (.InvalidArgs message))) ∨
        ∃ after, step state = .ok after ∧
          Ranks after.1 (near needle haystack limit fun s w => kind s w ∨ more s w)

theorem Shows.congr {step : Rank × Nat → Except Failure (Rank × Nat)}
    {more more' : Nat → Nat → Prop} (h : Shows needle haystack limit step more)
    (hsame : ∀ s w, IsWindow haystack s w → (more s w ↔ more' s w)) :
    Shows needle haystack limit step more' := by
  intro kind state hranks
  have hkind : near needle haystack limit (fun s w => kind s w ∨ more s w) =
      near needle haystack limit (fun s w => kind s w ∨ more' s w) :=
    near_congr fun s w hw _ => or_congr_right (hsame s w hw)
  rw [← hkind]
  exact h kind state hranks

/-- A step that has nothing to show. -/
theorem Shows.none {more : Nat → Nat → Prop} (h : ∀ s w, IsWindow haystack s w → ¬more s w) :
    Shows needle haystack limit Except.ok more := by
  intro kind state hranks
  refine Or.inr ⟨state, rfl, ?_⟩
  have hkind : near needle haystack limit (fun s w => kind s w ∨ more s w) =
      near needle haystack limit kind :=
    near_congr fun s w hw _ => or_iff_left (h s w hw)
  rw [hkind]
  exact hranks

theorem Shows.bind {step next : Rank × Nat → Except Failure (Rank × Nat)}
    {more later : Nat → Nat → Prop} (h : Shows needle haystack limit step more)
    (hnext : Shows needle haystack limit next later) :
    Shows needle haystack limit (fun state => step state >>= next)
      (fun s w => more s w ∨ later s w) := by
  intro kind state hranks
  dsimp only
  rcases h kind state hranks with ⟨message, herror⟩ | ⟨after, hok, hafter⟩
  · rw [herror]
    exact Or.inl ⟨message, rfl⟩
  · rw [hok]
    rcases hnext _ after hafter with ⟨message, herror⟩ | ⟨last, hlast, hranks⟩
    · exact Or.inl ⟨message, herror⟩
    · refine Or.inr ⟨last, hlast, ?_⟩
      have hkind : near needle haystack limit (fun s w => kind s w ∨ more s w ∨ later s w) =
          near needle haystack limit (fun s w => (kind s w ∨ more s w) ∨ later s w) :=
        near_congr fun s w _ _ => or_assoc.symm
      rw [hkind]
      exact hranks

/-- The loop shows the windows of its start and its lengths. -/
theorem windowLoop_shows (hcut : Cut table place haystack texts)
    (hshort : needle.norm.length ≤ MAX_FUZZY_NORM_CHARS) (hlimit : limit < U32_MAX)
    (start count : Nat) {wlen : Nat} (hpos : 1 ≤ wlen) :
    Shows needle haystack limit (windowLoop needle haystack limit false start count wlen)
      (fun s w => s = start ∧ wlen ≤ w ∧ w < wlen + count) := by
  induction count generalizing wlen with
  | zero =>
      apply Shows.none
      intro s w _ hmore
      omega
  | succ count ih =>
      intro kind state hranks
      obtain ⟨rank, attempted⟩ := state
      by_cases hlong : haystack.tokens.length < start + wlen
      · have hstop : windowLoop needle haystack limit false start (count + 1) wlen
            (rank, attempted) = .ok (rank, attempted) := by
          rw [windowLoop]
          exact if_pos hlong
        rw [hstop]
        refine Shows.none ?_ kind (rank, attempted) hranks
        intro s w hw hmore
        have hin := hw.2
        omega
      · have hwindow : IsWindow haystack start wlen := ⟨hpos, Nat.not_lt.1 hlong⟩
        by_cases hmany : MAX_FUZZY_WINDOWS < attempted + 1
        · rw [windowLoop]
          dsimp only
          rw [if_neg hlong, if_pos hmany]
          exact Or.inl ⟨_, rfl⟩
        · rw [windowLoop_succ hcut hshort hlimit hwindow (Nat.not_lt.1 hmany)]
          have hrest := ih (Nat.le_succ_of_le hpos) _
            (shown needle haystack limit rank start wlen, attempted + 1)
            (hranks.shown hcut hwindow)
          have hkind : near needle haystack limit
              (fun s w => kind s w ∨ s = start ∧ wlen ≤ w ∧ w < wlen + (count + 1)) =
              near needle haystack limit (fun s w => (kind s w ∨ s = start ∧ w = wlen) ∨
                s = start ∧ wlen + 1 ≤ w ∧ w < wlen + 1 + count) := by
            apply near_congr
            intro s w _ _
            rw [or_assoc]
            apply or_congr_right
            omega
          rw [hkind]
          exact hrest

/-- The loop over the starts. -/
theorem starts_shows (hcut : Cut table place haystack texts)
    (hshort : needle.norm.length ≤ MAX_FUZZY_NORM_CHARS) (hlimit : limit < U32_MAX)
    (count : Nat) {wlen : Nat} (hpos : 1 ≤ wlen) (starts : List Nat) :
    Shows needle haystack limit
      (fun state => starts.foldlM (fun state start =>
        windowLoop needle haystack limit false start count wlen state) state)
      (fun s w => s ∈ starts ∧ wlen ≤ w ∧ w < wlen + count) := by
  induction starts with
  | nil =>
      apply Shows.none
      intro s w _ hmore
      exact absurd hmore.1 List.not_mem_nil
  | cons start starts ih =>
      have hboth := (windowLoop_shows hcut hshort hlimit start count hpos).bind ih
      apply hboth.congr
      intro s w _
      rw [List.mem_cons, or_and_right]

/-! ## The starts -/

theorem insertStart_spec (starts : List Nat) (start : Nat) :
    insertStart starts start = .error tooManyStarts ∨
      ∃ after, insertStart starts start = .ok after ∧ ∀ s, s ∈ after ↔ s = start ∨ s ∈ starts := by
  have hmem : ∀ s, s ∈ (if start ∈ starts then starts
      else starts.orderedInsert (· ≤ ·) start) ↔ s = start ∨ s ∈ starts := by
    intro s
    split
    · rename_i hin
      constructor
      · exact Or.inr
      · rintro (rfl | hs)
        · exact hin
        · exact hs
    · exact List.mem_orderedInsert _
  unfold insertStart
  dsimp only
  by_cases hmany : MAX_FUZZY_WINDOWS <
      (if start ∈ starts then starts else starts.orderedInsert (· ≤ ·) start).length
  · rw [if_pos hmany]
    exact Or.inl rfl
  · rw [if_neg hmany]
    exact Or.inr ⟨_, rfl, hmem⟩

theorem insertStarts_spec (news starts : List Nat) :
    news.foldlM insertStart starts = .error tooManyStarts ∨
      ∃ after, news.foldlM insertStart starts = .ok after ∧
        ∀ s, s ∈ after ↔ s ∈ news ∨ s ∈ starts := by
  induction news generalizing starts with
  | nil => exact Or.inr ⟨starts, rfl, fun s => by simp⟩
  | cons new news ih =>
      rw [List.foldlM_cons]
      rcases insertStart_spec starts new with herror | ⟨middle, hmiddle, hmem⟩
      · rw [herror]
        exact Or.inl rfl
      · rw [hmiddle]
        rcases ih middle with herror | ⟨after, hafter, hall⟩
        · exact Or.inl herror
        · refine Or.inr ⟨after, hafter, ?_⟩
          intro s
          rw [hall s, hmem s, List.mem_cons]
          exact ⟨fun h => h.elim (fun h => Or.inl (Or.inr h))
              (fun h => h.elim (fun h => Or.inl (Or.inl h)) Or.inr),
            fun h => h.elim (fun h => h.elim (fun h => Or.inr (Or.inl h)) Or.inl)
              (fun h => Or.inr (Or.inr h))⟩

/-- The starts of the windows that hold an anchor at one of the tokens. -/
theorem startsLoop_spec (words : List Text) (haystack : Normalized) (maxToks : Nat)
    {tokens : List Token} : ∀ {index : Nat} {starts : List Nat},
      startsLoop words haystack maxToks false tokens index starts = .error tooManyStarts ∨
        ∃ after, startsLoop words haystack maxToks false tokens index starts = .ok after ∧
          starts ⊆ after ∧ ∀ i token, tokens[i]? = some token → token.isWord = true →
            haystack.text token ∈ words → ∀ s, index + i < s + maxToks → s ≤ index + i →
              s ∈ after := by
  induction tokens with
  | nil =>
      intro index starts
      exact Or.inr ⟨starts, rfl, List.Subset.refl _, fun i token htoken => by cases htoken⟩
  | cons token tokens ih =>
      intro index starts
      have hround : startsLoop words haystack maxToks false (token :: tokens) index starts =
          if token.isWord ∧ haystack.text token ∈ words then
            (List.range' (index - (maxToks - 1))
              (index + 1 - (index - (maxToks - 1)))).foldlM insertStart starts >>= fun starts =>
                startsLoop words haystack maxToks false tokens (index + 1) starts
          else startsLoop words haystack maxToks false tokens (index + 1) starts := by
        rw [startsLoop]
        split
        · rfl
        · rfl
      rw [hround]
      by_cases hanchor : token.isWord = true ∧ haystack.text token ∈ words
      · rw [if_pos hanchor]
        rcases insertStarts_spec (List.range' (index - (maxToks - 1))
          (index + 1 - (index - (maxToks - 1)))) starts with herror | ⟨middle, hmiddle, hmem⟩
        · rw [herror]
          exact Or.inl rfl
        · rw [hmiddle]
          rcases @ih (index + 1) middle with herror | ⟨after, hafter, hsub, hall⟩
          · exact Or.inl herror
          · refine Or.inr ⟨after, hafter, ?_, ?_⟩
            · exact fun s hs => hsub ((hmem s).2 (Or.inr hs))
            · intro i other hother hword htext s hlow hhigh
              cases i with
              | zero =>
                  apply hsub
                  rw [hmem, List.mem_range'_1]
                  omega
              | succ i => exact hall i other hother hword htext s (by omega) (by omega)
      · rw [if_neg hanchor]
        rcases @ih (index + 1) starts with herror | ⟨after, hafter, hsub, hall⟩
        · exact Or.inl herror
        · refine Or.inr ⟨after, hafter, hsub, ?_⟩
          intro i other hother hword htext s hlow hhigh
          cases i with
          | zero =>
              cases hother
              exact absurd ⟨hword, htext⟩ hanchor
          | succ i => exact hall i other hother hword htext s (by omega) (by omega)

variable {place' : Nat} {texts' : List Text}

/-- Every window that is near enough starts at one of the starts. -/
theorem candidateStarts_spec (hneedle : Cut table place' needle texts')
    (hcut : Cut table place haystack texts) (maxToks : Nat) :
    candidateStarts needle haystack maxToks limit false = .error tooManyStarts ∨
      ∃ starts, candidateStarts needle haystack maxToks limit false = .ok starts ∧
        ∀ start wlen, IsWindow haystack start wlen → wlen ≤ maxToks →
          windowDistance needle haystack start wlen ≤ limit → start ∈ starts := by
  have hwords : (needle.tokens.filter Token.isWord).map needle.text = needleWords needle := rfl
  unfold candidateStarts
  dsimp only
  rw [hwords]
  by_cases hrare : limit * 2 < (needleWords needle).length
  · rw [if_pos hrare]
    rcases @startsLoop_spec (needleWords needle) haystack maxToks haystack.tokens 0 [] with
      herror | ⟨starts, hstarts, -, hall⟩
    · exact Or.inl herror
    · refine Or.inr ⟨starts, hstarts, ?_⟩
      intro start wlen hwindow hlength hnear
      obtain ⟨i, token, hlow, hhigh, htoken, hword, htext⟩ :=
        anchored hneedle hcut hwindow (by omega)
      exact hall i token htoken hword htext start (by omega) (by omega)
  · rw [if_neg hrare]
    by_cases hmany : MAX_FUZZY_WINDOWS < haystack.tokens.length
    · rw [if_pos hmany]
      exact Or.inl rfl
    · rw [if_neg hmany]
      refine Or.inr ⟨_, rfl, ?_⟩
      intro start wlen hwindow _ _
      have hin := hwindow.2
      have hpos := hwindow.1
      exact List.mem_range.2 (by omega)

/-! ## The search -/

theorem ok_bind {α β : Type} (a : α) (f : α → Except Failure β) :
    (Except.ok a : Except Failure α) >>= f = f a := rfl

/-- The search runs into its budget, or ranks every window that is near enough. -/
theorem scoreWindows_spec (hneedle : Cut table place' needle texts')
    (hcut : Cut table place haystack texts) (hsome : needle.tokens ≠ [])
    (hshort : needle.norm.length ≤ MAX_FUZZY_NORM_CHARS) (hlimit : limit < U32_MAX) :
    (∃ message, scoreWindows needle haystack limit false = .error (.Error (.InvalidArgs message))) ∨
      ∃ rank, scoreWindows needle haystack limit false = .ok rank ∧
        Ranks rank (near needle haystack limit fun _ _ => True) := by
  unfold scoreWindows
  by_cases hnone : haystack.tokens = []
  · rw [if_pos hnone]
    refine Or.inr ⟨_, rfl, ?_⟩
    have hempty : near needle haystack limit (fun _ _ => True) = ∅ := by
      apply Set.eq_empty_of_forall_notMem
      rintro c ⟨start, wlen, ⟨hpos, hin⟩, -⟩
      rw [hnone] at hin
      exact absurd hin (by simp; omega)
    rw [hempty]
    exact .empty []
  · rw [if_neg hnone]
    dsimp only
    generalize hmin : Nat.max (needle.tokens.length - limit) 1 = minToks
    generalize hmax : needle.tokens.length + limit = maxToks
    have hlow : 1 ≤ minToks := by
      rw [← hmin]
      exact Nat.le_max_right _ _
    rcases candidateStarts_spec hneedle hcut maxToks with herror | ⟨starts, hstarts, hall⟩
    · rw [herror]
      exact Or.inl ⟨_, rfl⟩
    · have hmap : (Except.ok starts : Except ToolError (List Nat)).mapError Failure.Error =
          .ok starts := rfl
      rw [hstarts, hmap, ok_bind]
      have hbegin : Ranks ⟨none, none, []⟩ (near needle haystack limit fun _ _ => False) := by
        have hempty : near needle haystack limit (fun _ _ => False) = ∅ := by
          apply Set.eq_empty_of_forall_notMem
          rintro c ⟨start, wlen, -, -, hfalse, -⟩
          exact hfalse
        rw [hempty]
        exact .empty []
      rcases starts_shows hcut hshort hlimit (maxToks + 1 - minToks) hlow starts _
        (⟨none, none, []⟩, 0) hbegin with ⟨message, herror⟩ | ⟨⟨rank, attempted⟩, hrun, hranks⟩
      · dsimp only at herror
        rw [herror]
        exact Or.inl ⟨message, rfl⟩
      · right
        have hkind : near needle haystack limit (fun s w => False ∨ s ∈ starts ∧ minToks ≤ w ∧
            w < minToks + (maxToks + 1 - minToks)) =
              near needle haystack limit fun _ _ => True := by
          apply near_congr
          intro start wlen hwindow hnear
          obtain ⟨hfew, hmany⟩ := distance_band hneedle hcut hsome hwindow
          have hpos := hwindow.1
          have hstart := hall start wlen hwindow (by omega) hnear
          rw [false_or]
          refine iff_of_true ⟨hstart, ?_, by omega⟩ trivial
          rw [← hmin]
          exact Nat.max_le.2 ⟨by omega, hpos⟩
        rw [hkind] at hranks
        dsimp only at hrun hranks
        rw [hrun, ok_bind]
        dsimp only
        by_cases hempty : rank.preview.isEmpty = true
        · have hneeds := List.length_pos_iff.2 hsome
          have hlength := List.length_pos_iff.2 hnone
          rw [if_pos hempty, List.getElem?_eq_getElem hlength,
            List.getElem?_eq_getElem (show min maxToks haystack.tokens.length - 1 <
              haystack.tokens.length by omega)]
          exact ⟨_, rfl, hranks.preview _⟩
        · rw [if_neg hempty]
          exact ⟨rank, rfl, hranks⟩

/-! ## The verdict -/

/-- The bytes of a window. -/
def windowRange (haystack : Normalized) (start wlen : Nat) : Nat × Nat :=
  ((haystack.tokens[start]?.map Token.origStart).getD 0,
    (haystack.tokens[start + wlen - 1]?.map Token.origEnd).getD 0)

/-- A window that is near enough, where every other one is farther by the margin. -/
structure IsBest (needle haystack : Normalized) (maxDistance margin start wlen : Nat) : Prop where
  window : IsWindow haystack start wlen
  near : windowDistance needle haystack start wlen ≤ maxDistance
  farther : ∀ s w, IsWindow haystack s w → (s, w) ≠ (start, wlen) →
    windowDistance needle haystack start wlen + margin ≤ windowDistance needle haystack s w

def uniqueWithMargin (margin : Nat) (best : Candidate) : Option Candidate → Bool
  | none => true
  | some second => best.distance < second.distance && margin ≤ second.distance - best.distance

/-- The window that is planned. -/
def accepted (maxDistance margin : Nat) (rank : Rank) : Option Candidate :=
  match rank.best with
  | none => none
  | some best =>
      if maxDistance < best.distance then none
      else if uniqueWithMargin margin best rank.second then some best else none

variable {rank : Rank} {maxDistance margin : Nat}

theorem Ranks.best_mem {seen : Set Candidate} (h : Ranks rank seen) {best : Candidate}
    (hbest : rank.best = some best) : best ∈ seen := by
  cases h with
  | empty => cases hbest
  | one best =>
      cases hbest
      exact rfl
  | two _ hleast =>
      cases hbest
      exact hleast.1

/-- Of all windows that are ranked, all others are farther than the best by the margin. -/
theorem Ranks.apart {seen : Set Candidate} (h : Ranks rank seen) {best : Candidate}
    (hbest : rank.best = some best) (hunique : uniqueWithMargin margin best rank.second = true) :
    ∀ c ∈ seen, c ≠ best → best.distance + margin ≤ c.distance := by
  intro c hc hne
  cases h with
  | empty => cases hbest
  | one best =>
      cases hbest
      exact absurd hc hne
  | @two _ second _ _ hleast hsecond =>
      cases hbest
      have hnext := hsecond.2 c ⟨hc, hne⟩
      unfold uniqueWithMargin at hunique
      dsimp only at hunique
      rw [Bool.and_eq_true, decide_eq_true_eq, decide_eq_true_eq] at hunique
      omega

theorem Ranks.unique {seen : Set Candidate} (h : Ranks rank seen) {best : Candidate}
    (hmem : best ∈ seen) (hpos : 1 ≤ margin)
    (hfarther : ∀ c ∈ seen, c ≠ best → best.distance + margin ≤ c.distance) :
    rank.best = some best ∧ uniqueWithMargin margin best rank.second = true := by
  cases h with
  | empty => exact hmem.elim
  | one other =>
      cases hmem
      exact ⟨rfl, rfl⟩
  | @two other second _ _ hleast hsecond =>
      have hsame : other = best := by
        by_contra hne
        have hle := hleast.2 best hmem
        have hlt := hfarther other hleast.1 hne
        omega
      subst hsame
      have hlt := hfarther second hsecond.1.1 hsecond.1.2
      refine ⟨rfl, ?_⟩
      unfold uniqueWithMargin
      dsimp only
      rw [Bool.and_eq_true, decide_eq_true_eq, decide_eq_true_eq]
      omega

/-- What is accepted is the best window of all, since a window that is not ranked is farther
than the limit. -/
theorem accepted_iff (hcut : Cut table place haystack texts) (hpos : 1 ≤ margin)
    (hranks : Ranks rank (near needle haystack (maxDistance + (margin - 1)) fun _ _ => True))
    (c : Candidate) :
    accepted maxDistance margin rank = some c ↔
      ∃ start wlen, IsBest needle haystack maxDistance margin start wlen ∧
        c = candidate needle haystack start wlen := by
  constructor
  · intro h
    have hbest : rank.best = some c ∧ c.distance ≤ maxDistance ∧
        uniqueWithMargin margin c rank.second = true := by
      unfold accepted at h
      split at h
      · cases h
      · rename_i best hbest
        split at h
        · cases h
        · split at h
          · cases h
            exact ⟨hbest, by omega, by assumption⟩
          · cases h
    obtain ⟨hbest, hnear, hunique⟩ := hbest
    obtain ⟨start, wlen, hwindow, -, -, rfl⟩ := hranks.best_mem hbest
    refine ⟨start, wlen, ⟨hwindow, hnear, ?_⟩, rfl⟩
    intro s w hw hne
    by_cases hfar : windowDistance needle haystack s w ≤ maxDistance + (margin - 1)
    · apply hranks.apart hbest hunique (candidate needle haystack s w)
        ⟨s, w, hw, hfar, trivial, rfl⟩
      intro hsame
      obtain ⟨rfl, rfl⟩ := candidate_inj hcut hw hwindow (congrArg Candidate.start hsame)
        (congrArg Candidate.stop hsame)
      exact hne rfl
    · have hle : windowDistance needle haystack start wlen ≤ maxDistance := hnear
      omega
  · rintro ⟨start, wlen, ⟨hwindow, hnear, hfarther⟩, rfl⟩
    have hmem : candidate needle haystack start wlen ∈
        near needle haystack (maxDistance + (margin - 1)) fun _ _ => True :=
      ⟨start, wlen, hwindow, hnear.trans (Nat.le_add_right _ _), trivial, rfl⟩
    obtain ⟨hbest, hunique⟩ := hranks.unique hmem hpos (by
      rintro c ⟨s, w, hw, -, -, rfl⟩ hne
      apply hfarther s w hw
      intro hsame
      cases hsame
      exact hne rfl)
    have hnot : ¬maxDistance < (candidate needle haystack start wlen).distance :=
      Nat.not_lt.2 hnear
    unfold accepted
    rw [hbest]
    dsimp only
    rw [if_neg hnot, if_pos hunique]

end Loops

/-! ## Planning -/

theorem prepare_ok {table : Alphanumeric} {pattern replacement : Text} {maxDistance : Nat}
    {op : FuzzyOp} (h : prepare table pattern replacement maxDistance = .ok op) :
    op = ⟨pattern, replacement, maxDistance⟩ ∧ maxDistance ≤ MAX_FUZZY_DISTANCE ∧
      ∃ needle, normalize table pattern MAX_FUZZY_TOKENS false = .ok needle ∧
        needle.tokens ≠ [] ∧ needle.norm.length ≤ MAX_FUZZY_NORM_CHARS := by
  unfold prepare at h
  split at h
  · cases h
  · split at h
    · cases h
    · split at h
      · cases h
      · split at h
        · cases h
        · rename_i hdistance
          obtain ⟨needle, hneedle, h⟩ := bind_ok.1 h
          split at h
          · cases h
          · rename_i hsome
            split at h
            · cases h
            · rename_i hshort
              cases h
              exact ⟨rfl, by omega, needle, hneedle, hsome, Nat.not_lt.1 hshort⟩

theorem requiredMargin_bounds {length : Nat} (h : length ≤ MAX_FUZZY_NORM_CHARS) :
    1 ≤ requiredMargin length ∧ requiredMargin length ≤ MAX_FUZZY_NORM_CHARS := by
  have hmax : MAX_FUZZY_NORM_CHARS = 256 := rfl
  have hcap : U32_MAX = 4294967295 := rfl
  unfold requiredMargin FUZZY_MARGIN_STEP
  omega

/-- What is done with a rank. -/
def settleRank (op : FuzzyOp) (body : Text) (bomLen margin : Nat) (rank : Rank) : Planner Unit :=
  match accepted op.maxDistance margin rank with
  | some best =>
      .reserve (best.start + bomLen) (best.stop + bomLen) (Utf8.encode op.replacement)
  | none =>
      match rank.best with
      | none => .refuse (distanceOverflowError op.maxDistance rank.preview (Utf8.encode body))
      | some best =>
          if op.maxDistance < best.distance then
            .refuse (distanceOverflowError op.maxDistance rank.preview (Utf8.encode body))
          else .refuse (ambiguousError rank.preview (Utf8.encode body) best margin)

theorem check_ok {β γ : Type} {outcome : Except ToolError β} {b : β} (next : β → Planner γ)
    {plan : MCode.Edit.Literal.Plan} (h : outcome = .ok b) :
    (Planner.check outcome >>= next) plan = next b plan := by
  rw [h]
  rfl

theorem planFuzzy_eq {table : Alphanumeric} {body : Text} {op : FuzzyOp} (bomLen : Nat)
    {needle haystack : Normalized}
    (hneedle : normalize table op.pattern MAX_FUZZY_TOKENS false = .ok needle)
    (hhaystack : normalize table body MAX_FUZZY_TOKENS false = .ok haystack)
    (plan : MCode.Edit.Literal.Plan) :
    planFuzzy table body op bomLen false plan =
      scoreWindows needle haystack
        (min U32_MAX (op.maxDistance + (requiredMargin needle.norm.length - 1))) false >>=
          fun rank =>
          settleRank op body bomLen (requiredMargin needle.norm.length) rank plan := by
  unfold planFuzzy
  rw [check_ok _ hneedle, check_ok _ hhaystack]
  dsimp only
  cases hscore : scoreWindows needle haystack
    (min U32_MAX (op.maxDistance + (requiredMargin needle.norm.length - 1))) false with
  | error failure => rfl
  | ok rank =>
      obtain ⟨best, second, preview⟩ := rank
      rw [ok_bind]
      unfold settleRank accepted
      cases best with
      | none => rfl
      | some best =>
          dsimp only
          by_cases hfar : op.maxDistance < best.distance
          · rw [if_pos hfar]
            dsimp only
            rw [if_pos hfar]
            show (if op.maxDistance < best.distance then _ else _ : Planner Unit) plan = _
            rw [if_pos hfar]
          · rw [if_neg hfar]
            show (if op.maxDistance < best.distance then _ else _ : Planner Unit) plan = _
            rw [if_neg hfar]
            by_cases hunique :
                uniqueWithMargin (requiredMargin needle.norm.length) best second = true
            · rw [if_pos hunique]
              show (if uniqueWithMargin _ best second = true then _ else _ : Planner Unit) plan = _
              rw [if_pos hunique]
            · rw [if_neg hunique]
              dsimp only
              rw [if_neg hfar]
              show (if uniqueWithMargin _ best second = true then _ else _ : Planner Unit) plan = _
              rw [if_neg hunique]

/-- A reservation fails by its budget, or is the last item of the plan. -/
theorem reserve_spec (start stop : Nat) (replacement : MCode.Files.Bytes)
    (plan : MCode.Edit.Literal.Plan) :
    (∃ message, Planner.reserve start stop replacement plan =
        .error (.Error (.InvalidArgs message))) ∨
      ∃ after, Planner.reserve start stop replacement plan = .ok ((), after) ∧
        after.planned = plan.planned ++ [⟨start, stop, replacement⟩] := by
  unfold Planner.reserve MCode.Edit.Literal.reservePlanned
  split
  · exact Or.inl ⟨_, rfl⟩
  · dsimp only
    split
    · exact Or.inl ⟨_, rfl⟩
    · exact Or.inr ⟨_, rfl, rfl⟩

theorem windowRange_eq (needle haystack : Normalized) (start wlen : Nat) :
    windowRange haystack start wlen = ((candidate needle haystack start wlen).start,
      (candidate needle haystack start wlen).stop) := rfl

/-- What is refused is refused by the distance or by the margin. -/
theorem settleRank_refused {op : FuzzyOp} {margin : Nat} {rank : Rank}
    (h : accepted op.maxDistance margin rank = none) (body : Text) (bomLen : Nat)
    (plan : MCode.Edit.Literal.Plan) :
    ∃ message, settleRank op body bomLen margin rank plan =
      .error (.Error (.Execution message)) := by
  unfold settleRank
  rw [h]
  dsimp only
  cases rank.best with
  | none => exact ⟨_, rfl⟩
  | some best =>
      dsimp only
      by_cases hfar : op.maxDistance < best.distance
      · rw [if_pos hfar]
        exact ⟨_, rfl⟩
      · rw [if_neg hfar]
        exact ⟨_, rfl⟩

/-- **What is planned is the best window of all.**  Where no budget is hit, the range of a
window is planned if and only if that window is within the distance and every other window of
the text, of whatever length, is farther by the margin; otherwise the operation is refused. -/
theorem fuzzy_plan_exact {table : Alphanumeric} {pattern replacement : Text} {maxDistance : Nat}
    {op : FuzzyOp} (hop : prepare table pattern replacement maxDistance = .ok op) (body : Text)
    (bomLen : Nat) (plan : MCode.Edit.Literal.Plan)
    (hbudget : ∀ message, planFuzzy table body op bomLen false plan ≠
      .error (.Error (.InvalidArgs message))) :
    ∃ needle haystack, normalize table pattern MAX_FUZZY_TOKENS false = .ok needle ∧
      normalize table body MAX_FUZZY_TOKENS false = .ok haystack ∧
      (∀ range : Nat × Nat,
        (∃ after, planFuzzy table body op bomLen false plan = .ok ((), after) ∧
          after.planned = plan.planned ++
            [⟨range.1 + bomLen, range.2 + bomLen, Utf8.encode replacement⟩]) ↔
          ∃ start wlen, IsBest needle haystack maxDistance
            (requiredMargin needle.norm.length) start wlen ∧
              windowRange haystack start wlen = range) ∧
      ((∃ after, planFuzzy table body op bomLen false plan = .ok ((), after)) ∨
        ∃ message, planFuzzy table body op bomLen false plan =
          .error (.Error (.Execution message))) := by
  obtain ⟨rfl, hdistance, needle, hneedle, hsome, hshort⟩ := prepare_ok hop
  obtain ⟨hpos, hmargin⟩ := requiredMargin_bounds hshort
  rcases normalize_ok table pattern MAX_FUZZY_TOKENS with
    ⟨message, hfails⟩ | ⟨needle', place', texts', hneedle', hcut'⟩
  · rw [hneedle] at hfails
    cases hfails
  cases hneedle.symm.trans hneedle'
  rcases normalize_ok table body MAX_FUZZY_TOKENS with
    ⟨message, hfails⟩ | ⟨haystack, place, texts, hhaystack, hcut⟩
  · exfalso
    apply hbudget message
    unfold planFuzzy
    rw [check_ok _ hneedle, hfails]
    rfl
  have hrun := @planFuzzy_eq table body ⟨pattern, replacement, maxDistance⟩ bomLen needle haystack
    hneedle hhaystack plan
  have hlimit : min U32_MAX (maxDistance + (requiredMargin needle.norm.length - 1)) =
      maxDistance + (requiredMargin needle.norm.length - 1) ∧
      maxDistance + (requiredMargin needle.norm.length - 1) < U32_MAX := by
    have hmax : MAX_FUZZY_NORM_CHARS = 256 := rfl
    have hcap : U32_MAX = 4294967295 := rfl
    have hthree : MAX_FUZZY_DISTANCE = 3 := rfl
    omega
  dsimp only at hrun
  rw [hlimit.1] at hrun
  rcases scoreWindows_spec hcut' hcut hsome hshort hlimit.2 with
    ⟨message, hfails⟩ | ⟨rank, hrank, hranks⟩
  · rw [hfails] at hrun
    exact absurd hrun (hbudget message)
  rw [hrank, ok_bind] at hrun
  refine ⟨needle, haystack, hneedle, hhaystack, ?_⟩
  have hiff := accepted_iff hcut hpos hranks
  rw [hrun] at hbudget ⊢
  cases haccepted : accepted maxDistance (requiredMargin needle.norm.length) rank with
  | none =>
      obtain ⟨message, hrefused⟩ := @settleRank_refused ⟨pattern, replacement, maxDistance⟩ _ _
        haccepted body bomLen plan
      rw [hrefused]
      refine ⟨?_, Or.inr ⟨message, rfl⟩⟩
      intro range
      constructor
      · rintro ⟨after, hafter, -⟩
        cases hafter
      · rintro ⟨start, wlen, hbest, -⟩
        have hsome := (hiff _).2 ⟨start, wlen, hbest, rfl⟩
        rw [haccepted] at hsome
        cases hsome
  | some best =>
      have hsettle : settleRank ⟨pattern, replacement, maxDistance⟩ body bomLen
          (requiredMargin needle.norm.length) rank =
            .reserve (best.start + bomLen) (best.stop + bomLen) (Utf8.encode replacement) := by
        unfold settleRank
        dsimp only
        rw [haccepted]
      rw [hsettle] at hbudget ⊢
      rcases reserve_spec (best.start + bomLen) (best.stop + bomLen) (Utf8.encode replacement) plan
        with ⟨message, hfails⟩ | ⟨after, hafter, hplanned⟩
      · exact absurd hfails (hbudget message)
      refine ⟨?_, Or.inl ⟨after, hafter⟩⟩
      intro range
      constructor
      · rintro ⟨after', hafter', hplanned'⟩
        cases hafter.symm.trans hafter'
        obtain ⟨start, wlen, hbest, rfl⟩ := (hiff best).1 haccepted
        refine ⟨start, wlen, hbest, ?_⟩
        have hitem := List.append_cancel_left (hplanned.symm.trans hplanned')
        have hsame := MCode.Edit.Planned.mk.inj (List.cons.inj hitem).1
        rw [windowRange_eq needle]
        exact Prod.ext (Nat.add_right_cancel hsame.1) (Nat.add_right_cancel hsame.2.1)
      · rintro ⟨start, wlen, hbest, rfl⟩
        have hsome := (hiff _).2 ⟨start, wlen, hbest, rfl⟩
        cases haccepted.symm.trans hsome
        exact ⟨after, hafter, hplanned⟩

def letters : Alphanumeric := ⟨Char.isAlphanum, rfl⟩

/-- A word with one wrong letter, in a text of two words. -/
theorem fuzzy_plan_exact_word :
    ∃ needle haystack start wlen,
      normalize letters "abcd".toList MAX_FUZZY_TOKENS false = .ok needle ∧
        normalize letters "zz abce".toList MAX_FUZZY_TOKENS false = .ok haystack ∧
        IsBest needle haystack 1 (requiredMargin needle.norm.length) start wlen ∧
        windowRange haystack start wlen = (3, 7) := by
  have haccepted : (prepare letters "abcd".toList "x".toList 1).isOk = true := by decide +kernel
  obtain ⟨op, hop⟩ := isOk_true.1 haccepted
  obtain ⟨rfl, -⟩ := prepare_ok hop
  have hrun : (planFuzzy letters "zz abce".toList ⟨"abcd".toList, "x".toList, 1⟩ 0 false
      MCode.Edit.Literal.Plan.empty).toOption.map (fun result => result.2.planned) =
        some [⟨3, 7, Utf8.encode "x".toList⟩] := by decide +kernel
  cases hresult : planFuzzy letters "zz abce".toList ⟨"abcd".toList, "x".toList, 1⟩ 0 false
      MCode.Edit.Literal.Plan.empty with
  | error failure =>
      rw [hresult] at hrun
      cases hrun
  | ok result =>
      rw [hresult] at hrun
      obtain ⟨needle, haystack, hneedle, hhaystack, hplans, -⟩ :=
        fuzzy_plan_exact hop "zz abce".toList 0 MCode.Edit.Literal.Plan.empty
          (fun message hfails => by rw [hresult] at hfails; cases hfails)
      obtain ⟨start, wlen, hbest, hrange⟩ :=
        (hplans (3, 7)).1 ⟨result.2, hresult, Option.some.inj hrun⟩
      exact ⟨needle, haystack, start, wlen, hneedle, hhaystack, hbest, hrange⟩

end MCode.Edit.Fuzzy
