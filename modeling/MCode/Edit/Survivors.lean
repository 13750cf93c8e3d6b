import MCode.Edit.Gate

/-!
# What the syntax gate refuses

An error of the old text that no edit overlaps stands between two edits, and the
edits move it to a place in the new text.  The gate should map it back from there,
so that an edit that makes no error of its own is published.

It does so unless a deletion is in the way.  A place where text has been taken out
stands for all places of that text, and the gate goes by the first edit that ends
there: an empty error beside a deletion is mapped to a range that ends before it
starts, and an error behind a deletion that touches the edit before it is mapped to
where that edit ends.
-/

namespace MCode.Edit

open MCode.Lib MCode.Lib.Results MCode.Tools
open MCode.Files (Bytes isCharBoundary)

/-! ## Coordinates -/

/-- The edit takes text out and leaves none in its place. -/
def CoordinateEdit.Deletes (edit : CoordinateEdit) : Prop :=
  edit.oldStart < edit.oldEnd ∧ edit.newStart = edit.newEnd

/-- The edit takes text out or puts text in. -/
def CoordinateEdit.Changes (edit : CoordinateEdit) : Prop :=
  edit.oldStart < edit.oldEnd ∨ edit.newStart < edit.newEnd

/-- The edit does not overlap the error. -/
def CoordinateEdit.spares (edit : CoordinateEdit) (error : SyntaxError) : Bool :=
  edit.oldEnd ≤ error.start || error.stop ≤ edit.oldStart

/-- What the edits take out. -/
def taken (edits : List CoordinateEdit) : Nat :=
  (edits.map fun edit => edit.oldEnd - edit.oldStart).sum

/-- What the edits put in. -/
def given (edits : List CoordinateEdit) : Nat :=
  (edits.map fun edit => edit.newEnd - edit.newStart).sum

@[simp] theorem taken_nil : taken [] = 0 := rfl

@[simp] theorem given_nil : given [] = 0 := rfl

@[simp] theorem taken_cons (edit : CoordinateEdit) (edits : List CoordinateEdit) :
    taken (edit :: edits) = edit.oldEnd - edit.oldStart + taken edits := by
  simp [taken]

@[simp] theorem given_cons (edit : CoordinateEdit) (edits : List CoordinateEdit) :
    given (edit :: edits) = edit.newEnd - edit.newStart + given edits := by
  simp [given]

/-- The edits stand one behind the other, with the same text between two of them in both
coordinates. -/
inductive Chained : Nat → Nat → List CoordinateEdit → Prop where
  | nil (oldCursor newCursor : Nat) : Chained oldCursor newCursor []
  | cons {oldCursor newCursor : Nat} {edit : CoordinateEdit} {edits : List CoordinateEdit}
      (behind : oldCursor ≤ edit.oldStart) (old : edit.oldStart ≤ edit.oldEnd)
      (place : edit.newStart = newCursor + (edit.oldStart - oldCursor))
      (new : edit.newStart ≤ edit.newEnd) (rest : Chained edit.oldEnd edit.newEnd edits) :
      Chained oldCursor newCursor (edit :: edits)

/-- An error that no edit overlaps, with the edits in front of it and behind it. -/
structure Survivor (edits : List CoordinateEdit) where
  error : SyntaxError
  front : List CoordinateEdit
  behind : List CoordinateEdit
  edits_eq : edits = front ++ behind
  front_le : ∀ edit ∈ front, edit.oldEnd ≤ error.start
  le_behind : ∀ edit ∈ behind, error.stop ≤ edit.oldStart

/-- The error in the new text: the edits in front of it move it. -/
def SyntaxError.shifted (error : SyntaxError) (front : List CoordinateEdit) : SyntaxError :=
  { error with
    start := error.start + given front - taken front
    stop := error.stop + given front - taken front }

/-- No deletion is in the way of the error: one that ends where the error starts does not
touch the edit before it, and the error is not empty; and an empty error is not where a
deletion starts, unless another edit ends there. -/
structure Recoverable (front behind : List CoordinateEdit) (error : SyntaxError) : Prop where
  wide : ∀ edit, [edit] <:+ front → edit.Deletes → edit.oldEnd = error.start →
    error.start < error.stop
  apart : ∀ other edit, [other, edit] <:+ front → edit.Deletes → edit.oldEnd = error.start →
    other.oldEnd < edit.oldStart
  ahead : ∀ edit, [edit] <+: behind → edit.Deletes → edit.oldStart = error.start →
    error.stop ≤ error.start → ∃ other, [other] <:+ front ∧ other.oldEnd = error.start

/-! ## The loop over the edits -/

variable {oldCursor newCursor pos place : Nat} {edit : CoordinateEdit}
  {edits front behind : List CoordinateEdit} {error : SyntaxError}

theorem Chained.taken_le (h : Chained oldCursor newCursor (front ++ behind))
    (hcursor : oldCursor ≤ place) (hfront : ∀ edit ∈ front, edit.oldEnd ≤ place) :
    oldCursor + taken front ≤ place := by
  induction front generalizing oldCursor newCursor with
  | nil => exact hcursor
  | cons edit front ih =>
      cases h with
      | cons hbehind hold hplace hnew hrest =>
          have hedit := hfront edit List.mem_cons_self
          have hle := ih hrest hedit fun other h => hfront other (List.mem_cons_of_mem _ h)
          rw [taken_cons]
          omega

theorem mapLoop_end (hold : oldCursor ≤ place) (hbound : place < 2 ^ 64)
    (hpos : pos = newCursor + (place - oldCursor)) {boundary : Boundary} :
    mapLoop pos boundary [] oldCursor newCursor = some place := by
  have hsub : checkedSub pos newCursor = some (place - oldCursor) := by
    rw [checkedSub, if_pos (by omega)]
    congr 1
    omega
  have hadd : checkedAdd oldCursor (place - oldCursor) = some place := by
    rw [checkedAdd, if_pos (by omega)]
    congr 1
    omega
  rw [mapLoop, hsub]
  exact hadd

theorem mapLoop_gap (hold : oldCursor ≤ place) (hbound : place < 2 ^ 64)
    (hpos : pos = newCursor + (place - oldCursor)) (hfront : pos < edit.newStart)
    {boundary : Boundary} :
    mapLoop pos boundary (edit :: edits) oldCursor newCursor = some place := by
  unfold mapLoop
  rw [if_pos hfront]
  exact @mapLoop_end oldCursor newCursor pos place hold hbound hpos boundary

/-- The start of an edit. -/
theorem mapLoop_start {boundary : Boundary} (hpos : pos = edit.newStart) :
    mapLoop pos boundary (edit :: edits) oldCursor newCursor =
      some (if edit.newStart = edit.newEnd ∧ boundary = .Start then edit.oldEnd
        else edit.oldStart) := by
  subst hpos
  unfold mapLoop
  rw [if_neg (Nat.lt_irrefl _), if_pos rfl]
  congr 1
  by_cases hempty : edit.newStart = edit.newEnd
  · cases boundary with
    | Start => rw [if_pos hempty, if_pos ⟨hempty, rfl⟩]
    | End => rw [if_pos hempty, if_neg fun h => Boundary.noConfusion h.2]
  · rw [if_neg hempty, if_neg fun h => hempty h.1]

/-- The end of an edit. -/
theorem mapLoop_stop {boundary : Boundary} (hpos : pos = edit.newEnd)
    (hnew : edit.newStart ≤ edit.newEnd) :
    mapLoop pos boundary (edit :: edits) oldCursor newCursor =
      some (if edit.newStart = edit.newEnd ∧ boundary = .End then edit.oldStart
        else edit.oldEnd) := by
  by_cases hempty : edit.newStart = edit.newEnd
  · rw [mapLoop_start (hpos.trans hempty.symm)]
    cases boundary with
    | Start => simp [hempty]
    | End => simp [hempty]
  · unfold mapLoop
    rw [if_neg (by omega), if_neg (by omega), if_neg (by omega), if_pos hpos,
      if_neg fun h => hempty h.1]

/-- An edit that ends before the place is passed. -/
theorem mapLoop_skip {boundary : Boundary} (hpos : edit.newEnd < pos)
    (hnew : edit.newStart ≤ edit.newEnd) :
    mapLoop pos boundary (edit :: edits) oldCursor newCursor =
      mapLoop pos boundary edits edit.oldEnd edit.newEnd := by
  conv_lhs => unfold mapLoop
  rw [if_neg (by omega), if_neg (by omega), if_neg (by omega), if_neg (by omega)]

/-! ## Errors that are found again -/

/-- What stands in the way, one edit further in front. -/
theorem recoverable_cons {other : CoordinateEdit} :
    Recoverable (edit :: other :: front) behind error ↔
      Recoverable (other :: front) behind error ∧
        (front = [] → other.Deletes → other.oldEnd = error.start →
          edit.oldEnd < other.oldStart) := by
  have hone {last : CoordinateEdit} :
      [last] <:+ edit :: other :: front ↔ [last] <:+ other :: front := by
    rw [List.suffix_cons_iff]
    exact or_iff_right (by simp)
  have htwo {first last : CoordinateEdit} :
      [first, last] <:+ edit :: other :: front ↔
        (first = edit ∧ last = other ∧ front = []) ∨ [first, last] <:+ other :: front := by
    rw [List.suffix_cons_iff]
    apply or_congr_left
    simp [eq_comm]
  constructor
  · intro h
    refine ⟨⟨fun last hlast => h.wide last (hone.2 hlast),
      fun first last hlast => h.apart first last (htwo.2 (Or.inr hlast)), ?_⟩,
      fun hnil => h.apart edit other (htwo.2 (Or.inl ⟨rfl, rfl, hnil⟩))⟩
    intro next hnext hdeletes hstart hempty
    obtain ⟨last, hlast, hend⟩ := h.ahead next hnext hdeletes hstart hempty
    exact ⟨last, hone.1 hlast, hend⟩
  · rintro ⟨h, hapart⟩
    refine ⟨fun last hlast => h.wide last (hone.1 hlast), ?_, ?_⟩
    · intro first last hlast
      obtain ⟨rfl, rfl, hnil⟩ | hlast := htwo.1 hlast
      · exact hapart hnil
      · exact h.apart first last hlast
    · intro next hnext hdeletes hstart hempty
      obtain ⟨last, hlast, hend⟩ := h.ahead next hnext hdeletes hstart hempty
      exact ⟨last, hone.2 hlast, hend⟩

theorem recoverable_singleton :
    Recoverable [edit] behind error ↔
      (edit.Deletes → edit.oldEnd = error.start → error.start < error.stop) ∧
        (∀ next, [next] <+: behind → next.Deletes → next.oldStart = error.start →
          error.stop ≤ error.start → edit.oldEnd = error.start) := by
  have hone {last : CoordinateEdit} : [last] <:+ [edit] ↔ last = edit := by
    simp [List.suffix_cons_iff]
  constructor
  · intro h
    refine ⟨h.wide edit (hone.2 rfl), ?_⟩
    intro next hnext hdeletes hstart hempty
    obtain ⟨last, hlast, hend⟩ := h.ahead next hnext hdeletes hstart hempty
    rwa [hone.1 hlast] at hend
  · rintro ⟨hwide, hahead⟩
    refine ⟨?_, ?_, ?_⟩
    · intro last hlast
      rw [hone.1 hlast]
      exact hwide
    · intro first last hlast
      have hlength := hlast.length_le
      simp at hlength
    · intro next hnext hdeletes hstart hempty
      exact ⟨edit, hone.2 rfl, hahead next hnext hdeletes hstart hempty⟩

theorem recoverable_nil :
    Recoverable [] behind error ↔
      ∀ next, [next] <+: behind → next.Deletes → next.oldStart = error.start →
        error.start < error.stop := by
  constructor
  · intro h next hnext hdeletes hstart
    by_contra hwide
    obtain ⟨last, hlast, -⟩ := h.ahead next hnext hdeletes hstart (Nat.le_of_not_lt hwide)
    cases List.suffix_nil.1 hlast
  · intro h
    refine ⟨fun last hlast => ?_, fun first last hlast => ?_, ?_⟩
    · cases List.suffix_nil.1 hlast
    · cases List.suffix_nil.1 hlast
    · intro next hnext hdeletes hstart hempty
      have hwide := h next hnext hdeletes hstart
      omega

/-- Both ends of an error are mapped back to where they were. -/
def Returns (edits : List CoordinateEdit) (oldCursor newCursor : Nat) (error new : SyntaxError) :
    Prop :=
  mapLoop new.start .Start edits oldCursor newCursor = some error.start ∧
    mapLoop new.stop .End edits oldCursor newCursor = some error.stop

/-- The end of an error in front of all edits, beside them or not. -/
theorem mapLoop_ahead (hchain : Chained oldCursor newCursor behind) (hcursor : oldCursor ≤ place)
    (hbound : place < 2 ^ 64) (hbehind : ∀ edit ∈ behind, place ≤ edit.oldStart)
    (hpos : pos = newCursor + (place - oldCursor)) :
    mapLoop pos .End behind oldCursor newCursor = some place := by
  cases hchain with
  | nil => exact mapLoop_end hcursor hbound hpos
  | @cons _ _ edit edits hle hold hplace hnew hrest =>
      have hedit := hbehind edit List.mem_cons_self
      by_cases hgap : pos < edit.newStart
      · exact mapLoop_gap hcursor hbound hpos hgap
      · rw [mapLoop_start (by omega), if_neg (fun h => nomatch h.2)]
        congr 1
        omega

/-- An error in front of all edits. -/
theorem returns_nil {new : SyntaxError} (hchain : Chained oldCursor newCursor behind)
    (hcursor : oldCursor ≤ error.start) (hrange : error.start ≤ error.stop)
    (hbound : error.stop < 2 ^ 64) (hbehind : ∀ edit ∈ behind, error.stop ≤ edit.oldStart)
    (hstart : new.start = newCursor + (error.start - oldCursor))
    (hstop : new.stop = newCursor + (error.stop - oldCursor)) :
    Returns behind oldCursor newCursor error new ↔ Recoverable [] behind error := by
  have hend := mapLoop_ahead hchain (hcursor.trans hrange) hbound hbehind hstop
  rw [recoverable_nil]
  cases hchain with
  | nil =>
      refine iff_of_true ⟨mapLoop_end hcursor (by omega) hstart, hend⟩ ?_
      intro next hnext
      cases List.prefix_nil.1 hnext
  | @cons _ _ edit edits hle hold hplace hnew hrest =>
      have hedit := hbehind edit List.mem_cons_self
      have hhead {next : CoordinateEdit} : [next] <+: edit :: edits ↔ next = edit := by
        simp [List.cons_prefix_cons]
      constructor
      · rintro ⟨h, -⟩ next hnext hdeletes hnextStart
        rw [hhead.1 hnext] at hdeletes hnextStart
        obtain ⟨hwide, hempty⟩ := hdeletes
        rw [mapLoop_start (by omega), if_pos ⟨hempty, rfl⟩] at h
        have hsame := Option.some.inj h
        omega
      · intro h
        refine ⟨?_, hend⟩
        by_cases hgap : new.start < edit.newStart
        · exact mapLoop_gap hcursor (by omega) hstart hgap
        · rw [mapLoop_start (by omega)]
          split
          next hempty =>
            have hkeeps : ¬edit.Deletes ∨ error.start < error.stop := by
              by_cases hdeletes : edit.Deletes
              · exact Or.inr (h edit (hhead.2 rfl) hdeletes (by omega))
              · exact Or.inl hdeletes
            obtain hkeeps | hwide := hkeeps
            · have hsame : ¬edit.oldStart < edit.oldEnd := fun hlt => hkeeps ⟨hlt, hempty.1⟩
              congr 1
              omega
            · omega
          next =>
            congr 1
            omega

/-- An error right behind the only edit in front of it. -/
theorem returns_last {new : SyntaxError} (hold : edit.oldStart ≤ edit.oldEnd)
    (hnew : edit.newStart ≤ edit.newEnd) (hchain : Chained edit.oldEnd edit.newEnd behind)
    (hrange : error.start ≤ error.stop) (hbound : error.stop < 2 ^ 64)
    (hbehind : ∀ edit ∈ behind, error.stop ≤ edit.oldStart) (hend : edit.oldEnd = error.start)
    (hstart : new.start = edit.newEnd)
    (hstop : new.stop = edit.newEnd + (error.stop - error.start)) :
    Returns (edit :: behind) oldCursor newCursor error new ↔ Recoverable [edit] behind error := by
  have hfirst : mapLoop new.start .Start (edit :: behind) oldCursor newCursor =
      some error.start := by
    rw [mapLoop_stop hstart hnew, if_neg (fun h => nomatch h.2), hend]
  have hahead : ∀ next, [next] <+: behind → next.Deletes → next.oldStart = error.start →
      error.stop ≤ error.start → edit.oldEnd = error.start := fun _ _ _ _ _ => hend
  rw [recoverable_singleton, and_iff_left hahead]
  unfold Returns
  rw [and_iff_right hfirst]
  by_cases hwide : error.start < error.stop
  · refine iff_of_true ?_ fun _ _ => hwide
    rw [mapLoop_skip (by omega) hnew]
    exact mapLoop_ahead hchain (by omega) hbound hbehind (by omega)
  · rw [mapLoop_stop (by omega) hnew]
    constructor
    · rintro h ⟨hdrops, hempty⟩ -
      rw [if_pos ⟨hempty, rfl⟩] at h
      have hsame := Option.some.inj h
      omega
    · intro h
      have hkeeps : ¬(edit.oldStart < edit.oldEnd ∧ edit.newStart = edit.newEnd) := by
        intro hdeletes
        exact hwide (h hdeletes hend)
      congr 1
      split
      next hempty =>
        have hsame : ¬edit.oldStart < edit.oldEnd := fun hlt => hkeeps ⟨hlt, hempty.1⟩
        omega
      next => omega

/-- An error behind deletions that touch one another and the edit before them. -/
theorem not_returns_touching {new : SyntaxError} {other : CoordinateEdit}
    (hnew : edit.newStart ≤ edit.newEnd)
    (hchain : Chained edit.oldEnd edit.newEnd (other :: front ++ behind))
    (hchanges : other.Changes) (hfront : ∀ edit ∈ other :: front, edit.oldEnd ≤ error.start)
    (hstart : new.start + edit.oldEnd + taken (other :: front) =
      error.start + edit.newEnd + given (other :: front))
    (hend : new.start = edit.newEnd) :
    ¬Returns (edit :: other :: front ++ behind) oldCursor newCursor error new := by
  rintro ⟨h, -⟩
  rw [List.cons_append, mapLoop_stop hend hnew, if_neg (fun h => nomatch h.2)] at h
  have hsame := Option.some.inj h
  have htaken := hchain.taken_le (hsame ▸ Nat.le_refl _) hfront
  cases hchain with
  | cons hle hold hplace hother hrest =>
      rw [taken_cons, given_cons] at hstart
      rw [taken_cons] at htaken
      unfold CoordinateEdit.Changes at hchanges
      omega
/-- The ends of an error are mapped back if and only if no deletion is in the way.  The
induction is on the edits in front of it: the first one that ends where the error starts
decides, and it should be the last of them. -/
theorem returns_iff {new : SyntaxError} (hchain : Chained oldCursor newCursor (front ++ behind))
    (hchanges : ∀ edit ∈ (front ++ behind).tail, edit.Changes)
    (hcursor : oldCursor ≤ error.start) (hrange : error.start ≤ error.stop)
    (hbound : error.stop < 2 ^ 64) (hfront : ∀ edit ∈ front, edit.oldEnd ≤ error.start)
    (hbehind : ∀ edit ∈ behind, error.stop ≤ edit.oldStart)
    (hstart : new.start + oldCursor + taken front = error.start + newCursor + given front)
    (hstop : new.stop + error.start = new.start + error.stop) :
    Returns (front ++ behind) oldCursor newCursor error new ↔
      Recoverable front behind error := by
  induction front generalizing oldCursor newCursor with
  | nil =>
      rw [taken_nil, given_nil] at hstart
      exact returns_nil hchain hcursor hrange hbound hbehind (by omega) (by omega)
  | cons edit front ih =>
      rw [taken_cons, given_cons] at hstart
      rw [List.cons_append] at hchain hchanges ⊢
      have hedit := hfront edit List.mem_cons_self
      have hrest := fun other h => hfront other (List.mem_cons_of_mem edit h)
      cases hchain with
      | cons hle hold hplace hnew hchain =>
          have htaken := hchain.taken_le hedit hrest
          have hstep := ih hchain (fun other h => hchanges other (List.mem_of_mem_tail h)) hedit
            hrest (by omega)
          by_cases hpast : edit.newEnd < new.start
          · -- the edit ends in front of the error
            have hskip : Returns (edit :: (front ++ behind)) oldCursor newCursor error new ↔
                Returns (front ++ behind) edit.oldEnd edit.newEnd error new := by
              unfold Returns
              rw [mapLoop_skip hpast hnew, mapLoop_skip (by omega) hnew]
            rw [hskip, hstep]
            cases front with
            | nil =>
                rw [taken_nil, given_nil] at hstart
                rw [recoverable_nil, recoverable_singleton]
                constructor
                · intro h
                  refine ⟨fun _ hend => by omega, ?_⟩
                  intro next hnext hdeletes hplace hempty
                  have hwide := h next hnext hdeletes hplace
                  omega
                · rintro ⟨-, h⟩ next hnext hdeletes hplace
                  by_contra hwide
                  have hend := h next hnext hdeletes hplace (by omega)
                  omega
            | cons other front =>
                rw [recoverable_cons]
                refine (and_iff_left ?_).symm
                rintro rfl ⟨hwide, hempty⟩ hend
                rw [List.cons_append] at hchain
                cases hchain with
                | cons hle hold hplace hnew hchain =>
                    rw [taken_cons, given_cons, taken_nil, given_nil] at hstart
                    omega
          · -- the edit ends where the error starts, and so do those behind it
            cases front with
            | nil =>
                rw [taken_nil, given_nil] at hstart
                exact returns_last hold hnew hchain hrange hbound hbehind (by omega) (by omega)
                  (by omega)
            | cons other front =>
                have hother := hchanges other List.mem_cons_self
                refine iff_of_false (not_returns_touching hnew hchain hother hrest (by omega)
                  (by omega)) ?_
                rw [recoverable_cons, ← hstep]
                rintro ⟨hreturns, hapart⟩
                cases front with
                | nil =>
                    cases hchain with
                    | cons hle hold hplace hnew hchain =>
                        rw [taken_cons, given_cons, taken_nil, given_nil] at hstart
                        unfold CoordinateEdit.Changes at hother
                        have hend := hrest other List.mem_cons_self
                        have hgap := hapart rfl ⟨by omega, by omega⟩ (by omega)
                        omega
                | cons third front =>
                    have hthird := hchanges third (List.mem_cons_of_mem _ List.mem_cons_self)
                    cases hchain with
                    | cons hle hold hplace hnew hchain =>
                        have hinner := fun edit h => hrest edit (List.mem_cons_of_mem other h)
                        have htaken := hchain.taken_le (hrest other List.mem_cons_self) hinner
                        rw [taken_cons, given_cons] at hstart
                        refine not_returns_touching hnew hchain hthird hinner ?_ ?_ hreturns
                        · omega
                        · omega

/-! ## One error -/

theorem Chained.newEnd_le (hchain : Chained oldCursor newCursor (front ++ behind))
    (hcursor : oldCursor ≤ place) (hfront : ∀ edit ∈ front, edit.oldEnd ≤ place)
    (hpos : pos + oldCursor + taken front = place + newCursor + given front) :
    newCursor ≤ pos ∧ ∀ edit ∈ front, edit.newEnd ≤ pos := by
  induction front generalizing oldCursor newCursor with
  | nil =>
      rw [taken_nil, given_nil] at hpos
      exact ⟨by omega, nofun⟩
  | cons edit front ih =>
      have hedit := hfront edit List.mem_cons_self
      cases hchain with
      | cons hle hold hplace hnew hrest =>
          rw [taken_cons, given_cons] at hpos
          obtain ⟨hlast, hmore⟩ := ih hrest hedit
            (fun other h => hfront other (List.mem_cons_of_mem _ h)) (by omega)
          refine ⟨by omega, ?_⟩
          intro other hother
          obtain rfl | hother := List.mem_cons.1 hother
          · exact hlast
          · exact hmore other hother

theorem Chained.le_start (h : Chained oldCursor newCursor edits) :
    ∀ edit ∈ edits, oldCursor ≤ edit.oldStart ∧ newCursor ≤ edit.newStart := by
  induction h with
  | nil => nofun
  | cons hle hold hplace hnew hrest ih =>
      intro edit hedit
      obtain rfl | hedit := List.mem_cons.1 hedit
      · omega
      · have hmore := ih edit hedit
        omega

theorem Chained.le_newStart (hchain : Chained oldCursor newCursor (front ++ behind))
    (hfront : ∀ edit ∈ front, edit.oldEnd ≤ place)
    (hcursor : oldCursor ≤ place) (hbehind : ∀ edit ∈ behind, place ≤ edit.oldStart)
    (hpos : pos + oldCursor + taken front = place + newCursor + given front) :
    ∀ edit ∈ behind, pos ≤ edit.newStart := by
  induction front generalizing oldCursor newCursor with
  | nil =>
      rw [taken_nil, given_nil] at hpos
      rw [List.nil_append] at hchain
      cases hchain with
      | nil => nofun
      | @cons _ _ first edits hle hold hplace hnew hrest =>
          have hfirst := hbehind first List.mem_cons_self
          intro edit hedit
          obtain rfl | hedit := List.mem_cons.1 hedit
          · omega
          · have hmore := hrest.le_start edit hedit
            omega
  | cons edit front ih =>
      have hedit := hfront edit List.mem_cons_self
      cases hchain with
      | cons hle hold hplace hnew hrest =>
          rw [taken_cons, given_cons] at hpos
          exact ih hrest (fun other h => hfront other (List.mem_cons_of_mem _ h)) hedit (by omega)

/-- The error in the new text. -/
def Survivor.shifted (survivor : Survivor edits) : SyntaxError :=
  survivor.error.shifted survivor.front

/-- A moved error is mapped back to itself if and only if no deletion is in the way. -/
theorem mapSyntaxError_iff (hchain : Chained 0 0 edits)
    (hchanges : ∀ edit ∈ edits.tail, edit.Changes) (survivor : Survivor edits)
    (hrange : survivor.error.start ≤ survivor.error.stop)
    (hbound : survivor.error.stop < 2 ^ 64) :
    mapSyntaxError survivor.shifted edits = some survivor.error ↔
      Recoverable survivor.front survivor.behind survivor.error := by
  obtain ⟨error, front, behind, rfl, hfront, hbehind⟩ := survivor
  dsimp only at hrange hbound ⊢
  have htaken := hchain.taken_le (Nat.zero_le _) hfront
  have hstart : (error.shifted front).start + 0 + taken front =
      error.start + 0 + given front := by
    show error.start + given front - taken front + 0 + taken front = _
    omega
  have hstop : (error.shifted front).stop + error.start =
      (error.shifted front).start + error.stop := by
    show error.stop + given front - taken front + error.start =
      error.start + given front - taken front + error.stop
    omega
  have hreturns := returns_iff hchain hchanges (Nat.zero_le _) hrange hbound hfront hbehind
    hstart hstop
  obtain ⟨-, hbefore⟩ := hchain.newEnd_le (Nat.zero_le _) hfront hstart
  have hafter : ∀ edit ∈ behind, (error.shifted front).stop ≤ edit.newStart :=
    hchain.le_newStart (fun edit h => (hfront edit h).trans hrange) (Nat.zero_le _) hbehind
      (by omega)
  have hapart : (front ++ behind).any (errorIntersectsReplacement (error.shifted front)) =
      false := by
    rw [List.any_eq_false]
    intro edit hedit
    unfold errorIntersectsReplacement
    obtain hedit | hedit := List.mem_append.1 hedit
    · have hle := hbefore edit hedit
      split
      · exact Bool.false_ne_true
      split <;> simp <;> omega
    · have hle := hafter edit hedit
      split
      · exact Bool.false_ne_true
      split <;> simp <;> omega
  rw [← hreturns]
  unfold mapSyntaxError Survivor.shifted
  dsimp only
  rw [hapart, if_neg Bool.false_ne_true]
  unfold Returns mapAfterPosition
  constructor
  · intro h
    rw [Option.bind_eq_bind, Option.bind_eq_some_iff] at h
    obtain ⟨start, hfirst, h⟩ := h
    rw [Option.bind_eq_some_iff] at h
    obtain ⟨stop, hlast, h⟩ := h
    split at h
    · have hsame := Option.some.inj h
      rw [hfirst, hlast, ← hsame]
      exact ⟨rfl, rfl⟩
    · cases h
  · rintro ⟨hfirst, hlast⟩
    rw [hfirst, hlast]
    show (if error.start ≤ error.stop then _ else _) = _
    rw [if_pos hrange]
    rfl

/-! ## All errors -/

theorem key_injective {first second : SyntaxError} (h : first.key = second.key) :
    first = second := by
  obtain ⟨start, stop, kindId, missing⟩ := first
  obtain ⟨start', stop', kindId', missing'⟩ := second
  unfold SyntaxError.key at h
  simp only [toLex_inj, Prod.mk.injEq, UInt16.toNat_inj] at h
  obtain ⟨rfl, rfl, rfl, hmissing⟩ := h
  cases missing <;> cases missing' <;> first | rfl | cases hmissing

instance : Std.Total SyntaxError.le :=
  ⟨fun first second => le_total first.key second.key⟩

instance : IsTrans SyntaxError SyntaxError.le :=
  ⟨fun _ _ _ h₁ h₂ => le_trans h₁ h₂⟩

instance : Std.Antisymm SyntaxError.le :=
  ⟨fun _ _ h₁ h₂ => key_injective (le_antisymm h₁ h₂)⟩

/-- Sorted errors among the existing ones are all found. -/
theorem matchErrors_of_sublist {existing mapped : List SyntaxError}
    (hsorted : existing.Pairwise SyntaxError.le) (h : mapped.Sublist existing) :
    matchErrors existing mapped = true := by
  induction mapped generalizing existing with
  | nil => rw [matchErrors]
  | cons error mapped ih =>
      have hsplit := List.takeWhile_append_dropWhile
        (p := fun item : SyntaxError => decide (item.key < error.key)) (l := existing)
      have hsmaller : error ∉ existing.takeWhile fun item => decide (item.key < error.key) := by
        intro hmem
        have hlt := List.all_eq_true.1 List.all_takeWhile error hmem
        simp at hlt
      -- what is dropped is smaller, so the match is in the rest
      have hrest : (error :: mapped).Sublist
          (existing.dropWhile fun item => decide (item.key < error.key)) := by
        rw [← hsplit, List.sublist_append_iff] at h
        obtain ⟨first, second, hsame, hfirst, hsecond⟩ := h
        cases first with
        | nil =>
            rw [List.nil_append] at hsame
            rwa [hsame]
        | cons other first =>
            rw [List.cons_append] at hsame
            injection hsame with hhead
            exact absurd (hhead ▸ hfirst.subset List.mem_cons_self) hsmaller
      rw [matchErrors]
      cases hdrop : existing.dropWhile fun item => decide (item.key < error.key) with
      | nil =>
          rw [hdrop] at hrest
          cases List.sublist_nil.1 hrest
      | cons item rest =>
          rw [hdrop] at hrest hsplit
          have hpairwise : (item :: rest).Pairwise SyntaxError.le := by
            rw [← hsplit] at hsorted
            exact (List.pairwise_append.1 hsorted).2.1
          have hle : error.key ≤ item.key := by
            have hhead := List.head?_dropWhile_not (fun item : SyntaxError =>
              decide (item.key < error.key)) existing
            rw [hdrop] at hhead
            simpa using hhead
          have hitem : item = error := by
            have hmem := hrest.subset List.mem_cons_self
            obtain hsame | hmem := List.mem_cons.1 hmem
            · exact hsame.symm
            · have hother : item.key ≤ error.key := (List.pairwise_cons.1 hpairwise).1 error hmem
              exact key_injective (le_antisymm hother hle)
          subst hitem
          show (if item = item then matchErrors rest mapped else false) = true
          rw [if_pos rfl]
          exact ih (List.pairwise_cons.1 hpairwise).2 (List.cons_sublist_cons.1 hrest)

theorem mapM_map {α β γ : Type*} {f : α → Option β} {g : γ → α} {k : γ → β} {cs : List γ}
    (h : ∀ c ∈ cs, f (g c) = some (k c)) : (cs.map g).mapM f = some (cs.map k) := by
  induction cs with
  | nil => rfl
  | cons c cs ih =>
      rw [List.map_cons, List.mapM_cons, h c List.mem_cons_self,
        ih fun other hother => h other (List.mem_cons_of_mem _ hother)]
      rfl

/-! ## The coordinates of the edits -/

theorem chained_of_loop {beforeBom afterBom oldFullCursor newFullCursor : Nat}
    {items : List Planned}
    (hedits : coordinateLoop beforeBom afterBom items oldFullCursor newFullCursor = .ok edits)
    (hranges : ∀ item ∈ items, item.start ≤ item.stop)
    (haligned : Aligned beforeBom afterBom oldFullCursor newFullCursor items) :
    Chained (oldFullCursor - beforeBom) (newFullCursor - afterBom) edits := by
  induction items generalizing oldFullCursor newFullCursor edits with
  | nil =>
      cases coordinateLoop_nil hedits
      exact .nil _ _
  | cons item items ih =>
      obtain ⟨edit, rest, rfl, hlocated, hrest⟩ := coordinateLoop_cons hedits
      obtain ⟨hstart, hstop, hbehind, hafter, rfl⟩ := hlocated
      have hrange := hranges item List.mem_cons_self
      have hmore := ih hrest (fun other h => hranges other (List.mem_cons_of_mem _ h))
        (Or.inl ⟨hstop, hafter⟩)
      refine .cons ?_ ?_ ?_ ?_ hmore
      · dsimp only
        omega
      · dsimp only
        omega
      · dsimp only
        obtain hmarks | ⟨hold, hnew, hmarks | ⟨first, hfirst, hzero⟩⟩ := haligned
        · omega
        · omega
        · cases hfirst
          omega
      · dsimp only
        omega

/-- Behind the marks, the edits of the gate change what the planned ones do. -/
theorem changes_of_loop {beforeBom afterBom oldFullCursor newFullCursor : Nat}
    {items : List Planned}
    (hedits : coordinateLoop beforeBom afterBom items oldFullCursor newFullCursor = .ok edits)
    (hchanges : ∀ item ∈ items, item.start < item.stop ∨ 0 < item.replacement.length)
    (hmarks : beforeBom ≤ oldFullCursor ∧ afterBom ≤ newFullCursor) :
    ∀ edit ∈ edits, edit.Changes := by
  induction items generalizing oldFullCursor newFullCursor edits with
  | nil =>
      cases coordinateLoop_nil hedits
      nofun
  | cons item items ih =>
      obtain ⟨edit, rest, rfl, hlocated, hrest⟩ := coordinateLoop_cons hedits
      obtain ⟨hstart, hstop, hbehind, hafter, rfl⟩ := hlocated
      intro edit hedit
      obtain rfl | hedit := List.mem_cons.1 hedit
      · have hitem := hchanges item List.mem_cons_self
        unfold CoordinateEdit.Changes
        dsimp only
        omega
      · exact ih hrest (fun other h => hchanges other (List.mem_cons_of_mem _ h))
          ⟨hstop, hafter⟩ edit hedit

/-- An edit that is kept takes text out or puts text in. -/
theorem changing_changes {snapshot : Bytes} {planned : List Planned} {after : Bytes}
    (happlies : Applies snapshot planned after) :
    ∀ item ∈ changing snapshot planned, item.start ≤ item.stop ∧
      (item.start < item.stop ∨ 0 < item.replacement.length) := by
  intro item hitem
  obtain ⟨hmem, hdiffers⟩ := List.mem_filter.1 ((List.mem_insertionSort _).1 hitem)
  obtain ⟨hrange, hstop, hfirst, hlast⟩ :=
    happlies.ranges item ((List.mem_insertionSort _).2 hmem)
  refine ⟨hrange, ?_⟩
  by_contra hnothing
  obtain ⟨hempty, hreplacement⟩ := not_or.1 hnothing
  have hsame : item.start = item.stop := by omega
  have hnil : item.replacement = [] := List.eq_nil_of_length_eq_zero (by omega)
  apply of_decide_eq_true hdiffers
  unfold sliceGet
  rw [if_pos ⟨hrange, hstop, hfirst, hlast⟩, hnil, hsame]
  congr 1
  apply List.eq_nil_of_length_eq_zero
  unfold between
  rw [List.length_drop, List.length_take]
  omega

theorem coordinateEdits_chained {chars : List Char} {planned : List Planned} {after : Bytes}
    (happlies : Applies (Utf8.encode chars) planned after)
    (hedits : coordinateEdits (Utf8.encode chars) planned (bomLen (Utf8.encode chars))
      (bomLen after) = .ok edits) :
    Chained 0 0 edits ∧ ∀ edit ∈ edits.tail, edit.Changes := by
  have hmarks := marks_agree happlies hedits
  have hchanging := changing_changes happlies
  unfold coordinateEdits at hedits
  constructor
  · have hchained := chained_of_loop hedits (fun item h => (hchanging item h).1)
      (Or.inr ⟨rfl, rfl, hmarks⟩)
    rwa [Nat.zero_sub, Nat.zero_sub] at hchained
  · cases hitems : changing (Utf8.encode chars) planned with
    | nil =>
        rw [hitems] at hedits
        cases coordinateLoop_nil hedits
        nofun
    | cons item items =>
        rw [hitems] at hedits hchanging
        obtain ⟨edit, rest, rfl, hlocated, hrest⟩ := coordinateLoop_cons hedits
        exact changes_of_loop hrest
          (fun other h => (hchanging other (List.mem_cons_of_mem _ h)).2)
          ⟨hlocated.beforeStop, hlocated.afterStop⟩

/-- **Completeness of the gate.**  Edits that make no error of their own leave the errors
that they do not overlap, moved.  The gate maps each of these back to its own record, and
so accepts them, if and only if no deletion is in the way of one. -/
theorem syntax_gate_complete_iff (chars : List Char) (planned : List Planned)
    (applied : Applied) (before after : List SyntaxError) (edits : List CoordinateEdit)
    (happlied : applyPlanned (Utf8.encode chars) planned false = .ok applied)
    (hedits : coordinateEdits (Utf8.encode chars) planned (bomLen (Utf8.encode chars))
      (bomLen applied.text) = .ok edits)
    (hbefore : ∀ error ∈ before, error.start ≤ error.stop ∧ error.stop < 2 ^ 64)
    (survivors : List (Survivor edits))
    (hsurvivors : (survivors.map Survivor.error).Perm
      (before.filter fun error => edits.all fun edit => edit.spares error))
    (hafter : after = survivors.map Survivor.shifted) :
    (syntaxErrorsArePreexisting before after edits = true ∧
        ∀ survivor ∈ survivors,
          mapSyntaxError survivor.shifted edits = some survivor.error) ↔
      ∀ survivor ∈ survivors,
        Recoverable survivor.front survivor.behind survivor.error := by
  obtain ⟨hchain, hchanges⟩ := coordinateEdits_chained (applyPlanned_applies happlied) hedits
  have hmaps : (∀ survivor ∈ survivors,
      mapSyntaxError survivor.shifted edits = some survivor.error) ↔
        ∀ survivor ∈ survivors, Recoverable survivor.front survivor.behind survivor.error := by
    apply forall₂_congr
    intro survivor hsurvivor
    have hmem : survivor.error ∈ before :=
      List.mem_of_mem_filter (hsurvivors.subset (List.mem_map_of_mem hsurvivor))
    obtain ⟨hrange, hbound⟩ := hbefore survivor.error hmem
    exact mapSyntaxError_iff hchain hchanges survivor hrange hbound
  rw [← hmaps]
  refine and_iff_right_of_imp fun hback => ?_
  have hmapped : after.mapM (fun error => mapSyntaxError error edits) =
      some (survivors.map Survivor.error) := by
    rw [hafter]
    exact mapM_map hback
  have hsubperm : (survivors.map Survivor.error).Subperm before :=
    hsurvivors.subperm.trans List.filter_sublist.subperm
  unfold syntaxErrorsArePreexisting
  rw [hmapped]
  apply matchErrors_of_sublist (List.pairwise_insertionSort _ _)
  apply List.sublist_of_subperm_of_pairwise _
    (List.pairwise_insertionSort SyntaxError.le _) (List.pairwise_insertionSort _ _)
  exact ((List.perm_insertionSort _ _).subperm.trans hsubperm).trans
    (List.perm_insertionSort _ _).symm.subperm

/-- An error in the second letter, in front of which a letter is inserted. -/
theorem syntax_gate_complete_iff_insert :
    syntaxErrorsArePreexisting [⟨1, 2, 7, false⟩] [⟨2, 3, 7, false⟩] [⟨1, 1, 1, 2⟩] = true := by
  have hcomplete := syntax_gate_complete_iff ['a', 'b'] [⟨1, 1, [0x78]⟩]
    ⟨[0x61, 0x78, 0x62], 1, 2, 3, appendDiff [] [] [0x78]⟩
    [⟨1, 2, 7, false⟩] [⟨2, 3, 7, false⟩] [⟨1, 1, 1, 2⟩] rfl rfl (by simp)
    [⟨⟨1, 2, 7, false⟩, [⟨1, 1, 1, 2⟩], [], rfl, by simp, nofun⟩] (.refl _) rfl
  refine (hcomplete.2 ?_).1
  intro survivor hsurvivor
  rw [List.mem_singleton.1 hsurvivor, recoverable_singleton]
  refine ⟨fun hdeletes => absurd hdeletes.1 (by decide), ?_⟩
  intro next hnext
  cases List.prefix_nil.1 hnext

/-- A missing token at the end of `a` in `ab`, of which `b` is taken out: the only error of
the new text is still where it was, and it is not accepted. -/
theorem syntax_gate_refuses_empty :
    ∃ applied, applyPlanned (Utf8.encode ['a', 'b']) [⟨1, 2, []⟩] false = .ok applied ∧
      coordinateEdits (Utf8.encode ['a', 'b']) [⟨1, 2, []⟩] (bomLen (Utf8.encode ['a', 'b']))
        (bomLen applied.text) = .ok [⟨1, 2, 1, 1⟩] ∧
      (∃ survivor : Survivor [⟨1, 2, 1, 1⟩],
        survivor.error = ⟨1, 1, 7, true⟩ ∧ survivor.shifted = ⟨1, 1, 7, true⟩) ∧
      syntaxErrorsArePreexisting [⟨1, 1, 7, true⟩] [⟨1, 1, 7, true⟩] [⟨1, 2, 1, 1⟩] = false :=
  ⟨⟨[0x61], 1, 2, 1, appendDiff [] [0x62] []⟩, rfl, rfl,
    ⟨⟨⟨1, 1, 7, true⟩, [], [⟨1, 2, 1, 1⟩], rfl, nofun, by simp⟩, rfl, rfl⟩, by decide⟩

-- an error in `d` of `abcd`, of which `b` and `c` are taken out one by one
example : syntaxErrorsArePreexisting [⟨3, 4, 7, false⟩] [⟨1, 2, 7, false⟩]
    [⟨1, 2, 1, 1⟩, ⟨2, 3, 1, 1⟩] = false := by decide

end MCode.Edit
