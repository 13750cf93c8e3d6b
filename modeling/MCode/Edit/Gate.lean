import MCode.Edit.Syntax
import MCode.Lib.Results

/-!
# What the syntax gate accepts

Edits that do not overlap move each place that they do not touch by the lengths
that they add and remove before it: `Shifts`.  The gate maps an end of an error
back to a place that is shifted there, so an accepted error is an old one that
has been moved.

The coordinates of the gate leave a byte order mark out.  The marks of both texts
agree unless the first edit is at the very beginning, which is where the edits of
`apply_planned` matter here.
-/

namespace MCode.Edit

open MCode.Lib MCode.Lib.Results MCode.Tools
open MCode.Files (Bytes isCharBoundary)

/-! ## The shift -/

def removed (items : List Planned) : Nat := (items.map fun item => item.stop - item.start).sum

def added (items : List Planned) : Nat := (items.map fun item => item.replacement.length).sum

@[simp] theorem removed_nil : removed [] = 0 := rfl

@[simp] theorem added_nil : added [] = 0 := rfl

@[simp] theorem removed_cons (item : Planned) (items : List Planned) :
    removed (item :: items) = item.stop - item.start + removed items := by
  simp [removed]

@[simp] theorem added_cons (item : Planned) (items : List Planned) :
    added (item :: items) = item.replacement.length + added items := by
  simp [added]

/-- The edits move the place `old` to the place `new`: it is touched by none, and
those before it change the length of what is before it. -/
def Shifts (items : List Planned) (old new : Nat) : Prop :=
  ∃ before behind, items = before ++ behind ∧ (∀ item ∈ before, item.stop ≤ old) ∧
    (∀ item ∈ behind, old ≤ item.start) ∧ new + removed before = old + added before

/-- The text from `first` to `last` is inserted by one of the edits. -/
def Inserts (items : List Planned) (first last : Nat) : Prop :=
  ∃ before item behind, items = before ++ item :: behind ∧
    first + removed before = item.start + added before ∧
    last = first + item.replacement.length

/-- Where an error is in the old and in the new text, without their marks. -/
def MovesTo (items : List Planned) (beforeBom afterBom old new : Nat) : Prop :=
  ∃ full, Shifts items (old + beforeBom) full ∧ new = full - afterBom

/-- The error has a byte in common with the text, or lies strictly inside it. -/
def SyntaxError.Overlaps (error : SyntaxError) (first last : Nat) : Prop :=
  first < last ∧
    if error.start = error.stop then first < error.start ∧ error.start < last
    else error.start < last ∧ first < error.stop

/-- Each edit is a range, and starts behind the one before it. -/
inductive Disjoint : Nat → List Planned → Prop where
  | nil (cursor : Nat) : Disjoint cursor []
  | cons {cursor : Nat} {item : Planned} {items : List Planned} (start : cursor ≤ item.start)
      (stop : item.start ≤ item.stop) (rest : Disjoint item.stop items) :
      Disjoint cursor (item :: items)

theorem Disjoint.le {cursor : Nat} {items : List Planned} (h : Disjoint cursor items) :
    ∀ item ∈ items, cursor ≤ item.start := by
  induction h with
  | nil => nofun
  | cons start stop rest ih =>
      intro other hin
      cases List.mem_cons.1 hin with
      | inl hsame => rwa [hsame]
      | inr hin => exact Nat.le_trans start (Nat.le_trans stop (ih other hin))

/-! ## The coordinates of the gate -/

theorem okOrElse_ok {value : Option Nat} {message : String} {result : Nat}
    (h : okOrElse value message = .ok result) : value = some result := by
  cases value with
  | none => cases h
  | some value =>
      cases h
      rfl

theorem checkedSub_some {a b c : Nat} (h : checkedSub a b = some c) : b ≤ a ∧ c = a - b := by
  unfold checkedSub at h
  split at h
  · rename_i hle
    cases h
    exact ⟨hle, rfl⟩
  · cases h

theorem checkedAdd_some {a b c : Nat} (h : checkedAdd a b = some c) : c = a + b := by
  unfold checkedAdd at h
  split at h
  · cases h
    rfl
  · cases h

/-- What the loop says about its next edit. -/
structure Located (beforeBom afterBom : Nat) (item : Planned) (oldFullCursor newFullCursor : Nat)
    (edit : CoordinateEdit) : Prop where
  beforeStart : beforeBom ≤ item.start
  beforeStop : beforeBom ≤ item.stop
  behind : oldFullCursor ≤ item.start
  afterStop : afterBom ≤
    newFullCursor + (item.start - oldFullCursor) + item.replacement.length
  edit_eq : edit = ⟨item.start - beforeBom, item.stop - beforeBom,
    newFullCursor + (item.start - oldFullCursor) - afterBom,
    newFullCursor + (item.start - oldFullCursor) + item.replacement.length - afterBom⟩

theorem coordinateLoop_cons {beforeBom afterBom : Nat} {item : Planned} {items : List Planned}
    {oldFullCursor newFullCursor : Nat} {edits : List CoordinateEdit}
    (h : coordinateLoop beforeBom afterBom (item :: items) oldFullCursor newFullCursor =
      .ok edits) :
    ∃ edit rest, edits = edit :: rest ∧
      Located beforeBom afterBom item oldFullCursor newFullCursor edit ∧
      coordinateLoop beforeBom afterBom items item.stop
        (newFullCursor + (item.start - oldFullCursor) + item.replacement.length) = .ok rest := by
  rw [coordinateLoop] at h
  obtain ⟨oldStart, holdStart, h⟩ := bind_ok.1 h
  obtain ⟨oldEnd, holdEnd, h⟩ := bind_ok.1 h
  obtain ⟨unchanged, hunchanged, h⟩ := bind_ok.1 h
  obtain ⟨newStartFull, hnewStart, h⟩ := bind_ok.1 h
  obtain ⟨newEndFull, hnewEnd, h⟩ := bind_ok.1 h
  obtain ⟨newEnd, hend, h⟩ := bind_ok.1 h
  obtain ⟨rest, hrest, h⟩ := bind_ok.1 h
  cases h
  obtain ⟨hstart, rfl⟩ := checkedSub_some (okOrElse_ok holdStart)
  obtain ⟨hstop, rfl⟩ := checkedSub_some (okOrElse_ok holdEnd)
  obtain ⟨hbehind, rfl⟩ := checkedSub_some (okOrElse_ok hunchanged)
  have hnewStart := checkedAdd_some (okOrElse_ok hnewStart)
  subst hnewStart
  have hnewEnd := checkedAdd_some (okOrElse_ok hnewEnd)
  subst hnewEnd
  obtain ⟨hafter, rfl⟩ := checkedSub_some (okOrElse_ok hend)
  exact ⟨_, rest, rfl, ⟨hstart, hstop, hbehind, hafter, rfl⟩, hrest⟩

theorem coordinateLoop_nil {beforeBom afterBom oldFullCursor newFullCursor : Nat}
    {edits : List CoordinateEdit}
    (h : coordinateLoop beforeBom afterBom [] oldFullCursor newFullCursor = .ok edits) :
    edits = [] := by
  cases h
  rfl

theorem coordinateLoop_disjoint {beforeBom afterBom : Nat} {items : List Planned}
    {oldFullCursor newFullCursor : Nat} {edits : List CoordinateEdit}
    (h : coordinateLoop beforeBom afterBom items oldFullCursor newFullCursor = .ok edits)
    (hranges : ∀ item ∈ items, item.start ≤ item.stop) : Disjoint oldFullCursor items := by
  induction items generalizing oldFullCursor newFullCursor edits with
  | nil => exact .nil oldFullCursor
  | cons item items ih =>
      obtain ⟨edit, rest, -, hlocated, hrest⟩ := coordinateLoop_cons h
      exact .cons hlocated.behind (hranges item (List.mem_cons_self ..))
        (ih hrest fun other hin => hranges other (List.mem_cons_of_mem _ hin))

/-- The marks that the two cursors leave out: behind an edit both are behind the
marks, and at the beginning the marks agree unless an edit starts there. -/
def Aligned (beforeBom afterBom oldFullCursor newFullCursor : Nat) (items : List Planned) : Prop :=
  (beforeBom ≤ oldFullCursor ∧ afterBom ≤ newFullCursor) ∨
    oldFullCursor = 0 ∧ newFullCursor = 0 ∧
      (beforeBom = afterBom ∨ ∃ item ∈ items.head?, item.start = 0)

/-- The place `pos` is where the edits from the cursors on move `old`. -/
def MapsBack (beforeBom afterBom : Nat) (items : List Planned)
    (oldFullCursor newFullCursor pos old : Nat) : Prop :=
  ∃ before behind full, items = before ++ behind ∧
    (∀ item ∈ before, item.stop ≤ old + beforeBom) ∧
    (∀ item ∈ behind, old + beforeBom ≤ item.start) ∧ oldFullCursor ≤ old + beforeBom ∧
    full + removed before + oldFullCursor = old + beforeBom + added before + newFullCursor ∧
    pos = full - afterBom

variable {beforeBom afterBom oldFullCursor newFullCursor pos old : Nat} {item : Planned}
  {items : List Planned} {edit : CoordinateEdit} {edits : List CoordinateEdit}

/-- A place in front of the next edit. -/
theorem MapsBack.gap
    (haligned : (beforeBom ≤ oldFullCursor ∧ afterBom ≤ newFullCursor) ∨
      oldFullCursor = 0 ∧ newFullCursor = 0 ∧ beforeBom = afterBom)
    (hdisjoint : Disjoint oldFullCursor items)
    (hnext : ∀ item ∈ items.head?,
      pos + afterBom ≤ newFullCursor + (item.start - oldFullCursor))
    (hpast : newFullCursor - afterBom ≤ pos)
    (hold : old = oldFullCursor - beforeBom + (pos - (newFullCursor - afterBom))) :
    MapsBack beforeBom afterBom items oldFullCursor newFullCursor pos old := by
  refine ⟨[], items, pos + afterBom, rfl, nofun, fun item hin => ?_, ?_, ?_, ?_⟩
  · cases hdisjoint with
    | nil => cases hin
    | cons start stop rest =>
        rename_i first items
        have hfirst := hnext first rfl
        have hle : first.start ≤ item.start := by
          cases List.mem_cons.1 hin with
          | inl hsame => rw [hsame]
          | inr hin => exact Nat.le_trans stop (rest.le item hin)
        omega
  · omega
  · rw [removed_nil, added_nil]
    omega
  · omega

/-- The start of an edit. -/
theorem MapsBack.start
    (hlocated : Located beforeBom afterBom item oldFullCursor newFullCursor edit)
    (hdisjoint : Disjoint oldFullCursor (item :: items)) :
    MapsBack beforeBom afterBom (item :: items) oldFullCursor newFullCursor edit.newStart
      edit.oldStart := by
  obtain ⟨hstart, -, hbehind, -, rfl⟩ := hlocated
  cases hdisjoint with
  | cons start stop rest =>
      refine ⟨[], item :: items, newFullCursor + (item.start - oldFullCursor), rfl, nofun,
        fun other hin => ?_, ?_, ?_, rfl⟩
      · have hle : item.start ≤ other.start :=
          (Disjoint.cons (Nat.le_refl _) stop rest).le other hin
        dsimp only
        omega
      · dsimp only
        omega
      · rw [removed_nil, added_nil]
        dsimp only
        omega

/-- The end of an edit. -/
theorem MapsBack.stop
    (hlocated : Located beforeBom afterBom item oldFullCursor newFullCursor edit)
    (hdisjoint : Disjoint oldFullCursor (item :: items)) :
    MapsBack beforeBom afterBom (item :: items) oldFullCursor newFullCursor edit.newEnd
      edit.oldEnd := by
  obtain ⟨-, hstop, hbehind, -, rfl⟩ := hlocated
  cases hdisjoint with
  | cons start stop rest =>
      refine ⟨[item], items,
        newFullCursor + (item.start - oldFullCursor) + item.replacement.length, rfl,
        fun other hin => ?_, fun other hin => ?_, ?_, ?_, rfl⟩
      · rw [List.mem_singleton.1 hin]
        dsimp only
        omega
      · have hle := rest.le other hin
        dsimp only
        omega
      · dsimp only
        omega
      · rw [removed_cons, added_cons, removed_nil, added_nil]
        dsimp only
        omega

/-- A place behind an edit. -/
theorem MapsBack.behind (hstart : oldFullCursor ≤ item.start) (hstop : item.start ≤ item.stop)
    (h : MapsBack beforeBom afterBom items item.stop
      (newFullCursor + (item.start - oldFullCursor) + item.replacement.length) pos old) :
    MapsBack beforeBom afterBom (item :: items) oldFullCursor newFullCursor pos old := by
  obtain ⟨before, behind, full, rfl, hbefore, hbehind, hcursor, hfull, hpos⟩ := h
  refine ⟨item :: before, behind, full, rfl, ?_, hbehind, ?_, ?_, hpos⟩
  · exact List.forall_mem_cons.2 ⟨hcursor, hbefore⟩
  · omega
  · rw [removed_cons, added_cons]
    omega

/-- An end of an error is mapped to a place that is moved there. -/
theorem mapLoop_mapsBack {boundary : Boundary}
    (hedits : coordinateLoop beforeBom afterBom items oldFullCursor newFullCursor = .ok edits)
    (hranges : ∀ item ∈ items, item.start ≤ item.stop)
    (haligned : Aligned beforeBom afterBom oldFullCursor newFullCursor items)
    (h : mapLoop pos boundary edits (oldFullCursor - beforeBom) (newFullCursor - afterBom) =
      some old) :
    MapsBack beforeBom afterBom items oldFullCursor newFullCursor pos old := by
  have hdisjoint := coordinateLoop_disjoint hedits hranges
  induction items generalizing oldFullCursor newFullCursor edits with
  | nil =>
      cases coordinateLoop_nil hedits
      rw [mapLoop, Option.bind_eq_bind, Option.bind_eq_some_iff] at h
      obtain ⟨past, hpast, h⟩ := h
      obtain ⟨hle, rfl⟩ := checkedSub_some hpast
      refine .gap ?_ hdisjoint nofun hle (checkedAdd_some h)
      refine haligned.imp_right fun ⟨hold, hnew, hmarks⟩ => ⟨hold, hnew, ?_⟩
      exact hmarks.resolve_right fun ⟨item, hitem, _⟩ => nomatch hitem
  | cons item items ih =>
      obtain ⟨edit, rest, rfl, hlocated, hrest⟩ := coordinateLoop_cons hedits
      have hrange := hranges item (List.mem_cons_self ..)
      have hedit := hlocated.edit_eq
      unfold mapLoop at h
      split at h
      · rename_i hfront
        rw [Option.bind_eq_bind, Option.bind_eq_some_iff] at h
        obtain ⟨past, hpast, h⟩ := h
        obtain ⟨hle, rfl⟩ := checkedSub_some hpast
        rw [hedit] at hfront
        dsimp only at hfront
        refine .gap ?_ hdisjoint ?_ hle (checkedAdd_some h)
        · refine haligned.imp_right fun ⟨hold, hnew, hmarks⟩ => ⟨hold, hnew, ?_⟩
          refine hmarks.resolve_right fun ⟨first, hfirst, hzero⟩ => ?_
          cases hfirst
          omega
        · intro first hfirst
          cases hfirst
          omega
      split at h
      · rename_i hstart
        subst hstart
        split at h
        · -- nothing is inserted, so the start of the edit is its end too
          rename_i hempty
          cases boundary with
          | Start =>
              cases h
              rw [hempty]
              exact .stop hlocated hdisjoint
          | End =>
              cases h
              exact .start hlocated hdisjoint
        · cases h
          exact .start hlocated hdisjoint
      split at h
      · cases h
      split at h
      · rename_i hstop
        subst hstop
        cases h
        exact .stop hlocated hdisjoint
      · have hafter := hlocated.afterStop
        have hbefore := hlocated.beforeStop
        rw [hedit] at h
        refine .behind hlocated.behind hrange (ih hrest ?_ (Or.inl ⟨hbefore, hafter⟩) h
          (coordinateLoop_disjoint hrest ?_))
        · exact fun other hin => hranges other (List.mem_cons_of_mem _ hin)
        · exact fun other hin => hranges other (List.mem_cons_of_mem _ hin)

/-- Each text that is inserted is an edit of the gate. -/
theorem inserts_edit {first last : Nat} {before behind : List Planned}
    (hedits : coordinateLoop beforeBom afterBom items oldFullCursor newFullCursor = .ok edits)
    (hranges : ∀ item ∈ items, item.start ≤ item.stop)
    (hitems : items = before ++ item :: behind)
    (hfirst : first + removed before + oldFullCursor = item.start + added before + newFullCursor)
    (hlast : last = first + item.replacement.length) :
    ∃ edit ∈ edits, edit.newStart = first - afterBom ∧ edit.newEnd = last - afterBom := by
  induction before generalizing items oldFullCursor newFullCursor edits with
  | nil =>
      subst hitems
      obtain ⟨edit, rest, rfl, hlocated, -⟩ := coordinateLoop_cons hedits
      have hbehind := hlocated.behind
      rw [removed_nil, added_nil] at hfirst
      refine ⟨edit, List.mem_cons_self .., ?_⟩
      rw [hlocated.edit_eq]
      exact ⟨by dsimp only; omega, by dsimp only; omega⟩
  | cons other before ih =>
      subst hitems
      obtain ⟨edit, rest, rfl, hlocated, hrest⟩ := coordinateLoop_cons hedits
      have hbehind := hlocated.behind
      have hrange := hranges other (List.mem_cons_self ..)
      rw [removed_cons, added_cons] at hfirst
      obtain ⟨found, hfound, hplace⟩ := ih hrest
        (fun item hin => hranges item (List.mem_cons_of_mem _ hin)) rfl (by omega)
      exact ⟨found, List.mem_cons_of_mem _ hfound, hplace⟩

/-! ## One error -/

theorem mapAfterPosition_moves {boundary : Boundary}
    (hedits : coordinateLoop beforeBom afterBom items 0 0 = .ok edits)
    (hranges : ∀ item ∈ items, item.start ≤ item.stop)
    (hmarks : beforeBom = afterBom ∨ ∃ item ∈ items.head?, item.start = 0)
    (h : mapAfterPosition pos edits boundary = some old) :
    MovesTo items beforeBom afterBom old pos := by
  have h : mapLoop pos boundary edits (0 - beforeBom) (0 - afterBom) = some old := by
    rw [Nat.zero_sub, Nat.zero_sub]
    exact h
  obtain ⟨before, behind, full, hitems, hbefore, hbehind, -, hfull, hpos⟩ :=
    mapLoop_mapsBack hedits hranges (Or.inr ⟨rfl, rfl, hmarks⟩) h
  exact ⟨full, ⟨before, behind, hitems, hbefore, hbehind, by omega⟩, hpos⟩

/-- An error of the new text is one of the old text that the edits have moved. -/
structure Preexists (items : List Planned) (beforeBom afterBom : Nat)
    (old new : SyntaxError) : Prop where
  kindId : new.kindId = old.kindId
  missing : new.missing = old.missing
  start : MovesTo items beforeBom afterBom old.start new.start
  stop : MovesTo items beforeBom afterBom old.stop new.stop
  apart : ∀ first last, Inserts items first last →
    ¬ new.Overlaps (first - afterBom) (last - afterBom)

theorem intersects_of_overlaps {error : SyntaxError} {edit : CoordinateEdit}
    (h : error.Overlaps edit.newStart edit.newEnd) :
    errorIntersectsReplacement error edit = true := by
  obtain ⟨hlt, hoverlaps⟩ := h
  unfold errorIntersectsReplacement
  rw [if_neg (Nat.ne_of_lt hlt)]
  split at hoverlaps
  · rename_i hempty
    rw [if_pos hempty]
    simpa using hoverlaps
  · rename_i hwide
    rw [if_neg hwide]
    simpa using hoverlaps

theorem mapSyntaxError_preexists {error mapped : SyntaxError}
    (hedits : coordinateLoop beforeBom afterBom items 0 0 = .ok edits)
    (hranges : ∀ item ∈ items, item.start ≤ item.stop)
    (hmarks : beforeBom = afterBom ∨ ∃ item ∈ items.head?, item.start = 0)
    (h : mapSyntaxError error edits = some mapped) :
    Preexists items beforeBom afterBom mapped error := by
  unfold mapSyntaxError at h
  split at h
  · cases h
  rename_i hapart
  rw [Option.bind_eq_bind, Option.bind_eq_some_iff] at h
  obtain ⟨start, hstart, h⟩ := h
  rw [Option.bind_eq_some_iff] at h
  obtain ⟨stop, hstop, h⟩ := h
  split at h
  · cases h
    refine ⟨rfl, rfl, mapAfterPosition_moves hedits hranges hmarks hstart,
      mapAfterPosition_moves hedits hranges hmarks hstop, ?_⟩
    rintro first last ⟨before, item, behind, hitems, hfirst, hlast⟩ hoverlaps
    obtain ⟨edit, hin, hnewStart, hnewEnd⟩ :=
      inserts_edit hedits hranges hitems (by omega) hlast
    rw [← hnewStart, ← hnewEnd] at hoverlaps
    exact hapart (List.any_eq_true.2 ⟨edit, hin, intersects_of_overlaps hoverlaps⟩)
  · cases h

/-- The errors that are matched are among the existing ones, each for itself. -/
theorem matchErrors_sublist {existing mapped : List SyntaxError}
    (h : matchErrors existing mapped = true) : mapped.Sublist existing := by
  induction mapped generalizing existing with
  | nil => exact List.nil_sublist existing
  | cons error mapped ih =>
      rw [matchErrors] at h
      split at h
      · cases h
      · rename_i item rest hdrop
        split at h
        · rename_i hsame
          have hsuffix : (item :: rest).Sublist existing :=
            hdrop ▸ (List.dropWhile_suffix _).sublist
          exact ((ih h).cons_cons error).trans (hsame ▸ hsuffix)
        · cases h

/-! ## The marks -/

/-- What `apply_planned` has checked, and the text it makes. -/
structure Applies (snapshot : Bytes) (planned : List Planned) (text : Bytes) : Prop where
  ranges : ∀ item ∈ ordered planned, item.start ≤ item.stop ∧ item.stop ≤ snapshot.length ∧
    isCharBoundary snapshot item.start = true ∧ isCharBoundary snapshot item.stop = true
  disjoint : Disjoint 0 (ordered planned)
  text : ∃ built diff, applyLoop false snapshot (ordered planned) 0 [] [] = .ok (built, diff) ∧
    text = if hasBom snapshot && !hasBom built then UTF8_BOM ++ built else built

theorem checkRanges_ok {snapshot : Bytes} {items : List Planned}
    (h : checkRanges snapshot items = .ok ()) :
    ∀ item ∈ items, item.start ≤ item.stop ∧ item.stop ≤ snapshot.length ∧
      isCharBoundary snapshot item.start = true ∧ isCharBoundary snapshot item.stop = true := by
  induction items with
  | nil => nofun
  | cons item items ih =>
      rw [checkRanges] at h
      split at h
      · cases h
      · rename_i hgood
        simp only [not_or, Nat.not_lt, Bool.not_eq_false] at hgood
        exact List.forall_mem_cons.2 ⟨hgood, ih h⟩

theorem checkPairs_ok {items : List Planned} (h : checkPairs items = .ok ())
    (hranges : ∀ item ∈ items, item.start ≤ item.stop) {cursor : Nat}
    (hfirst : ∀ item ∈ items.head?, cursor ≤ item.start) : Disjoint cursor items := by
  induction items generalizing cursor with
  | nil => exact .nil cursor
  | cons item items ih =>
      have hrest : ∀ other ∈ items, other.start ≤ other.stop := fun other hin =>
        hranges other (List.mem_cons_of_mem _ hin)
      refine .cons (hfirst item rfl) (hranges item (List.mem_cons_self ..)) ?_
      cases items with
      | nil => exact .nil item.stop
      | cons next items =>
          rw [checkPairs] at h
          split at h
          · cases h
          · rename_i hbehind
            split at h
            · cases h
            · refine ih h hrest fun other hother => ?_
              cases hother
              exact Nat.le_of_not_lt hbehind

theorem applyPlanned_applies {snapshot : Bytes} {planned : List Planned} {applied : Applied}
    (h : applyPlanned snapshot planned false = .ok applied) :
    Applies snapshot planned applied.text := by
  unfold applyPlanned at h
  obtain ⟨-, h⟩ := bind_unit_ok.1 h
  obtain ⟨hranges, h⟩ := bind_unit_ok.1 h
  obtain ⟨hpairs, h⟩ := bind_unit_ok.1 h
  have hranges := checkRanges_ok hranges
  split at h
  · cases h
  obtain ⟨⟨built, diff⟩, hloop, h⟩ := bind_ok.1 h
  dsimp only at h
  generalize htext : (if (hasBom snapshot && !hasBom built) = true then UTF8_BOM ++ built
    else built) = text at h
  split at h
  · cases h
  · cases h
    subst htext
    exact ⟨hranges, checkPairs_ok hpairs (fun item hin => (hranges item hin).1)
      fun _ _ => Nat.zero_le _, built, diff, hloop, rfl⟩

theorem between_append {start middle stop : Nat} (hstart : start ≤ middle)
    (hstop : middle ≤ stop) (snapshot : Bytes) :
    between snapshot start middle ++ between snapshot middle stop =
      between snapshot start stop :=
  MCode.Files.take_drop_append hstart hstop snapshot

theorem between_front {middle stop : Nat} (h : middle ≤ stop) (snapshot : Bytes)
    (start : Nat) : between snapshot start middle <+: between snapshot start stop := by
  unfold between
  rw [List.drop_take, List.drop_take]
  exact List.take_prefix_take_left (by omega)

/-- One edit of the loop. -/
theorem applyLoop_cons {snapshot : Bytes} {item : Planned} {items : List Planned} {cursor : Nat}
    {text built diff diff' : Bytes}
    (h : applyLoop false snapshot (item :: items) cursor text diff = .ok (built, diff')) :
    ∃ diff, applyLoop false snapshot items item.stop
      (text ++ between snapshot cursor item.start ++ item.replacement) diff =
        .ok (built, diff') := by
  rw [applyLoop] at h
  obtain ⟨-, h⟩ := bind_unit_ok.1 h
  dsimp only at h
  split at h
  · cases h
  · exact ⟨_, h⟩

theorem applyLoop_keeps {snapshot : Bytes} {items : List Planned} {cursor : Nat}
    {text built diff diff' : Bytes}
    (h : applyLoop false snapshot items cursor text diff = .ok (built, diff')) :
    text <+: built := by
  induction items generalizing cursor text diff with
  | nil =>
      cases h
      exact List.prefix_append ..
  | cons item items ih =>
      obtain ⟨diff, h⟩ := applyLoop_cons h
      refine List.IsPrefix.trans ?_ (ih h)
      rw [List.append_assoc]
      exact List.prefix_append ..

theorem sliceGet_some {text replacement : Bytes} {start stop : Nat}
    (h : sliceGet text start stop = some replacement) : replacement = between text start stop := by
  unfold sliceGet at h
  split at h
  · cases h
    rfl
  · cases h

/-- The loop keeps the snapshot up to a place before which the edits change
nothing. -/
theorem applyLoop_front {snapshot : Bytes} {items : List Planned} {cursor place : Nat}
    {text built diff diff' : Bytes}
    (h : applyLoop false snapshot items cursor text diff = .ok (built, diff'))
    (hdisjoint : Disjoint cursor items)
    (hsame : ∀ item ∈ items,
      sliceGet snapshot item.start item.stop = some item.replacement ∨ place ≤ item.start) :
    text ++ between snapshot cursor place <+: built := by
  induction items generalizing cursor text diff with
  | nil =>
      cases h
      refine (List.prefix_append_right_inj text).2 ?_
      unfold between
      rw [List.drop_take]
      exact List.take_prefix ..
  | cons item items ih =>
      obtain ⟨diff, h⟩ := applyLoop_cons h
      have hkeeps := applyLoop_keeps h
      cases hdisjoint with
      | cons start stop rest =>
          cases hsame item (List.mem_cons_self ..) with
          | inr hbehind =>
              refine List.IsPrefix.trans ?_ hkeeps
              rw [List.append_assoc]
              refine (List.prefix_append_right_inj text).2 ?_
              exact (between_front hbehind snapshot cursor).trans (List.prefix_append ..)
          | inl hsame' =>
              -- the edit puts back what it takes out
              rw [sliceGet_some hsame', List.append_assoc, between_append start stop] at h hkeeps
              by_cases hplace : item.stop ≤ place
              · have hmore := ih h rest fun other hin => hsame other (List.mem_cons_of_mem _ hin)
                rw [List.append_assoc, between_append (Nat.le_trans start stop) hplace] at hmore
                exact hmore
              · refine List.IsPrefix.trans ?_ hkeeps
                exact (List.prefix_append_right_inj text).2
                  (between_front (by omega) snapshot cursor)

/-- Edits that change nothing leave the snapshot. -/
theorem applyLoop_same {snapshot : Bytes} {items : List Planned} {cursor : Nat}
    {text built diff diff' : Bytes}
    (h : applyLoop false snapshot items cursor text diff = .ok (built, diff'))
    (hdisjoint : Disjoint cursor items) (hstop : ∀ item ∈ items, item.stop ≤ snapshot.length)
    (hsame : ∀ item ∈ items,
      sliceGet snapshot item.start item.stop = some item.replacement) :
    built = text ++ snapshot.drop cursor := by
  induction items generalizing cursor text diff with
  | nil =>
      cases h
      rfl
  | cons item items ih =>
      obtain ⟨diff, h⟩ := applyLoop_cons h
      cases hdisjoint with
      | cons start stop rest =>
          have hsame' := hsame item (List.mem_cons_self ..)
          rw [sliceGet_some hsame', List.append_assoc, between_append start stop] at h
          rw [ih h rest (fun other hin => hstop other (List.mem_cons_of_mem _ hin))
            fun other hin => hsame other (List.mem_cons_of_mem _ hin), List.append_assoc]
          have hcursor : cursor ≤ item.stop := Nat.le_trans start stop
          have hrest : snapshot.drop item.stop = between snapshot item.stop snapshot.length := by
            rw [between, List.take_length]
          have hall : snapshot.drop cursor = between snapshot cursor snapshot.length := by
            rw [between, List.take_length]
          rw [hrest, hall, between_append hcursor (hstop item (List.mem_cons_self ..))]

/-- A character that begins as the mark does has three bytes, of which the last
two only continue it. -/
theorem encodeChar_mark {c : Char} {rest : Bytes} (h : String.utf8EncodeChar c = 0xEF :: rest) :
    ∃ second third, rest = [second, third] ∧ Utf8.isContinuation second = true ∧
      Utf8.isContinuation third = true := by
  have hcontinues : ∀ n < 64, Utf8.isContinuation (UInt8.ofNat (n + 128)) = true := by
    intro n hn
    have hnat : (UInt8.ofNat (n + 128)).toNat = n + 128 := by
      rw [UInt8.toNat_ofNat']
      omega
    simp only [Utf8.isContinuation, Bool.and_eq_true, decide_eq_true_eq, UInt8.le_iff_toNat_le,
      hnat]
    exact ⟨by simp, by simp; omega⟩
  have hhead : ∀ n, n < 256 → UInt8.ofNat n = 0xEF → n = 0xEF := by
    intro n hn heq
    have hnat := congrArg UInt8.toNat heq
    rw [UInt8.toNat_ofNat'] at hnat
    change n % 256 = 0xEF at hnat
    omega
  unfold String.utf8EncodeChar at h
  dsimp only at h
  split at h
  · injection h with hfirst
    have hbyte := hhead _ (by omega) hfirst
    omega
  split at h
  · injection h with hfirst
    have hbyte := hhead _ (by omega) hfirst
    omega
  split at h
  · injection h with hfirst hrest
    exact ⟨_, _, hrest.symm, hcontinues _ (by omega), hcontinues _ (by omega)⟩
  · injection h with hfirst
    have hbyte := hhead _ (by omega) hfirst
    omega

/-- No character ends inside the mark. -/
theorem mark_boundary {chars : List Char} {place : Nat}
    (hfirst : (Utf8.encode chars).head? = some 0xEF) (hpos : 0 < place) (hlt : place < 3) :
    isCharBoundary (Utf8.encode chars) place = false := by
  cases chars with
  | nil => cases hfirst
  | cons c chars =>
      have hcons : Utf8.encode (c :: chars) = String.utf8EncodeChar c ++ Utf8.encode chars := rfl
      obtain ⟨first, rest, hbytes⟩ : ∃ first rest, String.utf8EncodeChar c = first :: rest :=
        List.exists_cons_of_length_pos (by rw [String.length_utf8EncodeChar]; exact c.utf8Size_pos)
      rw [hcons, hbytes] at hfirst
      cases hfirst
      obtain ⟨second, third, rfl, hsecond, hthird⟩ := encodeChar_mark hbytes
      rw [hcons, hbytes]
      match place with
      | 1 => simp [isCharBoundary, hsecond]
      | 2 => simp [isCharBoundary, hthird]

instance : Std.Total Planned.le := ⟨fun first second => by unfold Planned.le; omega⟩

instance : IsTrans Planned Planned.le :=
  ⟨fun first second third h₁ h₂ => by unfold Planned.le at *; omega⟩

/-- An edit that changes something is not in front of the first such edit. -/
theorem changing_first {before : Bytes} {planned : List Planned} {first : Planned}
    {rest : List Planned} (h : changing before planned = first :: rest) :
    ∀ item ∈ ordered planned,
      sliceGet before item.start item.stop = some item.replacement ∨
        first.start ≤ item.start := by
  have hsorted := List.pairwise_insertionSort Planned.le (planned.filter fun item =>
    sliceGet before item.start item.stop ≠ some item.replacement)
  change (changing before planned).Pairwise Planned.le at hsorted
  rw [h] at hsorted
  intro item hitem
  by_cases hsame : sliceGet before item.start item.stop = some item.replacement
  · exact Or.inl hsame
  · have hin : item ∈ changing before planned :=
      (List.mem_insertionSort _).2 (List.mem_filter.2
        ⟨(List.mem_insertionSort _).1 hitem, by simpa using hsame⟩)
    rw [h] at hin
    refine Or.inr ?_
    cases List.mem_cons.1 hin with
    | inl heq => rw [heq]
    | inr hin =>
        have hle := (List.pairwise_cons.1 hsorted).1 item hin
        unfold Planned.le at hle
        omega

theorem hasBom_iff {text : Bytes} : hasBom text = true ↔ UTF8_BOM <+: text :=
  List.isPrefixOf_iff_prefix

/-- The marks of both texts agree unless an edit that changes something is at the
beginning. -/
theorem marks_agree {chars : List Char} {planned : List Planned} {after : Bytes}
    (happlies : Applies (Utf8.encode chars) planned after) {edits : List CoordinateEdit}
    (hedits : coordinateEdits (Utf8.encode chars) planned (bomLen (Utf8.encode chars))
      (bomLen after) = .ok edits) :
    bomLen (Utf8.encode chars) = bomLen after ∨
      ∃ item ∈ (changing (Utf8.encode chars) planned).head?, item.start = 0 := by
  obtain ⟨hranges, hdisjoint, built, diff, hloop, hafter⟩ := happlies
  have hmark := @mark_boundary chars
  generalize Utf8.encode chars = before at *
  cases hchanging : changing before planned with
  | nil =>
      -- nothing changes
      have hsame : ∀ item ∈ ordered planned,
          sliceGet before item.start item.stop = some item.replacement := by
        intro item hitem
        by_contra hchanges
        have hin : item ∈ changing before planned :=
          (List.mem_insertionSort _).2 (List.mem_filter.2
            ⟨(List.mem_insertionSort _).1 hitem, by simpa using hchanges⟩)
        rw [hchanging] at hin
        cases hin
      have hbuilt := applyLoop_same hloop hdisjoint (fun item hin => (hranges item hin).2.1) hsame
      rw [List.nil_append, List.drop_zero] at hbuilt
      subst hbuilt
      rw [Bool.and_not_self, if_neg Bool.false_ne_true] at hafter
      rw [hafter]
      exact Or.inl rfl
  | cons first rest =>
      by_cases hzero : first.start = 0
      · exact Or.inr ⟨first, rfl, hzero⟩
      refine Or.inl ?_
      have hfirst : first ∈ ordered planned := by
        have hin : first ∈ changing before planned := by
          rw [hchanging]
          exact List.mem_cons_self ..
        exact (List.mem_insertionSort _).2
          (List.mem_of_mem_filter ((List.mem_insertionSort _).1 hin))
      obtain ⟨hrange, hstop, hboundary, -⟩ := hranges first hfirst
      have hkept := applyLoop_front hloop hdisjoint (changing_first hchanging)
      rw [List.nil_append, between, List.drop_zero] at hkept
      rw [coordinateEdits, hchanging] at hedits
      obtain ⟨edit, more, -, hlocated, -⟩ := coordinateLoop_cons hedits
      have hstart := hlocated.beforeStart
      have hlength : (before.take first.start).length = first.start := by
        rw [List.length_take]
        omega
      have hthree : UTF8_BOM.length = 3 := rfl
      cases hbom : hasBom before with
      | true =>
          have hbefore := hasBom_iff.1 hbom
          rw [bomLen, if_pos hbom] at hstart
          have hbuilt : hasBom built = true := hasBom_iff.2 (List.IsPrefix.trans
            (List.prefix_of_prefix_length_le hbefore (List.take_prefix ..) (by omega)) hkept)
          rw [hbuilt, hbom, if_neg (by simp)] at hafter
          rw [bomLen, bomLen, hafter, if_pos hbom, if_pos hbuilt]
      | false =>
          rw [hbom, Bool.false_and, if_neg Bool.false_ne_true] at hafter
          have hbuilt : hasBom built = false := by
            by_contra hmarked
            have hmarked := hasBom_iff.1 ((Bool.not_eq_false _).mp hmarked)
            by_cases hlong : 3 ≤ first.start
            · have hfront := List.prefix_of_prefix_length_le hmarked hkept (by omega)
              have hbefore := hasBom_iff.2 (hfront.trans (List.take_prefix ..))
              exact absurd (hbom.symm.trans hbefore) Bool.false_ne_true
            · -- the first edit would start inside the first character
              have hfront := List.prefix_of_prefix_length_le hkept hmarked (by omega)
              have hhead : before.head? = some 0xEF := by
                cases before with
                | nil => simp at hlength; omega
                | cons byte before =>
                    obtain ⟨more, hmore⟩ : ∃ more, first.start = more + 1 :=
                      ⟨first.start - 1, by omega⟩
                    rw [hmore, List.take_succ_cons] at hfront
                    obtain ⟨tail, htail⟩ := hfront
                    rw [List.cons_append] at htail
                    injection htail with hbyte
                    rw [hbyte]
                    rfl
              have hinside := hmark hhead (Nat.pos_of_ne_zero hzero) (by omega)
              exact absurd (hinside.symm.trans hboundary) Bool.false_ne_true
          rw [bomLen, bomLen, hafter, if_neg (by simp [hbom]), if_neg (by simp [hbuilt])]

/-! ## The gate -/

theorem mapM_forall₂ {α β : Type*} {f : α → Option β} {xs : List α} {ys : List β}
    (h : xs.mapM f = some ys) : List.Forall₂ (fun x y => f x = some y) xs ys := by
  induction xs generalizing ys with
  | nil =>
      cases h
      exact .nil
  | cons x xs ih =>
      rw [List.mapM_cons, Option.bind_eq_bind, Option.bind_eq_some_iff] at h
      obtain ⟨y, hy, h⟩ := h
      rw [Option.bind_eq_bind, Option.bind_eq_some_iff] at h
      obtain ⟨ys, hys, h⟩ := h
      cases h
      exact .cons hy (ih hys)

/-- **Soundness of the gate.**  When it accepts the errors of a text to which
edits have been applied, each of them is an error of its own of the old text, of
the same kind, moved by the edits, and away from what they insert. -/
theorem syntax_gate_sound (chars : List Char) (planned : List Planned) (applied : Applied)
    (before after : List SyntaxError) (edits : List CoordinateEdit)
    (happlied : applyPlanned (Utf8.encode chars) planned false = .ok applied)
    (hedits : coordinateEdits (Utf8.encode chars) planned (bomLen (Utf8.encode chars))
      (bomLen applied.text) = .ok edits)
    (haccepts : syntaxErrorsArePreexisting before after edits = true) :
    ∃ preexisting : Fin after.length → Fin before.length,
      Function.Injective preexisting ∧ ∀ i,
        Preexists (changing (Utf8.encode chars) planned) (bomLen (Utf8.encode chars))
          (bomLen applied.text) before[preexisting i] after[i] := by
  have happlies := applyPlanned_applies happlied
  have hmarks := marks_agree happlies hedits
  have hranges : ∀ item ∈ changing (Utf8.encode chars) planned, item.start ≤ item.stop := by
    intro item hin
    exact (happlies.ranges item ((List.mem_insertionSort _).2
      (List.mem_of_mem_filter ((List.mem_insertionSort _).1 hin)))).1
  unfold syntaxErrorsArePreexisting at haccepts
  split at haccepts
  · cases haccepts
  rename_i mapped hmapped
  have hmapped := mapM_forall₂ hmapped
  have hlength := hmapped.length_eq
  have hsubperm : mapped.Subperm before :=
    (((List.perm_insertionSort _ mapped).subperm_right).1
      (List.Subperm.refl _)).trans ((matchErrors_sublist haccepts).subperm.trans
        (List.perm_insertionSort _ before).subperm)
  refine ⟨fun i => hsubperm.idxInj (i.cast hlength), ?_, fun i => ?_⟩
  · intro i j hij
    exact Fin.cast_injective hlength (hsubperm.idxInj_injective hij)
  · have hfound : before[(hsubperm.idxInj (i.cast hlength) : Nat)] = mapped[(i : Nat)] :=
      hsubperm.getElem_idxInj_eq_getElem
    have hmap : mapSyntaxError after[(i : Nat)] edits = some mapped[(i : Nat)] :=
      (List.forall₂_iff_get.1 hmapped).2 i i.2 (by omega)
    have hpreexists := mapSyntaxError_preexists hedits hranges hmarks hmap
    rw [← hfound] at hpreexists
    exact hpreexists

/-- An error in the second letter, in front of which a letter is inserted. -/
theorem syntax_gate_sound_insert :
    ∃ preexisting : Fin 1 → Fin 1, Function.Injective preexisting ∧ ∀ i,
      Preexists [⟨1, 1, [0x78]⟩] 0 0 ([⟨1, 2, 7, false⟩] : List SyntaxError)[preexisting i]
        ([⟨2, 3, 7, false⟩] : List SyntaxError)[i] := by
  have hchanging : changing (Utf8.encode ['a', 'b']) [⟨1, 1, [0x78]⟩] = [⟨1, 1, [0x78]⟩] := by
    decide
  have hsound := syntax_gate_sound ['a', 'b'] [⟨1, 1, [0x78]⟩]
    ⟨[0x61, 0x78, 0x62], 1, 2, 3, appendDiff [] [] [0x78]⟩
    [⟨1, 2, 7, false⟩] [⟨2, 3, 7, false⟩] [⟨1, 1, 1, 2⟩] rfl rfl (by decide)
  rw [hchanging] at hsound
  exact hsound

end MCode.Edit
