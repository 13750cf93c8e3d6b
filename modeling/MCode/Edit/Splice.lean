import MCode.Edit.Gate
import MCode.Lib.Spans

/-!
# Simultaneous replacement

What `apply_planned` makes of a snapshot, said place by place: at every place the
replacement of a range that starts there, and then the byte itself unless a range
covers it.  The loop over the sorted ranges builds this text, and it succeeds just
if the ranges are apart, start at different places and the text is not too long.
-/

namespace MCode.Edit

open MCode.Lib MCode.Tools
open MCode.Lib.Results (bind_ok bind_unit_ok error_ne_ok)
open MCode.Lib.Spans (Apart)
open MCode.Files (Bytes isCharBoundary)

def covers (item : Planned) (place : Nat) : Bool := item.start ≤ place && place < item.stop

/-- What stands at a place of the snapshot afterwards. -/
def placeBytes (snapshot : Bytes) (planned : List Planned) (place : Nat) : Bytes :=
  (planned.filter fun item => item.start == place).flatMap Planned.replacement ++
    if planned.any fun item => covers item place then [] else snapshot[place]?.toList

/-- All ranges replaced at once; the last place is the end. -/
def replaced (snapshot : Bytes) (planned : List Planned) : Bytes :=
  (List.range (snapshot.length + 1)).flatMap (placeBytes snapshot planned)

/-- A mark that the replacements removed is put back. -/
def finalText (snapshot : Bytes) (planned : List Planned) : Bytes :=
  if hasBom snapshot && !hasBom (replaced snapshot planned) then
    UTF8_BOM ++ replaced snapshot planned
  else replaced snapshot planned

/-- Ranges of the snapshot between characters, apart from each other and with
different starts. -/
structure Placed (snapshot : Bytes) (planned : List Planned) : Prop where
  ranges : ∀ item ∈ planned, item.start ≤ item.stop ∧ item.stop ≤ snapshot.length ∧
    isCharBoundary snapshot item.start = true ∧ isCharBoundary snapshot item.stop = true
  apart : planned.Pairwise fun a b => Apart Planned.start Planned.stop a b ∧ a.start ≠ b.start

/-! ## The order does not matter -/

theorem ordered_perm (planned : List Planned) : (ordered planned).Perm planned :=
  List.perm_insertionSort Planned.le planned

theorem apart_perm {planned planned' : List Planned} (h : planned.Perm planned') :
    (planned.Pairwise fun a b => Apart Planned.start Planned.stop a b ∧ a.start ≠ b.start) ↔
      planned'.Pairwise fun a b => Apart Planned.start Planned.stop a b ∧ a.start ≠ b.start :=
  h.pairwise_iff fun hab => ⟨hab.1.symm, hab.2.symm⟩

theorem Placed.perm {snapshot : Bytes} {planned planned' : List Planned}
    (hperm : planned.Perm planned') (h : Placed snapshot planned) : Placed snapshot planned' where
  ranges := fun item hitem => h.ranges item (hperm.mem_iff.2 hitem)
  apart := (apart_perm hperm).1 h.apart

/-- At most one range starts at a place. -/
theorem starts_at_most_one {planned : List Planned}
    (h : planned.Pairwise fun a b => a.start ≠ b.start) (place : Nat) :
    (planned.filter fun item => item.start == place).length ≤ 1 := by
  induction planned with
  | nil => exact Nat.zero_le 1
  | cons item planned ih =>
      obtain ⟨hfirst, hrest⟩ := List.pairwise_cons.1 h
      by_cases hstart : item.start = place
      · have hnone : (planned.filter fun other => other.start == place) = [] := by
          rw [List.filter_eq_nil_iff]
          intro other hother heq
          exact hfirst other hother (hstart.trans (beq_iff_eq.1 heq).symm)
        rw [List.filter_cons, if_pos (beq_iff_eq.2 hstart), hnone]
        exact Nat.le_refl 1
      · rw [List.filter_cons, if_neg fun heq => hstart (beq_iff_eq.1 heq)]
        exact ih hrest

theorem placeBytes_perm {planned planned' : List Planned} (hperm : planned.Perm planned')
    (h : planned.Pairwise fun a b => a.start ≠ b.start) (snapshot : Bytes) :
    placeBytes snapshot planned = placeBytes snapshot planned' := by
  funext place
  have hfilter := hperm.filter fun item => item.start == place
  have hone := starts_at_most_one h place
  have hsame : (planned.filter fun item => item.start == place) =
      planned'.filter fun item => item.start == place := by
    cases hlist : planned.filter fun item => item.start == place with
    | nil =>
        rw [hlist] at hfilter
        exact hfilter.nil_eq
    | cons item rest =>
        rw [hlist] at hone hfilter
        cases rest with
        | nil => exact (List.perm_singleton.1 hfilter.symm).symm
        | cons other rest =>
            rw [List.length_cons, List.length_cons] at hone
            omega
  unfold placeBytes
  rw [hsame, hperm.any_eq]

theorem replaced_perm {planned planned' : List Planned} (hperm : planned.Perm planned')
    (h : planned.Pairwise fun a b => a.start ≠ b.start) (snapshot : Bytes) :
    replaced snapshot planned = replaced snapshot planned' := by
  unfold replaced
  rw [placeBytes_perm hperm h]

/-! ## The loop -/

/-- The places from the cursor on. -/
def placesFrom (snapshot : Bytes) (items : List Planned) (cursor : Nat) : Bytes :=
  (List.range' cursor (snapshot.length + 1 - cursor)).flatMap (placeBytes snapshot items)

theorem range'_split {start middle stop : Nat} (hstart : start ≤ middle) (hstop : middle ≤ stop) :
    List.range' start (stop - start) =
      List.range' start (middle - start) ++ List.range' middle (stop - middle) := by
  have happend := @List.range'_append start (middle - start) (stop - middle) 1
  rw [Nat.one_mul, Nat.add_sub_cancel' hstart] at happend
  rw [happend]
  congr 1
  omega

theorem flatMap_bytes (snapshot : Bytes) {start stop : Nat} (hstop : stop ≤ snapshot.length) :
    (List.range' start (stop - start)).flatMap (fun place => snapshot[place]?.toList) =
      between snapshot start stop := by
  obtain ⟨count, hcount⟩ : ∃ count, stop - start = count := ⟨_, rfl⟩
  unfold between
  rw [List.drop_take, hcount]
  induction count generalizing start with
  | zero => rw [List.take_zero]; rfl
  | succ count ih =>
      have hlt : start < snapshot.length := by omega
      rw [List.range'_succ, List.flatMap_cons, ih (by omega), List.getElem?_eq_getElem hlt,
        List.drop_eq_getElem_cons hlt, List.take_succ_cons]
      rfl

theorem filter_start_none {items : List Planned} {place : Nat}
    (h : ∀ item ∈ items, item.start ≠ place) :
    (items.filter fun item => item.start == place) = [] := by
  rw [List.filter_eq_nil_iff]
  exact fun item hitem heq => h item hitem (beq_iff_eq.1 heq)

theorem any_covers_none {items : List Planned} {place : Nat}
    (h : ∀ item ∈ items, place < item.start) :
    (items.any fun item => covers item place) = false := by
  rw [List.any_eq_false]
  intro item hitem hcovers
  have hlt := h item hitem
  unfold covers at hcovers
  rw [Bool.and_eq_true, decide_eq_true_eq, decide_eq_true_eq] at hcovers
  omega

/-- In front of all ranges. -/
theorem placeBytes_before {snapshot : Bytes} {items : List Planned} {place : Nat}
    (h : ∀ item ∈ items, place < item.start) :
    placeBytes snapshot items place = snapshot[place]?.toList := by
  unfold placeBytes
  rw [filter_start_none fun item hitem => Nat.ne_of_gt (h item hitem), any_covers_none h]
  rfl

theorem placesFrom_nil (snapshot : Bytes) {cursor : Nat} (h : cursor ≤ snapshot.length) :
    placesFrom snapshot [] cursor = snapshot.drop cursor := by
  have hbytes : placeBytes snapshot [] = fun place => snapshot[place]?.toList := by
    funext place
    exact placeBytes_before fun item hitem => (List.not_mem_nil hitem).elim
  have hend : snapshot.length.succ - snapshot.length = 1 := by omega
  unfold placesFrom
  rw [hbytes, range'_split h (Nat.le_succ _), List.flatMap_append,
    flatMap_bytes snapshot (Nat.le_refl _), between, List.take_length, hend]
  show snapshot.drop cursor ++ (snapshot[snapshot.length]?.toList ++ []) = _
  rw [List.getElem?_eq_none (Nat.le_refl _)]
  exact List.append_nil _

/-- A range with what is behind it. -/
theorem placeBytes_cons {snapshot : Bytes} {item : Planned} {items : List Planned} {place : Nat}
    (hafter : ∀ other ∈ items, item.start < other.start) :
    placeBytes snapshot (item :: items) place =
      if place = item.start then
        item.replacement ++ if item.start < item.stop then [] else placeBytes snapshot items place
      else if covers item place then
        (items.filter fun other => other.start == place).flatMap Planned.replacement
      else placeBytes snapshot items place := by
  by_cases hstart : place = item.start
  · subst hstart
    have hnone : ∀ other ∈ items, other.start ≠ item.start := fun other hother =>
      Nat.ne_of_gt (hafter other hother)
    rw [if_pos rfl, placeBytes_before hafter]
    unfold placeBytes
    rw [List.filter_cons, if_pos (beq_self_eq_true _), filter_start_none hnone, List.any_cons,
      any_covers_none hafter, Bool.or_false]
    unfold covers
    rw [decide_eq_true (Nat.le_refl item.start), Bool.true_and]
    simp
  · rw [if_neg hstart]
    unfold placeBytes
    rw [List.filter_cons, if_neg (fun heq => hstart (beq_iff_eq.1 heq).symm), List.any_cons]
    cases hcovers : covers item place with
    | true => simp
    | false => rw [Bool.false_or, if_neg Bool.false_ne_true]

/-- The loop's way through the places. -/
theorem placesFrom_cons {snapshot : Bytes} {item : Planned} {items : List Planned} {cursor : Nat}
    (hcursor : cursor ≤ item.start) (hle : item.start ≤ item.stop)
    (hstop : item.stop ≤ snapshot.length)
    (hafter : ∀ other ∈ items, item.stop ≤ other.start ∧ item.start < other.start) :
    placesFrom snapshot (item :: items) cursor =
      between snapshot cursor item.start ++ item.replacement ++ placesFrom snapshot items item.stop := by
  have hlater : ∀ other ∈ items, item.start < other.start := fun other h => (hafter other h).2
  have hfront : (List.range' cursor (item.start - cursor)).flatMap
      (placeBytes snapshot (item :: items)) = between snapshot cursor item.start := by
    rw [← flatMap_bytes snapshot (Nat.le_trans hle hstop)]
    apply List.flatMap_congr
    intro place hplace
    obtain ⟨i, hi, rfl⟩ := List.mem_range'.1 hplace
    apply placeBytes_before
    intro other hother
    rcases List.mem_cons.1 hother with rfl | hother
    · omega
    · have hlt := hlater other hother
      omega
  have hbehind : ∀ place, item.stop < place ∨ item.stop = place ∧ item.start < item.stop →
      placeBytes snapshot (item :: items) place = placeBytes snapshot items place := by
    intro place hplace
    have hcovers : covers item place = false := by
      unfold covers
      rw [Bool.and_eq_false_iff, decide_eq_false_iff_not, decide_eq_false_iff_not]
      omega
    rw [placeBytes_cons hlater, if_neg (by omega), hcovers, if_neg Bool.false_ne_true]
  unfold placesFrom
  rw [range'_split hcursor (show item.start ≤ snapshot.length + 1 by omega), List.flatMap_append,
    hfront, List.append_assoc]
  congr 1
  by_cases hempty : item.start = item.stop
  · -- the byte at the place of an empty range stays
    have hrange : List.range' item.start (snapshot.length + 1 - item.start) =
        item.start :: List.range' (item.start + 1) (snapshot.length - item.start) := by
      rw [← List.range'_succ]
      congr 1
      omega
    have hrest : (List.range' (item.start + 1) (snapshot.length - item.start)).flatMap
        (placeBytes snapshot (item :: items)) =
          (List.range' (item.start + 1) (snapshot.length - item.start)).flatMap
            (placeBytes snapshot items) := by
      apply List.flatMap_congr
      intro place hplace
      obtain ⟨i, hi, rfl⟩ := List.mem_range'.1 hplace
      exact hbehind _ (Or.inl (by omega))
    rw [← hempty, hrange, List.flatMap_cons, List.flatMap_cons, hrest, placeBytes_cons hlater,
      if_pos rfl, if_neg (by omega), List.append_assoc]
  · have hlt : item.start < item.stop := Nat.lt_of_le_of_ne hle hempty
    have hrange : List.range' item.start (item.stop - item.start) =
        item.start :: List.range' (item.start + 1) (item.stop - item.start - 1) := by
      rw [← List.range'_succ]
      congr 1
      omega
    have hcovered : (List.range' (item.start + 1) (item.stop - item.start - 1)).flatMap
        (placeBytes snapshot (item :: items)) = [] := by
      rw [List.flatMap_eq_nil_iff]
      intro place hplace
      obtain ⟨i, hi, rfl⟩ := List.mem_range'.1 hplace
      have hinside : covers item (item.start + 1 + 1 * i) = true := by
        unfold covers
        rw [Bool.and_eq_true, decide_eq_true_eq, decide_eq_true_eq]
        omega
      rw [placeBytes_cons hlater, if_neg (by omega), hinside, if_pos rfl, filter_start_none]
      · rfl
      · intro other hother
        have hbeyond := (hafter other hother).1
        omega
    have hrest : (List.range' item.stop (snapshot.length + 1 - item.stop)).flatMap
        (placeBytes snapshot (item :: items)) =
          (List.range' item.stop (snapshot.length + 1 - item.stop)).flatMap
            (placeBytes snapshot items) := by
      apply List.flatMap_congr
      intro place hplace
      obtain ⟨i, hi, rfl⟩ := List.mem_range'.1 hplace
      exact hbehind _ (by omega)
    rw [range'_split hle (show item.stop ≤ snapshot.length + 1 by omega), List.flatMap_append, hrest,
      hrange, List.flatMap_cons, hcovered, placeBytes_cons hlater, if_pos rfl, if_pos hlt,
      List.append_nil, List.append_nil]

/-! ## Lengths -/

/-- Sorted ranges that are checked, from a cursor on. -/
inductive InOrder (length : Nat) : Nat → List Planned → Prop
  | nil {cursor : Nat} (end_ : cursor ≤ length) : InOrder length cursor []
  | cons {cursor : Nat} {item : Planned} {items : List Planned} (before : cursor ≤ item.start)
      (le : item.start ≤ item.stop) (stop : item.stop ≤ length)
      (after : ∀ other ∈ items, item.stop ≤ other.start ∧ item.start < other.start)
      (rest : InOrder length item.stop items) : InOrder length cursor (item :: items)

theorem placesFrom_length {snapshot : Bytes} {items : List Planned} {cursor : Nat}
    (h : InOrder snapshot.length cursor items) :
    (placesFrom snapshot items cursor).length +
        (items.map fun item => item.stop - item.start).sum + cursor =
      snapshot.length + (items.map fun item => item.replacement.length).sum := by
  induction h with
  | nil hle =>
      rw [placesFrom_nil snapshot hle, List.length_drop]
      simp only [List.map_nil, List.sum_nil]
      omega
  | @cons cursor item items hbefore hle hstop hafter hrest ih =>
      have hbetween : (between snapshot cursor item.start).length = item.start - cursor := by
        unfold between
        rw [List.length_drop, List.length_take]
        omega
      rw [placesFrom_cons hbefore hle hstop hafter, List.length_append, List.length_append, hbetween,
        List.map_cons, List.map_cons, List.sum_cons, List.sum_cons]
      omega

/-- The loop fits wherever its result fits. -/
theorem applyLoop_ok {snapshot : Bytes} {items : List Planned} {cursor : Nat}
    (h : InOrder snapshot.length cursor items) {text : Bytes} (diff : Bytes)
    (hfits : (text ++ placesFrom snapshot items cursor).length ≤ MAX_WRITE_BYTES) :
    ∃ diff', applyLoop false snapshot items cursor text diff =
      .ok (text ++ placesFrom snapshot items cursor, diff') := by
  induction h generalizing text diff with
  | nil hle =>
      rw [placesFrom_nil snapshot hle]
      exact ⟨diff, rfl⟩
  | @cons cursor item items hbefore hle hstop hafter hrest ih =>
      rw [placesFrom_cons hbefore hle hstop hafter, ← List.append_assoc, ← List.append_assoc] at hfits ⊢
      have hlength : ¬ MAX_WRITE_BYTES <
          (text ++ between snapshot cursor item.start ++ item.replacement).length := by
        rw [List.length_append] at hfits
        omega
      obtain ⟨diff', hrest⟩ := ih (appendDiff diff (between snapshot item.start item.stop)
        item.replacement) hfits
      refine ⟨diff', ?_⟩
      rw [applyLoop]
      show (if MAX_WRITE_BYTES <
          (text ++ between snapshot cursor item.start ++ item.replacement).length then _
        else _) = _
      rw [if_neg hlength, hrest]

/-! ## Checks -/

/-- One range after the other. -/
def Follows (a b : Planned) : Prop := a.stop ≤ b.start ∧ a.start < b.start

instance : Trans Follows Follows Follows where
  trans {a b c} h h' := by
    unfold Follows at *
    omega

theorem checkRanges_iff {snapshot : Bytes} {items : List Planned} :
    checkRanges snapshot items = .ok () ↔
      ∀ item ∈ items, item.start ≤ item.stop ∧ item.stop ≤ snapshot.length ∧
        isCharBoundary snapshot item.start = true ∧ isCharBoundary snapshot item.stop = true := by
  refine ⟨checkRanges_ok, ?_⟩
  induction items with
  | nil => exact fun _ => rfl
  | cons item items ih =>
      intro h
      obtain ⟨⟨hle, hstop, hstarts, hends⟩, hrest⟩ := List.forall_mem_cons.1 h
      have hgood : ¬ (item.stop < item.start ∨ snapshot.length < item.stop ∨
          isCharBoundary snapshot item.start = false ∨ isCharBoundary snapshot item.stop = false) := by
        rw [hstarts, hends]
        simp only [reduceCtorEq, or_false]
        omega
      rw [checkRanges, if_neg hgood]
      exact ih hrest

theorem checkPairs_iff {items : List Planned}
    (hsorted : items.Pairwise fun a b => a.start ≤ b.start) :
    checkPairs items = .ok () ↔ items.Pairwise Follows := by
  rw [← List.isChain_iff_pairwise]
  induction items with
  | nil => exact ⟨fun _ => List.IsChain.nil, fun _ => rfl⟩
  | cons first items ih =>
      cases items with
      | nil => exact ⟨fun _ => List.IsChain.singleton first, fun _ => rfl⟩
      | cons second items =>
          obtain ⟨hfirst, hrest⟩ := List.pairwise_cons.1 hsorted
          have hle := hfirst second List.mem_cons_self
          rw [List.isChain_cons_cons, ← ih hrest, checkPairs]
          unfold Follows
          by_cases hoverlap : second.start < first.stop
          · rw [if_pos hoverlap]
            exact iff_of_false error_ne_ok fun h => by omega
          · rw [if_neg hoverlap]
            by_cases hsame : second.start = first.start
            · rw [if_pos hsame]
              exact iff_of_false error_ne_ok fun h => by omega
            · rw [if_neg hsame]
              exact ⟨fun h => ⟨⟨by omega, by omega⟩, h⟩, fun h => h.2⟩

theorem ordered_sorted (planned : List Planned) :
    (ordered planned).Pairwise fun a b => a.start ≤ b.start := by
  apply (List.pairwise_insertionSort Planned.le planned).imp
  intro a b hle
  unfold Planned.le at hle
  omega

/-- The checks of the sorted ranges say what they should of the ranges in any order. -/
theorem placed_iff {snapshot : Bytes} {planned : List Planned} :
    Placed snapshot planned ↔
      checkRanges snapshot (ordered planned) = .ok () ∧ checkPairs (ordered planned) = .ok () := by
  rw [checkRanges_iff, checkPairs_iff (ordered_sorted planned)]
  constructor
  · intro h
    have hplaced := h.perm (ordered_perm planned).symm
    refine ⟨hplaced.ranges, ?_⟩
    apply ((ordered_sorted planned).and hplaced.apart).imp_of_mem
    intro a b ha hb ⟨hle, hapart, hne⟩
    have hrange := (hplaced.ranges b hb).1
    unfold Apart at hapart
    unfold Follows
    omega
  · rintro ⟨hranges, hfollows⟩
    have hplaced : Placed snapshot (ordered planned) :=
      ⟨hranges, hfollows.imp fun h => ⟨Or.inl h.1, Nat.ne_of_lt h.2⟩⟩
    exact hplaced.perm (ordered_perm planned)

theorem inOrder_of_follows {length cursor : Nat} {items : List Planned}
    (hranges : ∀ item ∈ items, item.start ≤ item.stop ∧ item.stop ≤ length)
    (hfollows : items.Pairwise Follows) (hcursor : ∀ item ∈ items, cursor ≤ item.start)
    (hle : cursor ≤ length) : InOrder length cursor items := by
  induction items generalizing cursor with
  | nil => exact .nil hle
  | cons item items ih =>
      obtain ⟨hfirst, hrest⟩ := List.pairwise_cons.1 hfollows
      obtain ⟨hitem, hothers⟩ := List.forall_mem_cons.1 hranges
      exact .cons (hcursor item List.mem_cons_self) hitem.1 hitem.2 hfirst
        (ih hothers hrest (fun other hother => (hfirst other hother).1) hitem.2)

/-! ## What is applied -/

theorem Placed.inOrder {snapshot : Bytes} {planned : List Planned} (h : Placed snapshot planned) :
    InOrder snapshot.length 0 (ordered planned) := by
  obtain ⟨hranges, hpairs⟩ := placed_iff.1 h
  have hitems := checkRanges_iff.1 hranges
  exact inOrder_of_follows (fun item hitem => ⟨(hitems item hitem).1, (hitems item hitem).2.1⟩)
    ((checkPairs_iff (ordered_sorted planned)).1 hpairs) (fun item _ => Nat.zero_le item.start)
    (Nat.zero_le _)

theorem Placed.placesFrom {snapshot : Bytes} {planned : List Planned} (h : Placed snapshot planned) :
    placesFrom snapshot (ordered planned) 0 = replaced snapshot planned := by
  rw [replaced_perm (ordered_perm planned).symm (h.apart.imp fun hab => hab.2)]
  unfold MCode.Edit.placesFrom replaced
  rw [Nat.sub_zero, List.range_eq_range']

/-- The sums of `apply_planned` are the length of the text. -/
theorem Placed.capacity {snapshot : Bytes} {planned : List Planned} (h : Placed snapshot planned) :
    capacity snapshot (ordered planned) = (replaced snapshot planned).length := by
  have hlength := placesFrom_length h.inOrder
  rw [h.placesFrom] at hlength
  unfold MCode.Edit.capacity
  omega

theorem finalText_length (snapshot : Bytes) (planned : List Planned) :
    (replaced snapshot planned).length ≤ (finalText snapshot planned).length := by
  unfold finalText
  split
  · rw [List.length_append]
    exact Nat.le_add_left _ _
  · exact Nat.le_refl _

/-- What `apply_planned` makes of ranges that are placed, and its only other failure. -/
theorem applyPlanned_placed {snapshot : Bytes} {planned : List Planned} (h : Placed snapshot planned) :
    if (finalText snapshot planned).length ≤ MAX_WRITE_BYTES then
      ∃ diff, applyPlanned snapshot planned false = .ok ⟨finalText snapshot planned, planned.length,
        snapshot.length, (finalText snapshot planned).length, diff⟩
    else applyPlanned snapshot planned false = .error tooLong := by
  obtain ⟨hranges, hpairs⟩ := placed_iff.1 h
  have hlength := finalText_length snapshot planned
  have hcount : (ordered planned).length = planned.length := (ordered_perm planned).length_eq
  have hrun : applyPlanned snapshot planned false =
      (if MAX_WRITE_BYTES < (replaced snapshot planned).length then .error tooLong
      else do
        let out ← applyLoop false snapshot (ordered planned) 0 [] []
        let text := if hasBom snapshot && !hasBom out.1 then UTF8_BOM ++ out.1 else out.1
        if MAX_WRITE_BYTES < text.length then .error tooLong
        else .ok ⟨text, (ordered planned).length, snapshot.length, text.length, out.2⟩) := by
    rw [← h.capacity]
    show (checkRanges snapshot (ordered planned) >>= fun _ => _) = _
    rw [hranges]
    show (checkPairs (ordered planned) >>= fun _ => _) = _
    rw [hpairs]
    rfl
  rw [hrun]
  by_cases hfits : (replaced snapshot planned).length ≤ MAX_WRITE_BYTES
  · obtain ⟨diff, hloop⟩ := @applyLoop_ok snapshot (ordered planned) 0 h.inOrder [] []
      (by rw [h.placesFrom]; exact hfits)
    rw [List.nil_append, h.placesFrom] at hloop
    rw [if_neg (Nat.not_lt.2 hfits), hloop, hcount]
    have hfinal : (if hasBom snapshot && !hasBom (replaced snapshot planned) then
        UTF8_BOM ++ replaced snapshot planned else replaced snapshot planned) =
          finalText snapshot planned := rfl
    dsimp only [Bind.bind, Except.bind]
    rw [hfinal]
    split
    · rename_i hle
      exact ⟨diff, if_neg (Nat.not_lt.2 hle)⟩
    · rename_i hgt
      exact if_pos (Nat.not_le.1 hgt)
  · rw [if_pos (Nat.not_le.1 hfits), if_neg (by omega)]

/-- Nothing else is applied. -/
theorem applyPlanned_ok {snapshot : Bytes} {planned : List Planned} {cancelled : Bool}
    {applied : Applied} (h : applyPlanned snapshot planned cancelled = .ok applied) :
    cancelled = false ∧ Placed snapshot planned ∧ applied.text = finalText snapshot planned ∧
      (finalText snapshot planned).length ≤ MAX_WRITE_BYTES := by
  cases cancelled with
  | true => cases h
  | false =>
      have hplaced : Placed snapshot planned := by
        unfold applyPlanned at h
        obtain ⟨-, h⟩ := bind_unit_ok.1 h
        obtain ⟨hranges, h⟩ := bind_unit_ok.1 h
        obtain ⟨hpairs, -⟩ := bind_unit_ok.1 h
        exact placed_iff.2 ⟨hranges, hpairs⟩
      have hresult := applyPlanned_placed hplaced
      split at hresult
      · rename_i hfits
        obtain ⟨diff, hok⟩ := hresult
        rw [hok] at h
        cases h
        exact ⟨rfl, hplaced, rfl, hfits⟩
      · rw [hresult] at h
        cases h

/-- It fails for ranges that are not placed, and for a text that is too long. -/
theorem applyPlanned_iff {snapshot : Bytes} {planned : List Planned} :
    (∃ applied, applyPlanned snapshot planned false = .ok applied) ↔
      Placed snapshot planned ∧ (finalText snapshot planned).length ≤ MAX_WRITE_BYTES := by
  constructor
  · rintro ⟨applied, h⟩
    obtain ⟨-, hplaced, -, hfits⟩ := applyPlanned_ok h
    exact ⟨hplaced, hfits⟩
  · rintro ⟨hplaced, hfits⟩
    have hresult := applyPlanned_placed hplaced
    rw [if_pos hfits] at hresult
    obtain ⟨diff, hok⟩ := hresult
    exact ⟨_, hok⟩

/-- The order of the plan does not matter. -/
theorem applyPlanned_perm {snapshot : Bytes} {planned planned' : List Planned}
    (hperm : planned.Perm planned') {cancelled : Bool} {applied : Applied}
    (h : applyPlanned snapshot planned cancelled = .ok applied) :
    applyPlanned snapshot planned' cancelled = .ok applied := by
  obtain ⟨rfl, hplaced, -, -⟩ := applyPlanned_ok h
  have hfollows : ∀ {planned : List Planned}, Placed snapshot planned →
      (ordered planned).Pairwise fun a b => a.start < b.start := fun hplaced =>
    ((checkPairs_iff (ordered_sorted _)).1 (placed_iff.1 hplaced).2).imp fun hab => hab.2
  have hsame : ordered planned = ordered planned' := by
    apply Spans.eq_of_mem_iff (hfollows hplaced) (hfollows (hplaced.perm hperm))
    intro item
    exact (((ordered_perm planned).trans hperm).trans (ordered_perm planned').symm).mem_iff
  unfold applyPlanned at h ⊢
  rw [← hsame]
  exact h

/-! ## What stays -/

/-- The bytes outside of the ranges. -/
def kept (snapshot : Bytes) (planned : List Planned) : Bytes :=
  (List.range snapshot.length).flatMap fun place =>
    if planned.any fun item => covers item place then [] else snapshot[place]?.toList

/-- They are all there, in order. -/
theorem kept_sublist (snapshot : Bytes) (planned : List Planned) :
    (kept snapshot planned).Sublist (replaced snapshot planned) := by
  unfold kept replaced
  rw [List.range_succ, List.flatMap_append]
  apply List.Sublist.trans _ (List.sublist_append_left _ _)
  apply List.Sublist.flatMap_right
  intro place _
  exact List.sublist_append_right _ _

/-- A mark that no range touches stays in front. -/
theorem replaced_bom {snapshot : Bytes} {planned : List Planned} (hbom : hasBom snapshot = true)
    (h : ∀ item ∈ planned, UTF8_BOM.length ≤ item.start) :
    hasBom (replaced snapshot planned) = true := by
  obtain ⟨rest, rfl⟩ := hasBom_iff.1 hbom
  have hlength : UTF8_BOM.length ≤ (UTF8_BOM ++ rest).length + 1 := by
    rw [List.length_append]
    omega
  have hfront : (List.range' 0 (UTF8_BOM.length - 0)).flatMap (placeBytes (UTF8_BOM ++ rest) planned) =
      UTF8_BOM := by
    have hbytes : between (UTF8_BOM ++ rest) 0 UTF8_BOM.length = UTF8_BOM := by
      unfold between
      rw [List.take_left, List.drop_zero]
    have hle : UTF8_BOM.length ≤ (UTF8_BOM ++ rest).length := by
      rw [List.length_append]
      exact Nat.le_add_right _ _
    refine Eq.trans ?_ hbytes
    rw [← flatMap_bytes _ hle]
    apply List.flatMap_congr
    intro place hplace
    obtain ⟨i, hi, rfl⟩ := List.mem_range'.1 hplace
    apply placeBytes_before
    intro item hitem
    have hstart := h item hitem
    omega
  apply hasBom_iff.2
  unfold replaced
  rw [List.range_eq_range', ← Nat.sub_zero ((UTF8_BOM ++ rest).length + 1),
    range'_split (Nat.zero_le _) hlength, List.flatMap_append, hfront]
  exact List.prefix_append _ _

/-! ## Refusals -/

/-- Two ranges overlap or share a start, a range is out of bounds or off a boundary
of characters, or the result would be too long. -/
def Refused (snapshot : Bytes) (planned : List Planned) : Prop :=
  (¬ planned.Pairwise fun a b => Apart Planned.start Planned.stop a b ∧ a.start ≠ b.start) ∨
    (∃ item ∈ planned, ¬ (item.start ≤ item.stop ∧ item.stop ≤ snapshot.length ∧
      isCharBoundary snapshot item.start = true ∧ isCharBoundary snapshot item.stop = true)) ∨
    MAX_WRITE_BYTES < (finalText snapshot planned).length

theorem not_refused_iff {snapshot : Bytes} {planned : List Planned} :
    ¬ Refused snapshot planned ↔
      Placed snapshot planned ∧ (finalText snapshot planned).length ≤ MAX_WRITE_BYTES := by
  unfold Refused
  constructor
  · intro h
    refine ⟨⟨?_, ?_⟩, ?_⟩
    · intro item hitem
      by_contra hbad
      exact h (Or.inr (Or.inl ⟨item, hitem, hbad⟩))
    · by_contra hbad
      exact h (Or.inl hbad)
    · by_contra hbad
      exact h (Or.inr (Or.inr (Nat.not_le.1 hbad)))
  · rintro ⟨hplaced, hfits⟩ (hapart | ⟨item, hitem, hbad⟩ | hlong)
    · exact hapart hplaced.apart
    · exact hbad (hplaced.ranges item hitem)
    · exact absurd hfits (Nat.not_le.2 hlong)

theorem refused_iff {snapshot : Bytes} {planned : List Planned} :
    (∃ error, applyPlanned snapshot planned false = .error error) ↔ Refused snapshot planned := by
  have hok := applyPlanned_iff.trans (@not_refused_iff snapshot planned).symm
  constructor
  · rintro ⟨error, herror⟩
    by_contra hgood
    obtain ⟨applied, happlied⟩ := hok.2 hgood
    rw [herror] at happlied
    cases happlied
  · intro hrefused
    cases hrun : applyPlanned snapshot planned false with
    | error error => exact ⟨error, rfl⟩
    | ok applied => exact absurd hrefused (hok.1 ⟨applied, hrun⟩)

end MCode.Edit
