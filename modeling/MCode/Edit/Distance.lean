import MCode.Edit.Fuzzy
import MCode.Lib.EditDistance

/-!
# The banded distance

`bounded_levenshtein` of `mcode-tools/src/builtin/edit/fuzzy.rs` keeps two rows of
the table of distances and fills the cells near the diagonal.  A row is right in
the band and one cell beside it; what an older row left elsewhere is never read.

Cells outside of the band hold one more than the cap, as far as a `u32` can: at
`u32::MAX` they hold the cap itself, and a distance beyond it is reported as the cap.
-/

namespace MCode.Edit.Fuzzy

open MCode.Lib
open MCode.Lib.EditDistance (levenshtein)
open MCode.Edit.Literal (Text)

variable {α : Type} [DecidableEq α] {short : List α} {max outside : Nat}

/-- A cell of the table: the distance of the beginnings, capped. -/
def cell (short : List α) (outside : Nat) (front : List α) (j : Nat) : Nat :=
  min (levenshtein (short.take j) front) outside

/-- The row of a beginning of the longer list, near the diagonal. -/
structure Row (short : List α) (max outside : Nat) (front : List α) (row : List Nat) : Prop where
  length : row.length = short.length + 1
  near : ∀ j, j ≤ short.length → front.length ≤ j + max + 1 → j ≤ front.length + max + 1 →
    row.getD j outside = cell short outside front j

theorem getD_set {row : List Nat} {i : Nat} (hi : i < row.length) (value j default : Nat) :
    (row.set i value).getD j default = if j = i then value else row.getD j default := by
  rw [List.getD_eq_getElem?_getD, List.getD_eq_getElem?_getD, List.getElem?_set]
  split
  · rename_i heq
    subst heq
    rw [if_pos rfl]
    rfl
  · rename_i hne
    rw [if_neg (Ne.symm hne)]

/-- Far from the diagonal a distance exceeds the cap. -/
theorem cell_far (hout : outside ≤ max + 1) (front : List α) {j : Nat} (hj : j ≤ short.length)
    (hfar : j + max + 1 ≤ front.length ∨ front.length + max + 1 ≤ j) :
    cell short outside front j = outside := by
  have hlength : (short.take j).length = j := List.length_take_of_le hj
  have hle := EditDistance.length_le_levenshtein (short.take j) front
  have hle' := EditDistance.length_le_levenshtein front (short.take j)
  rw [EditDistance.levenshtein_comm] at hle'
  unfold cell
  omega

theorem min_three (a b c cap : Nat) :
    min (min (min a b) c) cap = min (min (min a cap) (min b cap)) (min c cap) := by
  omega

/-- A saturating sum of a capped value, capped. -/
theorem min_capped (hcap : outside ≤ U32_MAX) (value more : Nat) :
    min (min U32_MAX (min value outside + more)) outside = min (value + more) outside := by
  omega

/-- One cell from its three neighbours. -/
theorem cell_step (hcap : outside ≤ U32_MAX) (front : List α) (item : α) {j : Nat}
    (hj : j < short.length) :
    min (min (min (min U32_MAX (cell short outside (front ++ [item]) j + 1))
        (min U32_MAX (cell short outside front (j + 1) + 1)))
      (min U32_MAX (cell short outside front j + if short[j]? = some item then 0 else 1))) outside =
      cell short outside (front ++ [item]) (j + 1) := by
  have hcost : (if short[j] = item then 0 else 1) = if short[j]? = some item then 0 else 1 := by
    rw [List.getElem?_eq_getElem hj]
    simp only [Option.some.injEq]
  have hlev := EditDistance.levenshtein_concat (short.take j) short[j] front item
  rw [← List.take_succ_eq_append_getElem hj, hcost] at hlev
  unfold cell
  rw [min_three, min_capped hcap, min_capped hcap, min_capped hcap, ← min_three, hlev]

/-- The loop writes one cell after the other. -/
theorem rowLoop_spec {item : α} {prev : List Nat} {value : Nat → Nat} {first : Nat} :
    ∀ (count j : Nat) (curr : List Nat), j + count ≤ curr.length → first < j →
      (∀ i, first ≤ i → i < j → curr.getD i outside = value i) →
      (∀ i, j ≤ i → i < j + count →
        min (min (min (min U32_MAX (value (i - 1) + 1)) (min U32_MAX (prev.getD i outside + 1)))
          (min U32_MAX (prev.getD (i - 1) outside + if short[i - 1]? = some item then 0 else 1)))
          outside = value i) →
      (rowLoop short item prev outside count j curr).length = curr.length ∧
        (∀ i, first ≤ i → i < j + count →
          (rowLoop short item prev outside count j curr).getD i outside = value i) := by
  intro count
  induction count with
  | zero =>
      intro j curr _ _ hcurr _
      exact ⟨rfl, fun i hfirst hi => hcurr i hfirst hi⟩
  | succ count ih =>
      intro j curr hlength hfirst hcurr hstep
      have hbefore : curr.getD (j - 1) outside = value (j - 1) := hcurr _ (by omega) (by omega)
      have hvalue := hstep j (Nat.le_refl j) (by omega)
      rw [rowLoop, hbefore, hvalue]
      have hrest := ih (j + 1) (curr.set j (value j)) (by rw [List.length_set]; omega) (by omega)
        (fun i hi hlt => by
          rw [getD_set (by omega)]
          split
          · rename_i heq
            rw [heq]
          · exact hcurr i hi (by omega))
        (fun i hi hlt => hstep i (by omega) (by omega))
      rw [List.length_set] at hrest
      exact ⟨hrest.1, fun i hi hlt => hrest.2 i hi (by omega)⟩

theorem length_ite_set {row : List Nat} {p : Prop} [Decidable p] (i value : Nat) :
    (if p then row.set i value else row).length = row.length := by
  split
  · exact List.length_set
  · rfl

/-- The next row, whatever an older one left in its place. -/
theorem Row.next (hlow : max ≤ outside) (hout : outside ≤ max + 1) (hcap : outside ≤ U32_MAX)
    {prev curr : List Nat} (h : Row short max outside front prev)
    (hcurr : curr.length = short.length + 1) (item : α) (hlong : front.length < short.length + max)
    {row first last : Nat} (hrow : row = front.length + 1) (hfirst : first = Nat.max (row - max) 1)
    (hlast : last = min (row + max) short.length) :
    let curr := curr.set 0 (if row ≤ max then row else outside)
    let curr := if 1 < first then curr.set (first - 1) outside else curr
    let curr := rowLoop short item prev outside (last + 1 - first) first curr
    Row short max outside (front ++ [item])
      (if last < short.length then curr.set (last + 1) outside else curr) := by
  intro curr₀ curr₁ curr₂
  have hlength : (front ++ [item]).length = row := by
    rw [List.length_append, List.length_singleton, hrow]
  have hfirst : first = 1 ∧ row - max ≤ 1 ∨ first = row - max ∧ 1 < row - max := by
    have hmax : first = if row - max ≤ 1 then 1 else row - max := hfirst
    split at hmax
    · exact Or.inl ⟨hmax, by omega⟩
    · exact Or.inr ⟨hmax, by omega⟩
  have hzero : cell short outside (front ++ [item]) 0 = if row ≤ max then row else outside := by
    unfold cell
    rw [List.take_zero, EditDistance.levenshtein_nil, hlength]
    split <;> omega
  have hlength₀ : curr₀.length = short.length + 1 := List.length_set.trans hcurr
  have hlength₁ : curr₁.length = short.length + 1 := (length_ite_set _ _).trans hlength₀
  have hbefore : curr₁.getD (first - 1) outside = cell short outside (front ++ [item]) (first - 1) := by
    show (if 1 < first then curr₀.set (first - 1) outside else curr₀).getD _ _ = _
    by_cases hone : 1 < first
    · rw [if_pos hone, getD_set (by omega), if_pos rfl]
      exact (cell_far hout (front ++ [item]) (by omega) (Or.inl (by omega))).symm
    · have hsame : first - 1 = 0 := by omega
      rw [if_neg hone, hsame, getD_set (by omega), if_pos rfl, hzero]
  obtain ⟨hlength₂, hnear⟩ := @rowLoop_spec α _ short outside item prev
    (cell short outside (front ++ [item])) (first - 1) (last + 1 - first) first curr₁ (by omega)
    (by omega)
    (fun i hi hlt => by
      have hsame : i = first - 1 := by omega
      rw [hsame, hbefore])
    (fun i hi hlt => by
      obtain ⟨j, rfl⟩ : ∃ j, i = j + 1 := ⟨i - 1, by omega⟩
      rw [Nat.add_sub_cancel, h.near (j + 1) (by omega) (by omega) (by omega),
        h.near j (by omega) (by omega) (by omega)]
      exact cell_step hcap front item (by omega))
  have hcells : ∀ j, j ≤ last → row ≤ j + max + 1 →
      curr₂.getD j outside = cell short outside (front ++ [item]) j := fun j hj hlow =>
    hnear j (by omega) (by omega)
  constructor
  · rw [length_ite_set, hlength₂, hlength₁]
  · intro j hj hlow hhigh
    rw [hlength] at hlow hhigh
    split
    · have hlength₂ : curr₂.length = short.length + 1 := hlength₂.trans hlength₁
      rw [getD_set (by omega)]
      split
      · exact (cell_far hout (front ++ [item]) hj (Or.inr (by omega))).symm
      · exact hcells j (by omega) hlow
    · exact hcells j (by omega) hlow

/-- One round of the loop over the longer list, in the row that `curr` held. -/
def nextRow (short : List α) (max outside : Nat) (item : α) (row : Nat) (prev curr : List Nat) :
    List Nat :=
  let first := Nat.max (row - max) 1
  let last := min (row + max) short.length
  let curr := curr.set 0 (if row ≤ max then row else outside)
  let curr := if 1 < first then curr.set (first - 1) outside else curr
  let curr := rowLoop short item prev outside (last + 1 - first) first curr
  if last < short.length then curr.set (last + 1) outside else curr

theorem rowsLoop_cons (item : α) (long : List α) (row : Nat) (prev curr : List Nat) :
    rowsLoop short max outside (item :: long) row prev curr =
      rowsLoop short max outside long (row + 1) (nextRow short max outside item row prev curr)
        prev := rfl

/-- The loop where each round finds other cells in the row that it writes. -/
def staleLoop (short : List α) (max outside : Nat) (stale : Nat → List Nat) :
    List α → Nat → List Nat → List Nat
  | [], _, prev => prev
  | item :: long, row, prev =>
      staleLoop short max outside stale long (row + 1)
        (nextRow short max outside item row prev (stale row))

/-- The loop over the longer list. -/
theorem rowsLoop_row (hlow : max ≤ outside) (hout : outside ≤ max + 1) (hcap : outside ≤ U32_MAX)
    {long : List α} : ∀ {front : List α} {prev curr : List Nat}, Row short max outside front prev →
      curr.length = short.length + 1 → front.length + long.length ≤ short.length + max →
      Row short max outside (front ++ long)
        (rowsLoop short max outside long (front.length + 1) prev curr) := by
  induction long with
  | nil =>
      intro front prev curr hprev _ _
      rw [List.append_nil]
      exact hprev
  | cons item long ih =>
      intro front prev curr hprev hcurr hlong
      rw [List.length_cons] at hlong
      have hnext := hprev.next hlow hout hcap hcurr item (by omega) rfl rfl rfl
      have hrest := ih hnext hprev.length (by rw [List.length_append, List.length_singleton]; omega)
      rw [List.append_assoc, List.length_append] at hrest
      rw [rowsLoop_cons]
      exact hrest

/-- The same where each round finds other cells. -/
theorem staleLoop_row (hlow : max ≤ outside) (hout : outside ≤ max + 1) (hcap : outside ≤ U32_MAX)
    {stale : Nat → List Nat} (hstale : ∀ row, (stale row).length = short.length + 1)
    {long : List α} : ∀ {front : List α} {prev : List Nat}, Row short max outside front prev →
      front.length + long.length ≤ short.length + max →
      Row short max outside (front ++ long)
        (staleLoop short max outside stale long (front.length + 1) prev) := by
  induction long with
  | nil =>
      intro front prev hprev _
      rw [List.append_nil]
      exact hprev
  | cons item long ih =>
      intro front prev hprev hlong
      rw [List.length_cons] at hlong
      have hnext := hprev.next hlow hout hcap (hstale (front.length + 1)) item (by omega) rfl rfl rfl
      have hrest := ih hnext (by rw [List.length_append, List.length_singleton]; omega)
      rw [List.append_assoc, List.length_append] at hrest
      rw [staleLoop]
      exact hrest

/-- The row above the table. -/
def topRow (short : List α) (max outside : Nat) : List Nat :=
  (List.range (short.length + 1)).map fun index =>
    if index ≤ min max short.length then index else outside

theorem topRow_row (hlow : max ≤ outside) (hout : outside ≤ max + 1) :
    Row short max outside [] (topRow short max outside) := by
  unfold topRow
  constructor
  · rw [List.length_map, List.length_range]
  · intro j hj _ _
    have hlt : j < ((List.range (short.length + 1)).map fun index =>
        if index ≤ min max short.length then index else outside).length := by
      rw [List.length_map, List.length_range]
      omega
    rw [List.getD_eq_getElem?_getD, List.getElem?_eq_getElem hlt, Option.getD_some,
      List.getElem_map, List.getElem_range]
    unfold cell
    rw [EditDistance.levenshtein_nil_right, List.length_take_of_le hj]
    split <;> omega

/-- The last cell of the last row. -/
theorem Row.corner {front : List α} {cells : List Nat}
    (h : Row short max outside front cells) (hle : short.length ≤ front.length)
    (hband : front.length ≤ short.length + max) :
    cells.getD short.length outside = min (levenshtein short front) outside := by
  have hcorner := h.near short.length (Nat.le_refl _) (by omega) (by omega)
  unfold cell at hcorner
  rw [List.take_length] at hcorner
  exact hcorner

/-- What the cells outside of the band hold. -/
def outsideOf (max : Nat) : Nat := min U32_MAX (max + 1)

section Corner

variable (hmax : max ≤ U32_MAX)

include hmax

theorem outsideOf_bounds :
    max ≤ outsideOf max ∧ outsideOf max ≤ max + 1 ∧ outsideOf max ≤ U32_MAX := by
  unfold outsideOf
  omega

theorem rowsLoop_corner {short long : List α} (hle : short.length ≤ long.length)
    (hband : long.length ≤ short.length + max) :
    (rowsLoop short max (outsideOf max) long 1 (topRow short max (outsideOf max))
      (List.replicate (short.length + 1) (outsideOf max))).getD short.length (outsideOf max) =
      min (levenshtein short long) (outsideOf max) := by
  obtain ⟨hlow, hout, hcap⟩ := outsideOf_bounds hmax
  have hblank : (List.replicate (short.length + 1) (outsideOf max)).length = short.length + 1 :=
    List.length_replicate
  have hlength : ([] : List α).length + long.length ≤ short.length + max := by
    rw [List.length_nil, Nat.zero_add]
    exact hband
  have hrow := rowsLoop_row hlow hout hcap (topRow_row hlow hout) hblank hlength
  exact hrow.corner hle hband

theorem staleLoop_corner {short long : List α} (hle : short.length ≤ long.length)
    (hband : long.length ≤ short.length + max) {stale : Nat → List Nat}
    (hstale : ∀ row, (stale row).length = short.length + 1) :
    (staleLoop short max (outsideOf max) stale long 1 (topRow short max (outsideOf max))).getD
      short.length (outsideOf max) = min (levenshtein short long) (outsideOf max) := by
  obtain ⟨hlow, hout, hcap⟩ := outsideOf_bounds hmax
  have hlength : ([] : List α).length + long.length ≤ short.length + max := by
    rw [List.length_nil, Nat.zero_add]
    exact hband
  have hrow := staleLoop_row hlow hout hcap hstale (topRow_row hlow hout) hlength
  exact hrow.corner hle hband

end Corner

/-- The end of `bounded_levenshtein`, behind the loop. -/
def verdict (max distance : Nat) : Option Nat :=
  if distance ≤ max then some distance else none

/-- What is returned: the distance, cut off at what is outside of the band. -/
def capped (a b : List α) (max : Nat) : Option Nat :=
  if max < Nat.max a.length b.length - min a.length b.length then none
  else verdict max (min (levenshtein a b) (outsideOf max))

theorem capped_comm (a b : List α) (max : Nat) : capped a b max = capped b a max := by
  have hmax : Nat.max a.length b.length = Nat.max b.length a.length := Nat.max_comm _ _
  unfold capped
  rw [hmax, Nat.min_comm a.length, EditDistance.levenshtein_comm]

theorem boundedLevenshtein_eq (a b : List α) (hmax : max ≤ U32_MAX) :
    boundedLevenshtein a b max = capped a b max := by
  -- the shorter list first
  have hsorted : ∀ short long : List α, short.length ≤ long.length →
      (if max < long.length - short.length then none
      else verdict max ((rowsLoop short max (outsideOf max) long 1
        (topRow short max (outsideOf max)) (List.replicate (short.length + 1) (outsideOf max))).getD
          short.length (outsideOf max))) = capped short long max := by
    intro short long hle
    have hlong : Nat.max short.length long.length = long.length := Nat.max_eq_right hle
    unfold capped
    rw [hlong, Nat.min_eq_left hle]
    by_cases hfar : max < long.length - short.length
    · rw [if_pos hfar, if_pos hfar]
    · rw [if_neg hfar, if_neg hfar, rowsLoop_corner hmax hle (by omega)]
  unfold boundedLevenshtein
  split
  rename_i short long hpair
  split at hpair
  · rename_i hle
    cases hpair
    exact hsorted a b hle
  · rename_i hgt
    cases hpair
    rw [capped_comm]
    exact hsorted b a (by omega)

/-! ## Strings -/

theorem encode_ascii {text : Text} (h : isAscii text = true) :
    Utf8.encode text = text.map fun c => UInt8.ofNat c.toNat := by
  induction text with
  | nil => rfl
  | cons c text ih =>
      unfold isAscii at h ih
      rw [List.all_cons, Bool.and_eq_true, decide_eq_true_eq] at h
      rw [Utf8.encode_cons, Utf8.encodeChar_ascii h.1, ih h.2]
      rfl

theorem byte_inj {c d : Char} (hc : c.toNat < 128) (hd : d.toNat < 128)
    (h : UInt8.ofNat c.toNat = UInt8.ofNat d.toNat) : c = d := by
  have hnat := congrArg UInt8.toNat h
  rw [Utf8.toNat_byte (by omega), Utf8.toNat_byte (by omega)] at hnat
  exact Char.toNat_inj.1 hnat

theorem levenshtein_encode {a b : Text} (ha : isAscii a = true) (hb : isAscii b = true) :
    levenshtein (Utf8.encode a) (Utf8.encode b) = levenshtein a b := by
  rw [encode_ascii ha, encode_ascii hb]
  apply EditDistance.levenshtein_map
  intro c hc d hd h
  have hc := List.all_eq_true.1 ha c hc
  have hd := List.all_eq_true.1 hb d hd
  exact byte_inj (of_decide_eq_true hc) (of_decide_eq_true hd) h

/-- The shortcuts agree with the distance. -/
theorem boundedLevenshteinStr_eq {a : Text} (ha : a.length ≤ MAX_FUZZY_NORM_CHARS) (b : Text)
    (hmax : max ≤ U32_MAX) : boundedLevenshteinStr a b max = capped a b max := by
  have hout : outsideOf max = min U32_MAX (max + 1) := rfl
  unfold boundedLevenshteinStr
  by_cases heq : a = b
  · subst heq
    have hself : Nat.max a.length a.length = a.length := Nat.max_self _
    unfold capped verdict
    rw [if_pos rfl, hself, EditDistance.levenshtein_self, if_neg (by omega), if_pos (by omega)]
    rfl
  · rw [if_neg heq]
    dsimp only
    rw [List.length_take]
    split
    · rename_i hskip
      have hfar : max < Nat.max a.length b.length - min a.length b.length := by
        have hdiff : max < a.length - min (a.length + max + 1) b.length ∨
            max < min (a.length + max + 1) b.length - a.length := by
          cases hskip with
          | inl hlong => exact absurd hlong (by omega)
          | inr hskip => exact lt_max_iff.1 hskip
        have hle : a.length ≤ Nat.max a.length b.length := Nat.le_max_left _ _
        have hle' : b.length ≤ Nat.max a.length b.length := Nat.le_max_right _ _
        omega
      unfold capped
      rw [if_pos hfar]
    · split
      · rename_i hascii
        have hlength : ∀ {text : Text}, isAscii text = true →
            (Utf8.encode text).length = text.length := fun h => by
          rw [encode_ascii h, List.length_map]
        rw [boundedLevenshtein_eq _ _ hmax]
        unfold capped
        rw [levenshtein_encode hascii.1 hascii.2, hlength hascii.1, hlength hascii.2]
      · exact boundedLevenshtein_eq a b hmax

/-! ## Exactness -/

/-- The distance, if it is within the cap. -/
def exactWithin (a b : List α) (max : Nat) : Option Nat :=
  if levenshtein a b ≤ max then some (levenshtein a b) else none

/-- The cap leaves a number for what is beyond it, or the lengths are too far apart, or
the distance is a `u32`. -/
def Representable (a b : List α) (max : Nat) : Prop :=
  max < U32_MAX ∨ max < Nat.max a.length b.length - min a.length b.length ∨
    levenshtein a b ≤ U32_MAX

theorem capped_exact_iff (a b : List α) (hmax : max ≤ U32_MAX) :
    capped a b max = exactWithin a b max ↔ Representable a b max := by
  have hout : outsideOf max = min U32_MAX (max + 1) := rfl
  have hle := EditDistance.length_le_levenshtein a b
  have hle' := EditDistance.length_le_levenshtein b a
  rw [EditDistance.levenshtein_comm] at hle'
  have hlong : Nat.max a.length b.length = a.length ∨ Nat.max a.length b.length = b.length :=
    max_choice _ _
  unfold capped exactWithin verdict Representable
  by_cases hfar : max < Nat.max a.length b.length - min a.length b.length
  · rw [if_pos hfar, if_neg (by omega)]
    exact iff_of_true rfl (Or.inr (Or.inl hfar))
  · rw [if_neg hfar]
    by_cases hwithin : levenshtein a b ≤ max
    · have hsame : min (levenshtein a b) (outsideOf max) = levenshtein a b := by omega
      rw [hsame, if_pos hwithin]
      exact iff_of_true rfl (Or.inr (Or.inr (hwithin.trans hmax)))
    · rw [if_neg hwithin]
      by_cases hroom : max < U32_MAX
      · rw [if_neg (by omega)]
        exact iff_of_true rfl (Or.inl hroom)
      · rw [if_pos (by omega)]
        exact iff_of_false (fun h => nomatch h) (by omega)

end MCode.Edit.Fuzzy
