import Mathlib

/-!
# Cells that grow

A cell has a size and growths that were granted and did not happen yet.  Each of
them was asked for at the size that the cell had then, and any of them may happen
or be given up at any time, in any order.

The claim of a cell is what its granted growths may still make of it: the largest
size that one of them counts from, and all that they add.  Nothing that happens
to a granted growth makes the claim larger, so what was granted bounds the sizes.
-/

namespace MCode.Lib.Growth

/-- A granted growth: the size it was asked at and the size it leads to. -/
structure Grant where
  current : Nat
  desired : Nat

structure Cell where
  size : Nat
  granted : List Grant

def Cell.empty : Cell := ⟨0, []⟩

def Cell.grant (cell : Cell) (desired : Nat) : Cell :=
  { cell with granted := ⟨cell.size, desired⟩ :: cell.granted }

/-- The growth happens. -/
def Cell.settle (cell : Cell) (i : Nat) (grant : Grant) : Cell :=
  ⟨grant.desired, cell.granted.eraseIdx i⟩

/-- The growth is given up. -/
def Cell.abandon (cell : Cell) (i : Nat) : Cell :=
  { cell with granted := cell.granted.eraseIdx i }

def Grant.more (grant : Grant) : Nat := grant.desired - grant.current

/-- The largest size that is counted from. -/
def base (size : Nat) (granted : List Grant) : Nat :=
  (granted.map Grant.current).foldr max size

def added (granted : List Grant) : Nat := (granted.map Grant.more).sum

def Cell.claim (cell : Cell) : Nat := base cell.size cell.granted + added cell.granted

/-! ## One cell -/

theorem size_le_base (size : Nat) (granted : List Grant) : size ≤ base size granted := by
  induction granted with
  | nil => exact Nat.le_refl size
  | cons grant granted ih => exact Nat.le_trans ih (Nat.le_max_right _ _)

theorem current_le_base {size : Nat} {granted : List Grant} {grant : Grant}
    (h : grant ∈ granted) : grant.current ≤ base size granted := by
  induction granted with
  | nil => exact nomatch h
  | cons first granted ih =>
      cases List.mem_cons.1 h with
      | inl hfirst => exact hfirst ▸ Nat.le_max_left _ _
      | inr hlater => exact Nat.le_trans (ih hlater) (Nat.le_max_right _ _)

/-- The base is the least bound. -/
theorem base_le {size bound : Nat} {granted : List Grant} (hsize : size ≤ bound)
    (h : ∀ grant ∈ granted, grant.current ≤ bound) : base size granted ≤ bound := by
  induction granted with
  | nil => exact hsize
  | cons grant granted ih =>
      exact Nat.max_le.2 ⟨h grant (List.mem_cons_self ..),
        ih fun later hlater => h later (List.mem_cons_of_mem _ hlater)⟩

theorem base_eraseIdx_le (size : Nat) (granted : List Grant) (i : Nat) :
    base size (granted.eraseIdx i) ≤ base size granted :=
  base_le (size_le_base size granted) fun _ h => current_le_base (List.mem_of_mem_eraseIdx h)

theorem added_eraseIdx {granted : List Grant} {i : Nat} {grant : Grant}
    (h : granted[i]? = some grant) : grant.more + added (granted.eraseIdx i) = added granted := by
  obtain ⟨hlt, rfl⟩ := List.getElem?_eq_some_iff.1 h
  have hsum := List.CommMonoid.add_sum_eraseIdx (l := granted.map Grant.more) (by simpa using hlt)
  rw [List.getElem_map, List.eraseIdx_map] at hsum
  exact hsum

theorem size_le_claim (cell : Cell) : cell.size ≤ cell.claim :=
  Nat.le_trans (size_le_base cell.size cell.granted) (Nat.le_add_right _ _)

/-- A grant claims what it adds to the size. -/
theorem claim_grant (cell : Cell) (desired : Nat) :
    (cell.grant desired).claim = cell.claim + (desired - cell.size) := by
  have hbase : base cell.size (⟨cell.size, desired⟩ :: cell.granted) =
      base cell.size cell.granted :=
    Nat.max_eq_right (size_le_base cell.size cell.granted)
  show base cell.size (⟨cell.size, desired⟩ :: cell.granted) +
    ((desired - cell.size) + added cell.granted) = base cell.size cell.granted +
      added cell.granted + (desired - cell.size)
  rw [hbase]
  omega

theorem claim_settle_le {cell : Cell} {i : Nat} {grant : Grant}
    (h : cell.granted[i]? = some grant) : (cell.settle i grant).claim ≤ cell.claim := by
  have hsum := added_eraseIdx h
  have hcurrent : grant.current ≤ base cell.size cell.granted :=
    current_le_base (List.mem_of_getElem? h)
  have hmore : grant.more = grant.desired - grant.current := rfl
  have hbase : base grant.desired (cell.granted.eraseIdx i) ≤
      base cell.size cell.granted + grant.more := by
    refine base_le (by omega) fun other hother => ?_
    have hle : other.current ≤ base cell.size cell.granted :=
      current_le_base (List.mem_of_mem_eraseIdx hother)
    omega
  show base grant.desired (cell.granted.eraseIdx i) + added (cell.granted.eraseIdx i) ≤
    base cell.size cell.granted + added cell.granted
  omega

theorem claim_abandon_le {cell : Cell} {i : Nat} {grant : Grant}
    (h : cell.granted[i]? = some grant) : (cell.abandon i).claim ≤ cell.claim := by
  have hsum := added_eraseIdx h
  have hbase := base_eraseIdx_le cell.size cell.granted i
  show base cell.size (cell.granted.eraseIdx i) + added (cell.granted.eraseIdx i) ≤
    base cell.size cell.granted + added cell.granted
  omega

/-! ## All cells -/

def total (cells : List Cell) : Nat := (cells.map Cell.size).sum

def claims (cells : List Cell) : Nat := (cells.map Cell.claim).sum

theorem total_le_claims (cells : List Cell) : total cells ≤ claims cells := by
  induction cells with
  | nil => exact Nat.le_refl 0
  | cons cell cells ih => exact Nat.add_le_add (size_le_claim cell) ih

theorem claims_empty (cells : List Cell) : claims (cells ++ [Cell.empty]) = claims cells := by
  unfold claims
  rw [List.map_append, List.sum_append]
  rfl

/-- One cell is replaced. -/
theorem claims_set {cells : List Cell} {i : Nat} {cell : Cell} (h : cells[i]? = some cell)
    (next : Cell) : claims (cells.set i next) + cell.claim = claims cells + next.claim := by
  induction cells generalizing i with
  | nil => exact nomatch h
  | cons other cells ih =>
      cases i with
      | zero =>
          cases h
          show next.claim + claims cells + cell.claim = cell.claim + claims cells + next.claim
          omega
      | succ i =>
          have hrest := ih h
          show other.claim + claims (cells.set i next) + cell.claim =
            other.claim + claims cells + next.claim
          omega

end MCode.Lib.Growth
