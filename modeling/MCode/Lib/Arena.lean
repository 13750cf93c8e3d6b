import Mathlib

/-!
# Arenas of trees

An arena is a list of labelled nodes that refer to each other by position.
Where every reference goes to an earlier position, every position denotes a
tree; where each position but the last is referred to exactly once as well, the
tree of the last position has every node of the arena, and each of them once.
`Rose.flatten` writes a tree as such an arena, children first.
-/

namespace MCode.Lib

variable {α β : Type}

inductive Rose (α : Type) where
  | node (label : α) (children : List (Rose α))

namespace Rose

theorem induction {motive : Rose α → Prop}
    (node : ∀ label children, (∀ child ∈ children, motive child) →
      motive (.node label children)) : ∀ tree, motive tree
  | .node label children => node label children fun child _ => induction node child

mutual

/-- A value for each node, from those of its children. -/
def fold (f : α → List β → β) : Rose α → β
  | .node label children => f label (folds f children)

def folds (f : α → List β → β) : List (Rose α) → List β
  | [] => []
  | tree :: trees => fold f tree :: folds f trees

end

theorem folds_eq (f : α → List β → β) (trees : List (Rose α)) :
    folds f trees = trees.map (fold f) := by
  induction trees with
  | nil => rfl
  | cons tree trees ih =>
      rw [folds, ih]
      rfl

theorem fold_node (f : α → List β → β) (label : α) (children : List (Rose α)) :
    fold f (.node label children) = f label (children.map (fold f)) := by
  rw [fold, folds_eq]

/-- The nodes on the longest way down. -/
def height : Rose α → Nat := fold fun _ heights => heights.foldl max 0 + 1

/-- The sum of a weight of each node, by its label and the number of its
children. -/
def sum (weight : α → Nat → Nat) : Rose α → Nat :=
  fold fun label sums => weight label sums.length + sums.sum

def size : Rose α → Nat := sum fun _ _ => 1

theorem height_node (label : α) (children : List (Rose α)) :
    height (.node label children) = (children.map height).foldl max 0 + 1 :=
  fold_node _ label children

theorem sum_node (weight : α → Nat → Nat) (label : α) (children : List (Rose α)) :
    sum weight (.node label children) =
      weight label children.length + (children.map (sum weight)).sum := by
  unfold sum
  rw [fold_node, List.length_map]

theorem size_node (label : α) (children : List (Rose α)) :
    size (.node label children) = 1 + (children.map size).sum :=
  sum_node _ label children

theorem size_pos (tree : Rose α) : 0 < tree.size := by
  cases tree with
  | node label children =>
      rw [size_node]
      omega

/-- A condition on each node, by its label and the number of its children. -/
def Each (P : α → Nat → Prop) : Rose α → Prop :=
  fold fun label holds => P label holds.length ∧ ∀ hold ∈ holds, hold

theorem each_node {P : α → Nat → Prop} {label : α} {children : List (Rose α)} :
    Each P (.node label children) ↔
      P label children.length ∧ ∀ child ∈ children, child.Each P := by
  unfold Each
  rw [fold_node, List.length_map, List.forall_mem_map]

end Rose

abbrev Arena (α : Type) := List (α × List Nat)

namespace Arena

/-! ## What a position denotes -/

/-- Every reference goes to an earlier position. -/
def Downward (arena : Arena α) : Prop :=
  ∀ (index : Nat) (label : α) (indices : List Nat),
    arena[index]? = some (label, indices) → ∀ child ∈ indices, child < index

/-- Every reference goes to an earlier position, in an arena that starts at
`offset`. -/
def DownwardFrom (offset : Nat) (arena : Arena α) : Prop :=
  ∀ (k : Nat) (label : α) (indices : List Nat), arena[k]? = some (label, indices) →
    ∀ child ∈ indices, child < offset + k

theorem DownwardFrom.append {offset : Nat} {first second : Arena α}
    (hfirst : DownwardFrom offset first)
    (hsecond : DownwardFrom (offset + first.length) second) :
    DownwardFrom offset (first ++ second) := by
  intro k label indices hfound child hchild
  by_cases hk : k < first.length
  · rw [List.getElem?_append_left hk] at hfound
    exact hfirst k label indices hfound child hchild
  · rw [List.getElem?_append_right (by omega)] at hfound
    have hlt := hsecond _ label indices hfound child hchild
    omega

theorem downwardFrom_zero {arena : Arena α} : DownwardFrom 0 arena ↔ Downward arena := by
  unfold DownwardFrom Downward
  simp only [Nat.zero_add]

theorem downwardFrom_cons {offset : Nat} {node : α × List Nat} {arena : Arena α} :
    DownwardFrom offset (node :: arena) ↔
      (∀ child ∈ node.2, child < offset) ∧ DownwardFrom (offset + 1) arena := by
  constructor
  · intro h
    refine ⟨h 0 node.1 node.2 rfl, fun k label indices hfound child hchild => ?_⟩
    have hlt := h (k + 1) label indices hfound child hchild
    omega
  · rintro ⟨hnode, harena⟩ k label indices hfound child hchild
    cases k with
    | zero =>
        cases hfound
        exact hnode child hchild
    | succ k =>
        have hlt := harena k label indices hfound child hchild
        omega

/-- The tree at a position. -/
inductive Denotes (arena : Arena α) : Nat → Rose α → Prop
  | node {index : Nat} {label : α} {indices : List Nat} {trees : List (Rose α)}
      (found : arena[index]? = some (label, indices))
      (length : indices.length = trees.length)
      (each : ∀ (k child : Nat) (tree : Rose α), indices[k]? = some child →
        trees[k]? = some tree → Denotes arena child tree) :
      Denotes arena index (.node label trees)

theorem denotes_node {arena : Arena α} {index : Nat} {label : α} {trees : List (Rose α)} :
    Denotes arena index (.node label trees) ↔
      ∃ indices, arena[index]? = some (label, indices) ∧
        List.Forall₂ (Denotes arena) indices trees := by
  constructor
  · intro h
    cases h with
    | node found length each =>
        refine ⟨_, found, List.forall₂_iff_get.2 ⟨length, fun k hindices htrees => ?_⟩⟩
        exact each k _ _ (List.getElem?_eq_getElem hindices) (List.getElem?_eq_getElem htrees)
  · rintro ⟨indices, found, hall⟩
    obtain ⟨length, each⟩ := List.forall₂_iff_get.1 hall
    refine .node found length fun k child tree hchild htree => ?_
    obtain ⟨hindices, rfl⟩ := List.getElem?_eq_some_iff.1 hchild
    obtain ⟨htrees, rfl⟩ := List.getElem?_eq_some_iff.1 htree
    exact each k hindices htrees

theorem Denotes.unique {arena : Arena α} {index : Nat} {tree other : Rose α}
    (h : Denotes arena index tree) (hother : Denotes arena index other) : tree = other := by
  induction h generalizing other with
  | @node index label indices trees found length each ih =>
      cases hother with
      | @node _ label' indices' trees' found' length' each' =>
          rw [found] at found'
          cases found'
          congr 1
          refine List.ext_getElem (length.symm.trans length') fun k hk hk' => ?_
          have hindices : k < indices.length := length ▸ hk
          exact ih k _ _ (List.getElem?_eq_getElem hindices) (List.getElem?_eq_getElem hk)
            (each' k _ _ (List.getElem?_eq_getElem hindices) (List.getElem?_eq_getElem hk'))

/-- What holds of each node of the arena holds of those of its trees. -/
theorem Denotes.each {arena : Arena α} {P : α → Nat → Prop}
    (hP : ∀ node ∈ arena, P node.1 node.2.length) {index : Nat} {tree : Rose α}
    (h : Denotes arena index tree) : tree.Each P := by
  induction tree using Rose.induction generalizing index with
  | node label children ih =>
      obtain ⟨indices, hfound, hall⟩ := denotes_node.1 h
      refine Rose.each_node.2 ⟨?_, fun child hchild => ?_⟩
      · rw [← hall.length_eq]
        exact hP _ (List.mem_of_getElem? hfound)
      · obtain ⟨k, hk, rfl⟩ := List.mem_iff_getElem.1 hchild
        have hk' : k < indices.length := hall.length_eq ▸ hk
        exact ih _ hchild (hall.get hk' hk)

theorem Denotes.append {arena : Arena α} {index : Nat} {tree : Rose α}
    (h : Denotes arena index tree) (more : Arena α) : Denotes (arena ++ more) index tree := by
  induction h with
  | node found length each ih =>
      refine .node ?_ length ih
      obtain ⟨hindex, hnode⟩ := List.getElem?_eq_some_iff.1 found
      rw [List.getElem?_append_left hindex, found]

theorem exists_trees {arena : Arena α} {indices : List Nat}
    (h : ∀ child ∈ indices, ∃ tree, Denotes arena child tree) :
    ∃ trees, List.Forall₂ (Denotes arena) indices trees := by
  induction indices with
  | nil => exact ⟨[], .nil⟩
  | cons child indices ih =>
      obtain ⟨tree, htree⟩ := h child List.mem_cons_self
      obtain ⟨trees, htrees⟩ := ih fun other hother => h other (List.mem_cons_of_mem _ hother)
      exact ⟨tree :: trees, .cons htree htrees⟩

theorem Downward.exists_tree {arena : Arena α} (h : Downward arena) {index : Nat}
    (hindex : index < arena.length) : ∃ tree, Denotes arena index tree := by
  induction index using Nat.strongRecOn with
  | _ index ih =>
      have hfound : arena[index]? = some (arena[index].1, arena[index].2) :=
        List.getElem?_eq_getElem hindex
      have hbelow := h index _ _ hfound
      obtain ⟨trees, htrees⟩ := exists_trees fun child hchild =>
        ih child (hbelow child hchild) (Nat.lt_trans (hbelow child hchild) hindex)
      exact ⟨_, denotes_node.2 ⟨_, hfound, htrees⟩⟩

theorem Downward.of_append {arena more : Arena α} (h : Downward (arena ++ more)) :
    Downward arena := by
  intro index label indices hfound
  obtain ⟨hindex, -⟩ := List.getElem?_eq_some_iff.1 hfound
  exact h index label indices (by rw [List.getElem?_append_left hindex, hfound])

/-- A position denotes the same in every arena that goes on. -/
theorem Downward.denotes_append {arena more : Arena α} (h : Downward (arena ++ more))
    {index : Nat} {tree : Rose α} (hindex : index < arena.length)
    (htree : Denotes (arena ++ more) index tree) : Denotes arena index tree := by
  obtain ⟨other, hother⟩ := h.of_append.exists_tree hindex
  rw [htree.unique (hother.append more)]
  exact hother

/-! ## The positions below a position -/

/-- The positions that a position refers to. -/
def children (arena : Arena α) (index : Nat) : List Nat :=
  (arena[index]?.map Prod.snd).getD []

def references (arena : Arena α) : List Nat := arena.flatMap Prod.snd

/-- The positions of a tree, each before those of its children; `fuel` bounds
the depth. -/
def visit (arena : Arena α) : Nat → Nat → List Nat
  | 0, _ => []
  | fuel + 1, index => index :: (arena.children index).flatMap (arena.visit fuel)

theorem children_of_found {arena : Arena α} {index : Nat} {label : α} {indices : List Nat}
    (h : arena[index]? = some (label, indices)) : arena.children index = indices := by
  unfold children
  rw [h]
  rfl

theorem Downward.children_lt {arena : Arena α} (h : Downward arena) {index child : Nat}
    (hchild : child ∈ arena.children index) : child < index := by
  unfold children at hchild
  cases hfound : arena[index]? with
  | none =>
      rw [hfound] at hchild
      cases hchild
  | some node =>
      rw [hfound] at hchild
      exact h index node.1 node.2 hfound child hchild

theorem Downward.visit_le {arena : Arena α} (h : Downward arena) {fuel index other : Nat}
    (hother : other ∈ arena.visit fuel index) : other ≤ index := by
  induction fuel generalizing index other with
  | zero => cases hother
  | succ fuel ih =>
      rcases List.mem_cons.1 hother with rfl | hother
      · exact Nat.le_refl _
      · obtain ⟨child, hchild, hother⟩ := List.mem_flatMap.1 hother
        have hlt := h.children_lt hchild
        have hle := ih hother
        omega

/-- What is below a position is what the positions below it refer to. -/
theorem Downward.visit_perm {arena : Arena α} (h : Downward arena) {fuel index : Nat}
    (hfuel : index < fuel) :
    (arena.visit fuel index).Perm (index :: (arena.visit fuel index).flatMap arena.children) := by
  induction fuel generalizing index with
  | zero => omega
  | succ fuel ih =>
      rw [visit, List.flatMap_cons]
      refine List.Perm.cons index ?_
      have hbelow : ∀ child ∈ arena.children index, child < fuel := by
        intro child hchild
        have hlt := h.children_lt hchild
        omega
      generalize arena.children index = indices at hbelow
      induction indices with
      | nil => exact List.Perm.refl _
      | cons child indices ihs =>
          have hchild := ih (hbelow child List.mem_cons_self)
          have hrest := ihs fun other hother => hbelow other (List.mem_cons_of_mem _ hother)
          rw [List.flatMap_cons, List.flatMap_append]
          refine (List.Perm.append hchild hrest).trans ?_
          rw [List.cons_append, List.cons_append]
          refine List.Perm.cons child ?_
          rw [← List.append_assoc, ← List.append_assoc]
          exact List.Perm.append_right _ List.perm_append_comm

/-- One tree: references go down, and each position but the last is referred to
once. -/
structure OneTree (arena : Arena α) : Prop where
  nonempty : arena ≠ []
  below : Downward arena
  once : ∀ index, index + 1 < arena.length → arena.references.count index = 1

theorem references_eq (arena : Arena α) :
    arena.references = (List.range arena.length).flatMap arena.children := by
  have hmap : arena.map Prod.snd = (List.range arena.length).map arena.children := by
    refine List.ext_getElem (by simp) fun k hk _ => ?_
    rw [List.length_map] at hk
    simp [children, hk]
  unfold references
  rw [List.flatMap_def, List.flatMap_def, hmap]

theorem sum_filter_of_zero (g : Nat → Nat) (p : Nat → Bool) (indices : List Nat)
    (h : ∀ index, p index = false → g index = 0) :
    (indices.map g).sum = ((indices.filter p).map g).sum := by
  induction indices with
  | nil => rfl
  | cons index indices ih =>
      cases hp : p index with
      | true => simp [hp, ih]
      | false => simp [hp, ih, h index hp]

/-- The last position has every position below it, once. -/
theorem OneTree.visit_perm {arena : Arena α} (h : OneTree arena) :
    (arena.visit arena.length (arena.length - 1)).Perm (List.range arena.length) := by
  have hpos : 0 < arena.length := List.length_pos_iff.2 h.nonempty
  have hvisit : (arena.visit arena.length (arena.length - 1)).Perm _ :=
    h.below.visit_perm (by omega)
  have hle (other : Nat) (hother : other ∈ arena.visit arena.length (arena.length - 1)) :
      other ≤ arena.length - 1 := h.below.visit_le hother
  generalize arena.visit arena.length (arena.length - 1) = visited at hvisit hle
  have hcount (index : Nat) : visited.count index =
      (if arena.length - 1 = index then 1 else 0) +
        (visited.map fun other => (arena.children other).count index).sum := by
    rw [hvisit.count_eq, List.count_cons, List.count_flatMap, Nat.add_comm]
    simp [beq_iff_eq, Function.comp_def]
  have habove (index other : Nat) (hnot : decide (index < other) = false) :
      (arena.children other).count index = 0 := by
    rw [List.count_eq_zero]
    intro hmem
    have hlt := h.below.children_lt hmem
    simp only [decide_eq_false_iff_not] at hnot
    exact hnot hlt
  have hover (index : Nat) (hindex : arena.length ≤ index) : visited.count index = 0 := by
    rw [List.count_eq_zero]
    intro hmem
    have hmost := hle index hmem
    omega
  have hones (index : Nat) (hindex : index < arena.length) : visited.count index = 1 := by
    induction hk : arena.length - index using Nat.strongRecOn generalizing index with
    | _ k ih =>
        rw [hcount, sum_filter_of_zero _ (fun other => decide (index < other)) visited
          (habove index)]
        by_cases hlast : arena.length - 1 = index
        · have hnone : visited.filter (fun other => decide (index < other)) = [] := by
            refine List.filter_eq_nil_iff.2 fun other hother => ?_
            have hmost := hle other hother
            simp only [decide_eq_true_eq]
            omega
          rw [if_pos hlast, hnone]
          rfl
        · have hsame : (visited.filter fun other => decide (index < other)).Perm
              ((List.range arena.length).filter fun other => decide (index < other)) := by
            rw [List.perm_iff_count]
            intro other
            by_cases hlt : index < other
            · rw [List.count_filter (by simpa using hlt), List.count_filter (by simpa using hlt),
                List.count_range]
              by_cases hother : other < arena.length
              · rw [ih (arena.length - other) (by omega) other hother rfl]
                simp [hother]
              · rw [hover other (by omega)]
                simp [hother]
            · rw [List.count_eq_zero.2, List.count_eq_zero.2]
              · simp [hlt]
              · simp [hlt]
          have honce := h.once index (by omega)
          rw [references_eq, List.count_flatMap] at honce
          rw [if_neg hlast, (hsame.map _).sum_eq, ← sum_filter_of_zero _ _ _ (habove index),
            Nat.zero_add]
          exact honce
  rw [List.perm_iff_count]
  intro index
  rw [List.count_range]
  by_cases hindex : index < arena.length
  · simp [hindex, hones index hindex]
  · simp [hindex, hover index (by omega)]

theorem Downward.concat {arena : Arena α} {label : α} {indices : List Nat} (h : Downward arena)
    (hdown : ∀ child ∈ indices, child < arena.length) :
    Downward (arena ++ [(label, indices)]) := by
  rw [← downwardFrom_zero] at h ⊢
  refine h.append (downwardFrom_cons.2 ⟨?_, nofun⟩)
  rw [Nat.zero_add]
  exact hdown

/-- What refers to a position is one of the arena. -/
theorem lt_length_of_children {arena : Arena α} {index parent : Nat}
    (h : index ∈ arena.children parent) : parent < arena.length := by
  by_contra hnot
  unfold children at h
  rw [List.getElem?_eq_none (Nat.not_lt.1 hnot)] at h
  cases h

theorem OneTree.references_nodup {arena : Arena α} (h : OneTree arena) :
    arena.references.Nodup := by
  rw [List.nodup_iff_count_le_one]
  intro index
  by_cases hindex : index + 1 < arena.length
  · exact Nat.le_of_eq (h.once index hindex)
  · rw [List.count_eq_zero_of_not_mem]
    · exact Nat.zero_le 1
    · rw [references_eq]
      intro hmem
      obtain ⟨parent, hparent, hmem⟩ := List.mem_flatMap.1 hmem
      have hlt : index < parent := h.below.children_lt hmem
      have hbound : parent < arena.length := List.mem_range.1 hparent
      omega

/-- No two positions refer to one position. -/
theorem OneTree.parent_unique {arena : Arena α} (h : OneTree arena) {index parent other : Nat}
    (hparent : index ∈ arena.children parent) (hother : index ∈ arena.children other) :
    parent = other := by
  have hnodup := h.references_nodup
  rw [references_eq, List.nodup_flatMap] at hnodup
  have hapart {first second : Nat} (hfirst : index ∈ arena.children first)
      (hsecond : index ∈ arena.children second) : ¬first < second := by
    intro hlt
    have hdisjoint := List.pairwise_iff_getElem.1 hnodup.2 first second
      (by simpa using lt_length_of_children hfirst) (by simpa using lt_length_of_children hsecond) hlt
    simp only [List.getElem_range, Function.onFun] at hdisjoint
    exact hdisjoint hfirst hsecond
  exact Nat.le_antisymm (Nat.not_lt.1 (hapart hother hparent)) (Nat.not_lt.1 (hapart hparent hother))

/-! ## Walks -/

/-- Positions that are walked from `roots` down: besides the roots, those that the walked
positions refer to. -/
structure Walk (arena : Arena α) (roots visited : List Nat) : Prop where
  closed : visited.Perm (roots ++ visited.flatMap arena.children)
  down : ∀ index ∈ visited, ∀ child ∈ arena.children index, child < index
  below : ∀ index ∈ visited, ∃ root ∈ roots, index ≤ root

theorem Walk.nil (arena : Arena α) : Walk arena [] [] := ⟨.nil, nofun, nofun⟩

theorem Walk.append {arena : Arena α} {roots more visited rest : List Nat}
    (h : Walk arena roots visited) (hmore : Walk arena more rest) :
    Walk arena (roots ++ more) (visited ++ rest) where
  closed := by
    have hboth := h.closed.append hmore.closed
    rw [List.flatMap_append]
    refine hboth.trans ?_
    rw [List.append_assoc, List.append_assoc]
    refine List.Perm.append_left roots ?_
    rw [← List.append_assoc, ← List.append_assoc]
    exact List.Perm.append_right _ List.perm_append_comm
  down index hindex := by
    rcases List.mem_append.1 hindex with hindex | hindex
    · exact h.down index hindex
    · exact hmore.down index hindex
  below index hindex := by
    rcases List.mem_append.1 hindex with hindex | hindex
    · obtain ⟨root, hroot, hle⟩ := h.below index hindex
      exact ⟨root, List.mem_append_left _ hroot, hle⟩
    · obtain ⟨root, hroot, hle⟩ := hmore.below index hindex
      exact ⟨root, List.mem_append_right _ hroot, hle⟩

/-- A position in front of the walk from its children. -/
theorem Walk.node {arena : Arena α} {index : Nat} {visited : List Nat}
    (hdown : ∀ child ∈ arena.children index, child < index)
    (h : Walk arena (arena.children index) visited) :
    Walk arena [index] (index :: visited) where
  closed := by
    rw [List.flatMap_cons, List.singleton_append]
    exact h.closed.cons index
  down other hother := by
    rcases List.mem_cons.1 hother with rfl | hother
    · exact hdown
    · exact h.down other hother
  below other hother := by
    refine ⟨index, List.mem_singleton_self _, ?_⟩
    rcases List.mem_cons.1 hother with rfl | hother
    · exact Nat.le_refl _
    · obtain ⟨root, hroot, hle⟩ := h.below other hother
      have hlt := hdown root hroot
      omega

/-- A walk from the last position that comes once to each other one. -/
theorem Walk.oneTree {arena : Arena α} {last : Nat} {visited : List Nat}
    (hlength : arena.length = last + 1) (h : Walk arena [last] visited)
    (honce : ∀ index < last, (visited.flatMap arena.children).count index = 1) :
    OneTree arena := by
  have hle (index : Nat) (hindex : index ∈ visited) : index ≤ last := by
    obtain ⟨root, hroot, hle⟩ := h.below index hindex
    rwa [List.mem_singleton.1 hroot] at hle
  have hcount (index : Nat) : visited.count index =
      (visited.flatMap arena.children).count index + if last = index then 1 else 0 := by
    rw [h.closed.count_eq, List.singleton_append, List.count_cons]
    simp
  have hover (index : Nat) (hindex : last ≤ index) :
      (visited.flatMap arena.children).count index = 0 := by
    rw [List.count_eq_zero]
    intro hmem
    obtain ⟨other, hother, hchild⟩ := List.mem_flatMap.1 hmem
    have hlt := h.down other hother index hchild
    have hmost := hle other hother
    omega
  have hperm : visited.Perm (List.range arena.length) := by
    rw [List.perm_iff_count]
    intro index
    rw [hcount, List.count_range, hlength]
    rcases Nat.lt_trichotomy index last with hlt | rfl | hlt
    · rw [honce index hlt, if_neg (by omega), if_pos (by omega)]
    · rw [hover index (Nat.le_refl _), if_pos rfl, if_pos (by omega)]
    · rw [hover index (by omega), if_neg (by omega), if_neg (by omega)]
  refine ⟨List.ne_nil_of_length_pos (by omega), ?_, fun index hindex => ?_⟩
  · intro index label indices hfound child hchild
    obtain ⟨hlt, -⟩ := List.getElem?_eq_some_iff.1 hfound
    refine h.down index (hperm.mem_iff.2 (List.mem_range.2 hlt)) child ?_
    rwa [children_of_found hfound]
  · rw [references_eq, ← (hperm.flatMap_right arena.children).count_eq]
    exact honce index (by omega)

theorem le_foldl_max {values : List Nat} {value start : Nat}
    (h : value ≤ start ∨ value ∈ values) : value ≤ values.foldl max start := by
  induction values generalizing start with
  | nil =>
      rcases h with h | h
      · exact h
      · cases h
  | cons first values ih =>
      refine ih ?_
      rcases h with h | h
      · exact Or.inl (Nat.le_trans h (Nat.le_max_left _ _))
      · rcases List.mem_cons.1 h with rfl | h
        · exact Or.inl (Nat.le_max_right _ _)
        · exact Or.inr h

/-- No tree below a position is higher than its own. -/
theorem Denotes.height_le {arena : Arena α} {fuel index other : Nat} {tree below : Rose α}
    (htree : Denotes arena index tree)
    (hbelow : Denotes arena other below) (hother : other ∈ arena.visit fuel index) :
    below.height ≤ tree.height := by
  induction fuel generalizing index tree with
  | zero => cases hother
  | succ fuel ih =>
      rcases List.mem_cons.1 hother with rfl | hother
      · exact Nat.le_of_eq (congrArg Rose.height (hbelow.unique htree))
      · obtain ⟨label, trees⟩ := tree
        obtain ⟨indices, hfound, hall⟩ := denotes_node.1 htree
        rw [children_of_found hfound] at hother
        obtain ⟨child, hchild, hother⟩ := List.mem_flatMap.1 hother
        obtain ⟨k, hk, rfl⟩ := List.mem_iff_getElem.1 hchild
        have hk' : k < trees.length := hall.length_eq ▸ hk
        have hle := ih (hall.get hk hk') hother
        have hmax : (trees[k]).height ≤ (trees.map Rose.height).foldl max 0 :=
          le_foldl_max (Or.inr (List.mem_map.2 ⟨trees[k], List.getElem_mem hk', rfl⟩))
        rw [Rose.height_node]
        exact Nat.le_trans hle (Nat.le_succ_of_le hmax)

/-! ## Sums over a tree -/

/-- The weight of the node at a position. -/
def weightAt (arena : Arena α) (weight : α → Nat → Nat) (index : Nat) : Nat :=
  match arena[index]? with
  | some (label, indices) => weight label indices.length
  | none => 0

theorem sum_visit {arena : Arena α} (h : Downward arena) (weight : α → Nat → Nat)
    {index fuel : Nat} {tree : Rose α} (htree : Denotes arena index tree)
    (hfuel : index < fuel) :
    tree.sum weight = ((arena.visit fuel index).map (arena.weightAt weight)).sum := by
  induction fuel generalizing index tree with
  | zero => omega
  | succ fuel ih =>
      obtain ⟨label, trees⟩ := tree
      obtain ⟨indices, hfound, hall⟩ := denotes_node.1 htree
      have hweight : arena.weightAt weight index = weight label trees.length := by
        unfold weightAt
        rw [hfound, ← hall.length_eq]
      have hbelow : ∀ child ∈ indices, child < fuel := by
        intro child hchild
        have hlt := h index label indices hfound child hchild
        omega
      rw [Rose.sum_node, visit, children_of_found hfound, List.map_cons, List.sum_cons, hweight]
      congr 1
      clear hfound htree hweight
      induction hall with
      | nil => rfl
      | cons hchild hrest ihs =>
          rw [List.map_cons, List.sum_cons, List.flatMap_cons, List.map_append, List.sum_append,
            ih hchild (hbelow _ List.mem_cons_self),
            ihs fun other hother => hbelow other (List.mem_cons_of_mem _ hother)]

/-- The tree of the last position has the nodes of the arena. -/
theorem OneTree.sum_eq {arena : Arena α} (h : OneTree arena) (weight : α → Nat → Nat)
    {tree : Rose α} (htree : Denotes arena (arena.length - 1) tree) :
    tree.sum weight = (arena.map fun node => weight node.1 node.2.length).sum := by
  have hpos : 0 < arena.length := List.length_pos_iff.2 h.nonempty
  have hlast : arena.length - 1 < arena.length := by omega
  rw [sum_visit h.below weight htree hlast, (h.visit_perm.map _).sum_eq]
  congr 1
  refine List.ext_getElem (by simp) fun k hk hk' => ?_
  rw [List.length_map] at hk'
  simp [weightAt, hk']

theorem OneTree.size_eq {arena : Arena α} (h : OneTree arena) {tree : Rose α}
    (htree : Denotes arena (arena.length - 1) tree) : tree.size = arena.length := by
  unfold Rose.size
  rw [h.sum_eq _ htree]
  simp

/-! ## Values from the bottom up -/

/-- A value for each position, in one pass. -/
def evaluate (f : α → List β → β) (d : β) (arena : Arena α) : List β :=
  arena.foldl (fun values node => values ++ [f node.1 (node.2.map (values.getD · d))]) []

theorem map_eq_map {γ : Type} {R : α → β → Prop} {xs : List α} {ys : List β}
    {f : α → γ} {g : β → γ} (hall : List.Forall₂ R xs ys)
    (h : ∀ x ∈ xs, ∀ y, R x y → f x = g y) : xs.map f = ys.map g := by
  induction hall with
  | nil => rfl
  | cons hxy hrest ih =>
      rw [List.map_cons, List.map_cons, h _ List.mem_cons_self _ hxy,
        ih fun x hx => h x (List.mem_cons_of_mem _ hx)]

theorem evaluate_concat (f : α → List β → β) (d : β) (arena : Arena α)
    (node : α × List Nat) :
    evaluate f d (arena ++ [node]) = evaluate f d arena ++
      [f node.1 (node.2.map ((evaluate f d arena).getD · d))] := by
  unfold evaluate
  rw [List.foldl_append]
  rfl

theorem evaluate_length (f : α → List β → β) (d : β) (arena : Arena α) :
    (evaluate f d arena).length = arena.length := by
  induction arena using List.reverseRecOn with
  | nil => rfl
  | append_singleton arena node ih =>
      rw [evaluate_concat, List.length_append, List.length_append, ih]
      rfl

/-- The value at a position is that of its tree. -/
theorem evaluate_eq {arena : Arena α} (h : Downward arena) (f : α → List β → β) (d : β)
    {index : Nat} {tree : Rose α} (htree : Denotes arena index tree) :
    (evaluate f d arena).getD index d = tree.fold f := by
  induction arena using List.reverseRecOn generalizing index tree with
  | nil =>
      cases htree with
      | node found length each => cases found
  | append_singleton arena node ih =>
      have hrestrict (other : Nat) (below : Rose α) (hother : other < arena.length)
          (hbelow : Denotes (arena ++ [node]) other below) :
          (evaluate f d arena).getD other d = below.fold f :=
        ih h.of_append (h.denotes_append hother hbelow)
      rw [evaluate_concat]
      by_cases hindex : index < arena.length
      · rw [List.getD_append _ _ _ _ (by rw [evaluate_length]; exact hindex)]
        exact hrestrict index tree hindex htree
      · obtain ⟨label, trees⟩ := tree
        obtain ⟨indices, hfound, hall⟩ := denotes_node.1 htree
        have hbelow := h index label indices hfound
        obtain ⟨hbound, hnode⟩ := List.getElem?_eq_some_iff.1 hfound
        have hlast : index = arena.length := by
          rw [List.length_append, List.length_singleton] at hbound
          omega
        subst hlast
        rw [List.getElem_append_right (Nat.le_refl _)] at hnode
        simp only [Nat.sub_self, List.getElem_singleton] at hnode
        subst hnode
        rw [List.getD_append_right _ _ _ _ (Nat.le_of_eq (evaluate_length f d arena)),
          evaluate_length,
          Nat.sub_self, Rose.fold_node]
        show f label (indices.map _) = _
        rw [map_eq_map hall fun child hchild below => hrestrict child below (hbelow child hchild)]

end Arena

/-! ## Writing a tree as an arena -/

namespace Rose

open Arena

mutual

/-- The nodes of a tree, children first, from a position on. -/
def flatten (offset : Nat) : Rose α → Arena α
  | .node label children =>
      (flattens offset children).1 ++ [(label, (flattens offset children).2)]

/-- The nodes of the trees, and the position of each. -/
def flattens (offset : Nat) : List (Rose α) → Arena α × List Nat
  | [] => ([], [])
  | tree :: trees =>
      let first := flatten offset tree
      let rest := flattens (offset + first.length) trees
      (first ++ rest.1, (offset + (first.length - 1)) :: rest.2)

end

theorem flattens_cons (offset : Nat) (tree : Rose α) (trees : List (Rose α)) :
    flattens offset (tree :: trees) =
      (flatten offset tree ++ (flattens (offset + (flatten offset tree).length) trees).1,
        (offset + ((flatten offset tree).length - 1)) ::
          (flattens (offset + (flatten offset tree).length) trees).2) := by
  rw [flattens]

theorem flattens_length {trees : List (Rose α)}
    (h : ∀ tree ∈ trees, ∀ offset, (flatten offset tree).length = tree.size) (offset : Nat) :
    (flattens offset trees).1.length = (trees.map size).sum := by
  induction trees generalizing offset with
  | nil => rfl
  | cons tree trees ih =>
      rw [flattens_cons, List.length_append, h tree List.mem_cons_self,
        ih fun other hother => h other (List.mem_cons_of_mem _ hother)]
      rfl

theorem flatten_length (tree : Rose α) (offset : Nat) :
    (flatten offset tree).length = tree.size := by
  induction tree using Rose.induction generalizing offset with
  | node label children ih =>
      rw [flatten, List.length_append, flattens_length ih, size_node, List.length_singleton,
        Nat.add_comm]

theorem flattens_denotes {trees : List (Rose α)}
    (h : ∀ tree ∈ trees, ∀ before : Arena α,
      Denotes (before ++ flatten before.length tree) (before.length + (tree.size - 1)) tree)
    (before : Arena α) :
    List.Forall₂ (Denotes (before ++ (flattens before.length trees).1))
      (flattens before.length trees).2 trees := by
  induction trees generalizing before with
  | nil => exact .nil
  | cons tree trees ih =>
      have hfirst := h tree List.mem_cons_self before
      have hrest := ih (fun other hother => h other (List.mem_cons_of_mem _ hother))
        (before ++ flatten before.length tree)
      rw [List.length_append] at hrest
      rw [flattens_cons, ← List.append_assoc]
      refine .cons ?_ hrest
      rw [flatten_length] at hrest ⊢
      exact hfirst.append _

/-- What is written denotes the tree, whatever is written before. -/
theorem flatten_denotes (tree : Rose α) (before : Arena α) :
    Denotes (before ++ flatten before.length tree) (before.length + (tree.size - 1)) tree := by
  induction tree using Rose.induction generalizing before with
  | node label children ih =>
      have hlength : (flattens before.length children).1.length = (children.map size).sum :=
        flattens_length (fun tree _ offset => flatten_length tree offset) before.length
      have hall := flattens_denotes ih before
      rw [flatten, ← List.append_assoc]
      refine denotes_node.2 ⟨(flattens before.length children).2, ?_, ?_⟩
      · rw [List.getElem?_append_right (by rw [List.length_append, hlength, size_node]; omega),
          List.length_append, hlength, size_node]
        simp
      · exact hall.imp fun _ _ hchild => hchild.append _

theorem flattens_downward {trees : List (Rose α)}
    (h : ∀ tree ∈ trees, ∀ offset, DownwardFrom offset (flatten offset tree))
    (offset : Nat) : DownwardFrom offset (flattens offset trees).1 := by
  induction trees generalizing offset with
  | nil => nofun
  | cons tree trees ih =>
      rw [flattens_cons]
      exact (h tree List.mem_cons_self offset).append
        (ih (fun other hother => h other (List.mem_cons_of_mem _ hother)) _)

theorem flattens_roots (trees : List (Rose α)) (offset : Nat) :
    ∀ root ∈ (flattens offset trees).2, root < offset + (flattens offset trees).1.length := by
  induction trees generalizing offset with
  | nil => nofun
  | cons tree trees ih =>
      intro root hroot
      have hpos := size_pos tree
      rw [flattens_cons] at hroot ⊢
      rw [List.length_append]
      rw [← flatten_length tree offset] at hpos
      rcases List.mem_cons.1 hroot with rfl | hroot
      · omega
      · have hlt := ih _ root hroot
        omega

theorem flatten_downward (tree : Rose α) (offset : Nat) :
    DownwardFrom offset (flatten offset tree) := by
  induction tree using Rose.induction generalizing offset with
  | node label children ih =>
      rw [flatten]
      refine (flattens_downward ih offset).append ?_
      intro k other indices hfound child hchild
      cases k with
      | zero =>
          cases hfound
          exact flattens_roots children offset child hchild
      | succ k => cases hfound

theorem flattens_references {trees : List (Rose α)}
    (h : ∀ tree ∈ trees, ∀ offset,
      (references (flatten offset tree)).Perm (List.range' offset (tree.size - 1)))
    (offset : Nat) :
    (references (flattens offset trees).1 ++ (flattens offset trees).2).Perm
      (List.range' offset (trees.map size).sum) := by
  induction trees generalizing offset with
  | nil => exact List.Perm.refl _
  | cons tree trees ih =>
      have hfirst := h tree List.mem_cons_self offset
      have hrest := ih (fun other hother => h other (List.mem_cons_of_mem _ hother))
        (offset + tree.size)
      have hpos := size_pos tree
      have hrange : List.range' offset ((tree :: trees).map size).sum =
          (List.range' offset (tree.size - 1) ++ [offset + (tree.size - 1)]) ++
            List.range' (offset + tree.size) (trees.map size).sum := by
        rw [List.map_cons, List.sum_cons, ← List.range'_append_1]
        congr 1
        rw [← List.range'_1_concat]
        congr 1
        omega
      rw [flattens_cons, flatten_length, hrange]
      unfold references at hfirst hrest ⊢
      rw [List.flatMap_append, List.append_assoc, List.append_assoc]
      refine List.Perm.append hfirst ?_
      refine List.perm_middle.trans ?_
      exact List.Perm.cons _ hrest

theorem flatten_references (tree : Rose α) (offset : Nat) :
    (references (flatten offset tree)).Perm (List.range' offset (tree.size - 1)) := by
  induction tree using Rose.induction generalizing offset with
  | node label children ih =>
      have hall := flattens_references ih offset
      rw [flatten, size_node, Nat.add_sub_cancel_left]
      unfold references at hall ⊢
      rw [List.flatMap_append]
      simpa using hall

theorem flattens_roots_length (trees : List (Rose α)) (offset : Nat) :
    (flattens offset trees).2.length = trees.length := by
  induction trees generalizing offset with
  | nil => rfl
  | cons tree trees ih =>
      rw [flattens_cons, List.length_cons, List.length_cons, ih]

theorem flattens_each {trees : List (Rose α)} {P : α → Nat → Prop}
    (h : ∀ tree ∈ trees, ∀ offset, ∀ node ∈ flatten offset tree, P node.1 node.2.length)
    (offset : Nat) : ∀ node ∈ (flattens offset trees).1, P node.1 node.2.length := by
  induction trees generalizing offset with
  | nil => nofun
  | cons tree trees ih =>
      intro node hnode
      rw [flattens_cons] at hnode
      rcases List.mem_append.1 hnode with hnode | hnode
      · exact h tree List.mem_cons_self offset node hnode
      · exact ih (fun other hother => h other (List.mem_cons_of_mem _ hother)) _ node hnode

/-- The nodes that are written are those of the tree. -/
theorem flatten_each {P : α → Nat → Prop} (tree : Rose α) (h : tree.Each P) (offset : Nat) :
    ∀ node ∈ flatten offset tree, P node.1 node.2.length := by
  induction tree using Rose.induction generalizing offset with
  | node label children ih =>
      obtain ⟨hlabel, hchildren⟩ := each_node.1 h
      intro node hnode
      rw [flatten] at hnode
      rcases List.mem_append.1 hnode with hnode | hnode
      · exact flattens_each (fun child hchild => ih child hchild (hchildren child hchild))
          offset node hnode
      · rw [List.mem_singleton.1 hnode]
        dsimp only
        rw [flattens_roots_length]
        exact hlabel

/-- What is written is one tree. -/
theorem flatten_oneTree (tree : Rose α) : OneTree (flatten 0 tree) where
  nonempty := by
    have hpos := size_pos tree
    rw [← flatten_length tree 0] at hpos
    exact List.length_pos_iff.1 hpos
  below := downwardFrom_zero.1 (flatten_downward tree 0)
  once := by
    intro index hindex
    rw [flatten_length] at hindex
    have hmem : index ∈ List.range' 0 (tree.size - 1) := by
      rw [List.mem_range'_1]
      omega
    rw [(flatten_references tree 0).count_eq, List.Nodup.count List.nodup_range', if_pos hmem]

end Rose

end MCode.Lib
