import MCode.Render.Listing

/-!
# The walk over a tree

The lines of a node depend on its label alone, since a connector has no line
break: so where the walk stands when it reaches a node can be told from the tree.
It leaves out children of a node when the lines that are left, less one for each
node that waits, are fewer than the children.

The rendering is true when all that happens late: when the listing reaches line
4,095 before the last of the children that are kept.  Otherwise the last child
that is kept has the connector of a last child, and what waits below stands where
its siblings should.
-/

namespace MCode.Render

variable {Value : Type} {unicode : Unicode Value} {width : Nat}

/-! ## Heights and line counts -/

mutual

/-- The levels below a node. -/
def TreeNode.height : TreeNode → Nat
  | ⟨_, children⟩ => heights children

def heights : List TreeNode → Nat
  | [] => 0
  | child :: rest => max (child.height + 1) (heights rest)

end

/-- The lines of a label. -/
def labelLines (label : List Char) : Nat := (sanitizeTerminalText label).count '\n' + 1

mutual

def TreeNode.lineCount : TreeNode → Nat
  | ⟨label, children⟩ => labelLines label + lineCounts children

def lineCounts : List TreeNode → Nat
  | [] => 0
  | child :: rest => child.lineCount + lineCounts rest

end

/-! ## The condition -/

mutual

/-- When the node is reached with so many lines written and so many nodes waiting, children
are left out, here and below, only after line 4,095 of the listing. -/
def CutsLate (written waiting : Nat) : TreeNode → Prop
  | ⟨label, children⟩ =>
      let below := written + labelLines label
      let visibleCount := min children.length (MAX_PLAIN_LINES - below - waiting)
      (visibleCount < children.length →
        MAX_PLAIN_LINES - 1 ≤ below + lineCounts (children.take (visibleCount - 1))) ∧
      ChildrenCutLate below waiting visibleCount children

/-- The same for the children that are kept. -/
def ChildrenCutLate (written waiting : Nat) : Nat → List TreeNode → Prop
  | _, [] => True
  | 0, _ :: _ => True
  | keep + 1, child :: rest =>
      CutsLate written (waiting + keep) child ∧
        ChildrenCutLate (written + child.lineCount) waiting keep rest

end

mutual

def CutsLate.decide (written waiting : Nat) :
    (node : TreeNode) → Decidable (CutsLate written waiting node)
  | ⟨label, children⟩ =>
      have := ChildrenCutLate.decide (written + labelLines label) waiting
        (min children.length (MAX_PLAIN_LINES - (written + labelLines label) - waiting)) children
      inferInstanceAs (Decidable (_ ∧ _))

def ChildrenCutLate.decide (written waiting : Nat) :
    (keep : Nat) → (children : List TreeNode) →
      Decidable (ChildrenCutLate written waiting keep children)
  | 0, [] => .isTrue trivial
  | _ + 1, [] => .isTrue trivial
  | 0, _ :: _ => .isTrue trivial
  | keep + 1, child :: rest =>
      have := CutsLate.decide written (waiting + keep) child
      have := ChildrenCutLate.decide (written + child.lineCount) waiting keep rest
      inferInstanceAs (Decidable (_ ∧ _))

end

instance (written waiting : Nat) (node : TreeNode) : Decidable (CutsLate written waiting node) :=
  CutsLate.decide written waiting node

/-- The condition on a block: only trees leave lines out before their end. -/
def RenderBlock.CutsLate : RenderBlock Value → Prop
  | .Tree tree => Render.CutsLate 0 0 tree.root
  | _ => True

instance : (block : RenderBlock Value) → Decidable block.CutsLate
  | .Tree tree => inferInstanceAs (Decidable (CutsLate 0 0 tree.root))
  | .Text _ | .Markdown _ | .Diff _ | .Table _ | .Progress _ | .Error _ | .Widget _ =>
      .isTrue trivial

def RenderBlock.height : RenderBlock Value → Nat
  | .Tree tree => tree.root.height
  | _ => 0

/-! ## Labels behind connectors -/

theorem length_splitOn (text : List Char) (sep : Char) :
    (text.splitOn sep).length = text.count sep + 1 := by
  induction text with
  | nil => rfl
  | cons c text ih =>
      rw [List.splitOn_cons_eq_if_modifyHead]
      by_cases hsep : c = sep
      · rw [if_pos (beq_iff_eq.2 hsep), List.length_cons, ih, hsep, List.count_cons_self]
      · rw [if_neg (mt beq_iff_eq.1 hsep), List.length_modifyHead, ih,
          List.count_cons_of_ne hsep]

theorem textLines_length (text : List Char) :
    (textLines unicode width text).length = labelLines text := by
  rw [textLines, List.length_map, length_splitOn]
  rfl

/-- Connectors stay as they are. -/
theorem sanitize_indent {indent : List Char} (h : ∀ c ∈ indent, c ∈ [' ', '|', '-', '`'])
    (text : List Char) :
    sanitizeFrom .Text (indent ++ text) = indent ++ sanitizeFrom .Text text := by
  induction indent with
  | nil => rfl
  | cons c indent ih =>
      have hc := h c List.mem_cons_self
      have hnext (peek : Option Char) : State.Text.next c peek = (.Text, [c]) := by
        simp only [List.mem_cons, List.not_mem_nil, or_false] at hc
        rcases hc with rfl | rfl | rfl | rfl <;> rfl
      rw [List.cons_append, sanitizeFrom, hnext,
        ih fun d hd => h d (List.mem_cons_of_mem _ hd)]
      rfl

theorem labelLines_indent {indent : List Char} (h : ∀ c ∈ indent, c ∈ [' ', '|', '-', '`'])
    (label : List Char) : labelLines (indent ++ label) = labelLines label := by
  have hcount : indent.count '\n' = 0 := by
    rw [List.count_eq_zero]
    intro hfeed
    exact absurd (h _ hfeed) (by decide)
  unfold labelLines sanitizeTerminalText
  rw [sanitize_indent h, List.count_append, hcount, Nat.zero_add]

/-- Nothing but the indents of the walk. -/
def Indented (linePrefix : List Char) : Prop := ∀ c ∈ linePrefix, c = ' ' ∨ c = '|'

instance (linePrefix : List Char) : Decidable (Indented linePrefix) :=
  List.decidableBAll (fun c => c = ' ' ∨ c = '|') linePrefix

theorem connector_mem {isLast : Bool} {c : Char} (h : c ∈ connector isLast) :
    c ∈ [' ', '|', '-', '`'] := by
  have hall : (connector isLast).all (fun c => c ∈ [' ', '|', '-', '`']) = true := by
    cases isLast <;> decide
  exact List.all_iff_forall_prop.1 hall c h

theorem Pending.text_lines {self : Pending} (h : Indented self.linePrefix) :
    labelLines self.text = labelLines self.node.label := by
  unfold text
  split
  · rfl
  · apply labelLines_indent
    intro c hc
    rcases List.mem_append.1 hc with hc | hc
    · rcases h c hc with hspace | hbar
      · rw [hspace]
        decide
      · rw [hbar]
        decide
    · exact connector_mem hc

theorem Pending.childPrefix_indented {self : Pending} (h : Indented self.linePrefix) :
    Indented self.childPrefix := by
  unfold childPrefix
  split
  · exact fun c hc => absurd hc List.not_mem_nil
  · have hgroup : Indented (if self.isLast then "   ".toList else "|  ".toList) := by
      cases self.isLast <;> decide
    intro c hc
    rcases List.mem_append.1 hc with hc | hc
    · exact h c hc
    · exact hgroup c hc

mutual

theorem nodeLines_length {linePrefix : List Char} (h : Indented linePrefix)
    (isLast isRoot : Bool) (node : TreeNode) :
    (nodeLines unicode width linePrefix isLast isRoot node).length = node.lineCount := by
  obtain ⟨label, children⟩ := node
  rw [nodeLines, TreeNode.lineCount, List.length_append, textLines_length,
    Pending.text_lines h, childrenLines_length (Pending.childPrefix_indented h) children]

theorem childrenLines_length {linePrefix : List Char} (h : Indented linePrefix)
    (children : List TreeNode) :
    (childrenLines unicode width linePrefix children).length = lineCounts children := by
  match children with
  | [] => rfl
  | child :: rest =>
      rw [childrenLines, lineCounts, List.length_append, nodeLines_length h _ _ child,
        childrenLines_length h rest]

end

theorem TreeNode.lineCount_pos (node : TreeNode) : 0 < node.lineCount := by
  obtain ⟨label, children⟩ := node
  rw [lineCount, labelLines]
  omega

theorem lineCounts_append (front rest : List TreeNode) :
    lineCounts (front ++ rest) = lineCounts front + lineCounts rest := by
  induction front with
  | nil => rw [List.nil_append, lineCounts, Nat.zero_add]
  | cons child front ih => rw [List.cons_append, lineCounts, lineCounts, ih, Nat.add_assoc]

theorem length_le_lineCounts (children : List TreeNode) :
    children.length ≤ lineCounts children := by
  induction children with
  | nil => exact Nat.le_refl _
  | cons child rest ih =>
      have := child.lineCount_pos
      rw [lineCounts, List.length_cons]
      omega

/-! ## The stack -/

/-- The entries of all these children, the first on top. -/
def entries (linePrefix : List Char) (depth : Nat) : List TreeNode → List Pending
  | [] => []
  | child :: rest => ⟨child, linePrefix, rest.isEmpty, false, depth⟩ :: entries linePrefix depth rest

theorem mapIdx_eq_entries (linePrefix : List Char) (depth first : Nat)
    (children : List TreeNode) :
    (children.mapIdx fun index child =>
      (⟨child, linePrefix, decide (first + index + 1 = first + children.length), false, depth⟩ :
        Pending)) = entries linePrefix depth children := by
  induction children generalizing first with
  | nil => rfl
  | cons child rest ih =>
      rw [List.mapIdx_cons, entries, ← ih (first + 1)]
      congr 1
      · cases rest with
        | nil => simp
        | cons next rest => simp
      · congr 1
        funext index next
        congr 2
        simp only [List.length_cons, eq_iff_iff]
        omega

theorem Pending.visible_eq {self : Pending} {visibleCount : Nat}
    (h : visibleCount ≤ self.node.children.length) :
    self.visible visibleCount =
      entries self.childPrefix (self.depth + 1) (self.node.children.take visibleCount) := by
  rw [← mapIdx_eq_entries _ _ 0]
  unfold visible
  congr 1
  funext index child
  congr 2
  simp only [List.length_take, eq_iff_iff]
  omega

theorem Pending.visible_length (self : Pending) (visibleCount : Nat) :
    (self.visible visibleCount).length = min visibleCount self.node.children.length := by
  rw [visible, List.length_mapIdx, List.length_take]

theorem entries_length (linePrefix : List Char) (depth : Nat) (children : List TreeNode) :
    (entries linePrefix depth children).length = children.length := by
  induction children with
  | nil => rfl
  | cons child rest ih => rw [entries, List.length_cons, List.length_cons, ih]

/-- What is below a waiting node still fits in the depth of the walk. -/
structure Pending.Shallow (entry : Pending) : Prop where
  depth_le : entry.depth + entry.node.height ≤ MAX_TREE_DEPTH
  indented : Indented entry.linePrefix

theorem height_lt_of_mem {child : TreeNode} {children : List TreeNode} (h : child ∈ children) :
    child.height < heights children := by
  induction children with
  | nil => exact absurd h List.not_mem_nil
  | cons other rest ih =>
      rw [heights]
      rcases List.mem_cons.1 h with hhead | hmem
      · rw [hhead]
        omega
      · have := ih hmem
        omega

theorem Pending.Shallow.visible {self : Pending} (h : self.Shallow) (visibleCount : Nat) :
    ∀ entry ∈ self.visible visibleCount, entry.Shallow := by
  intro entry hentry
  obtain ⟨index, hindex, rfl⟩ := List.mem_mapIdx.1 hentry
  refine ⟨?_, Pending.childPrefix_indented h.indented⟩
  have hlt := height_lt_of_mem
    (List.mem_of_mem_take (List.getElem_mem (l := self.node.children.take visibleCount) hindex))
  have hle := h.depth_le
  have hheight : self.node.height = heights self.node.children := by
    obtain ⟨label, children⟩ := self.node
    rw [TreeNode.height]
  dsimp only
  omega

/-- The children of a node that are kept once its own lines are written. -/
def keptCount (unicode : Unicode Value) (current : Pending) (pending : List Pending)
    (writer : PlainWriter) : Nat :=
  min current.node.children.length
    ((writer.pushLine unicode current.text).remainingCapacity - pending.length)

theorem keptCount_le (unicode : Unicode Value) (current : Pending) (pending : List Pending)
    (writer : PlainWriter) :
    keptCount unicode current pending writer ≤ current.node.children.length :=
  Nat.min_le_left ..

/-- What one round makes of the stack and the writer. -/
def descend (unicode : Unicode Value) (current : Pending) (pending : List Pending)
    (writer : PlainWriter) : List Pending × PlainWriter :=
  (current.visible (keptCount unicode current pending writer) ++ pending,
    if keptCount unicode current pending writer < current.node.children.length then
      (writer.pushLine unicode current.text).markTruncated
    else writer.pushLine unicode current.text)

theorem renderPending_descend {current : Pending} {pending : List Pending} {writer : PlainWriter}
    (hcapacity : writer.hasCapacity) (h : current.Shallow) :
    renderPending unicode (current :: pending) writer =
      renderPending unicode (descend unicode current pending writer).1
        (descend unicode current pending writer).2 := by
  rw [renderPending, if_pos hcapacity]
  dsimp only [descend, keptCount]
  split
  · rename_i hdepth
    have hheight : current.node.height = 0 := by
      have := h.depth_le
      omega
    have hnone : current.node.children = [] := by
      cases hchildren : current.node.children with
      | nil => rfl
      | cons child rest =>
          obtain ⟨⟨label, children⟩, linePrefix, isLast, isRoot, depth⟩ := current
          dsimp only at hchildren hheight
          rw [hchildren, TreeNode.height, heights] at hheight
          omega
    simp [hnone, Pending.visible]
  · rfl

variable (unicode) in
theorem descend_shallow {current : Pending} {pending : List Pending}
    (h : ∀ entry ∈ current :: pending, entry.Shallow) (writer : PlainWriter) :
    ∀ entry ∈ (descend unicode current pending writer).1, entry.Shallow := by
  intro entry hentry
  rcases List.mem_append.1 hentry with hentry | hentry
  · exact (h current List.mem_cons_self).visible _ entry hentry
  · exact h entry (List.mem_cons_of_mem _ hentry)

/-- The induction over a walk that is not too deep. -/
theorem walk_induction (unicode : Unicode Value)
    {motive : (pending : List Pending) → PlainWriter → (∀ entry ∈ pending, entry.Shallow) → Prop}
    (nil : ∀ writer h, motive [] writer h)
    (full : ∀ current pending writer h, ¬ PlainWriter.hasCapacity writer →
      motive (current :: pending) writer h)
    (step : ∀ current pending writer h, PlainWriter.hasCapacity writer →
      motive (descend unicode current pending writer).1
        (descend unicode current pending writer).2 (descend_shallow unicode h writer) →
      motive (current :: pending) writer h)
    (pending : List Pending) (writer : PlainWriter) (h : ∀ entry ∈ pending, entry.Shallow) :
    motive pending writer h := by
  induction hsize : (pending.map fun entry => sizeOf entry.node).sum using Nat.strong_induction_on
    generalizing pending writer with
  | _ size ih =>
      cases pending with
      | nil => exact nil writer h
      | cons current pending =>
          by_cases hcapacity : writer.hasCapacity
          · apply step current pending writer h hcapacity
            refine ih _ ?_ _ _ _ rfl
            rw [← hsize]
            simp only [descend, List.map_append, List.sum_append, List.map_cons, List.sum_cons]
            exact Nat.add_lt_add_right (current.visible_size _) _
          · exact full current pending writer h hcapacity

end MCode.Render
