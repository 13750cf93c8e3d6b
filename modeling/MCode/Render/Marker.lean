import MCode.Render.Descent

/-!
# The marker of a cut rendering

A rendering that ends in the marker shows the first 4,095 lines of the listing
when no tree leaves out children early.  The walk over a tree always writes at
least one line for each node on its stack, so a walk that has left out children
fills the rendering; what it fills it with is another question.
-/

namespace MCode.Render

open MCode.Lib.Paths

variable {Value : Type} {unicode : Unicode Value} {width : Nat}

/-! ## Lines of a stack -/

def stackLines (unicode : Unicode Value) (width : Nat) (pending : List Pending) :
    List (List Char) :=
  pending.flatMap fun entry =>
    nodeLines unicode width entry.linePrefix entry.isLast entry.isRoot entry.node

variable (unicode width) in
theorem stackLines_cons (current : Pending) (pending : List Pending) :
    stackLines unicode width (current :: pending) =
      textLines unicode width current.text ++
        childrenLines unicode width current.childPrefix current.node.children ++
        stackLines unicode width pending := by
  obtain ⟨⟨label, children⟩, linePrefix, isLast, isRoot, depth⟩ := current
  rw [stackLines, List.flatMap_cons, nodeLines]
  rfl

theorem stackLines_append (front rest : List Pending) :
    stackLines unicode width (front ++ rest) =
      stackLines unicode width front ++ stackLines unicode width rest := List.flatMap_append

variable (unicode width) in
theorem stackLines_entries (linePrefix : List Char) (depth : Nat) (children : List TreeNode) :
    stackLines unicode width (entries linePrefix depth children) =
      childrenLines unicode width linePrefix children := by
  induction children with
  | nil => rfl
  | cons child rest ih =>
      rw [entries, childrenLines, ← ih, stackLines, List.flatMap_cons]
      rfl

variable (unicode width) in
theorem length_le_stackLines (pending : List Pending) :
    pending.length ≤ (stackLines unicode width pending).length := by
  induction pending with
  | nil => exact Nat.le_refl _
  | cons current pending ih =>
      have htext := textLines_pos unicode width current.text
      rw [stackLines_cons, List.length_cons, List.length_append, List.length_append]
      omega

variable (unicode width) in
theorem length_le_childrenLines (linePrefix : List Char) (children : List TreeNode) :
    children.length ≤ (childrenLines unicode width linePrefix children).length := by
  rw [← stackLines_entries unicode width linePrefix 0 children,
    ← entries_length linePrefix 0 children]
  exact length_le_stackLines unicode width _

variable (unicode width) in
/-- Children before the last have the same lines in any longer list of children. -/
theorem childrenLines_front (linePrefix : List Char) (front : List TreeNode) :
    ∃ open_ : List (List Char), ∀ rest, rest ≠ [] →
      childrenLines unicode width linePrefix (front ++ rest) =
        open_ ++ childrenLines unicode width linePrefix rest := by
  induction front with
  | nil => exact ⟨[], fun _ _ => rfl⟩
  | cons child front ih =>
      obtain ⟨lines, hlines⟩ := ih
      refine ⟨nodeLines unicode width linePrefix false false child ++ lines, ?_⟩
      intro rest hrest
      have hmore : (front ++ rest).isEmpty = false := by simp [hrest]
      rw [List.cons_append, childrenLines, hmore, hlines rest hrest, List.append_assoc]

/-- However many children are kept, the lines of all but the last of them are those of
the listing. -/
theorem childrenLines_take {linePrefix : List Char} (h : Indented linePrefix)
    (children : List TreeNode) (keep : Nat) :
    (childrenLines unicode width linePrefix (children.take keep)).take
        (lineCounts (children.take (keep - 1))) =
      (childrenLines unicode width linePrefix children).take
        (lineCounts (children.take (keep - 1))) := by
  by_cases hkeep : 0 < keep ∧ keep ≤ children.length
  · obtain ⟨lines, hlines⟩ :=
      childrenLines_front unicode width linePrefix (children.take (keep - 1))
    have hkept : children.take keep =
        children.take (keep - 1) ++ (children.drop (keep - 1)).take 1 := by
      rw [← List.take_add]
      congr 1
      omega
    have hall : children = children.take (keep - 1) ++ children.drop (keep - 1) :=
      (List.take_append_drop ..).symm
    have hrest : children.drop (keep - 1) ≠ [] := by
      rw [← List.length_pos_iff, List.length_drop]
      omega
    have hnext : (children.drop (keep - 1)).take 1 ≠ [] := by
      rw [← List.length_pos_iff, List.length_take]
      have := List.length_pos_of_ne_nil hrest
      omega
    have hcount : lines.length = lineCounts (children.take (keep - 1)) := by
      have hlength := congrArg List.length (hlines _ hnext)
      rw [List.length_append, childrenLines_length h, childrenLines_length h,
        lineCounts_append] at hlength
      omega
    calc (childrenLines unicode width linePrefix (children.take keep)).take _
        = lines := by
          rw [hkept, hlines _ hnext, ← hcount, List.take_left]
      _ = (childrenLines unicode width linePrefix
            (children.take (keep - 1) ++ children.drop (keep - 1))).take
            (lineCounts (children.take (keep - 1))) := by
          rw [hlines _ hrest, ← hcount, List.take_left]
      _ = _ := by rw [← hall]
  · by_cases hzero : keep = 0
    · rw [hzero]
      rfl
    · have hall : children.take keep = children := List.take_of_length_le (by omega)
      rw [hall]

/-! ## How far the walk goes -/

variable (unicode) in
theorem pushed_length {writer : PlainWriter} (h : writer.lines.length ≤ MAX_PLAIN_LINES)
    (line : List Char) :
    (writer.pushLine unicode line).lines.length =
      min MAX_PLAIN_LINES
        (writer.lines.length + (textLines unicode writer.width line).length) := by
  rw [PlainWriter.pushLine_lines h, List.length_take, List.length_append]

theorem descend_lines (current : Pending) (pending : List Pending) (writer : PlainWriter) :
    (descend unicode current pending writer).2.lines =
      (writer.pushLine unicode current.text).lines := by
  unfold descend
  dsimp only
  split <;> rfl

theorem descend_width (current : Pending) (pending : List Pending) (writer : PlainWriter) :
    (descend unicode current pending writer).2.width = writer.width := by
  have hpushed : (writer.pushLine unicode current.text).width = writer.width :=
    writer.pushLine_width _
  unfold descend
  dsimp only
  split
  · exact hpushed
  · exact hpushed

theorem descend_truncated {current : Pending} {pending : List Pending} {writer : PlainWriter}
    (h : writer.lines.length ≤ MAX_PLAIN_LINES) (htruncated : writer.truncated = true) :
    (descend unicode current pending writer).2.truncated = true := by
  unfold descend
  dsimp only
  split
  · rfl
  · rw [PlainWriter.pushLine_truncated h, htruncated, Bool.true_or]

theorem renderPending_full {current : Pending} {pending : List Pending} {writer : PlainWriter}
    (hcapacity : ¬ writer.hasCapacity) :
    renderPending unicode (current :: pending) writer = writer.markTruncated := by
  rw [renderPending, if_neg hcapacity]

/-- A mark stays. -/
theorem renderPending_truncated {pending : List Pending} {writer : PlainWriter}
    (hstack : ∀ entry ∈ pending, entry.Shallow) (h : writer.lines.length ≤ MAX_PLAIN_LINES)
    (htruncated : writer.truncated = true) :
    (renderPending unicode pending writer).truncated = true := by
  induction pending, writer, hstack using walk_induction unicode with
  | nil writer =>
      rw [renderPending]
      exact htruncated
  | full current pending writer hstack hcapacity =>
      rw [renderPending_full hcapacity]
      rfl
  | step current pending writer hstack hcapacity ih =>
      rw [renderPending_descend hcapacity (hstack current List.mem_cons_self)]
      apply ih
      · rw [descend_lines, pushed_length unicode h]
        exact Nat.min_le_left ..
      · exact descend_truncated h htruncated

variable (unicode) in
/-- Every node that waits gets a line as long as there is room. -/
theorem renderPending_length {pending : List Pending} {writer : PlainWriter}
    (hstack : ∀ entry ∈ pending, entry.Shallow) (h : writer.lines.length ≤ MAX_PLAIN_LINES) :
    (renderPending unicode pending writer).lines.length ≤ MAX_PLAIN_LINES ∧
      min MAX_PLAIN_LINES (writer.lines.length + pending.length) ≤
        (renderPending unicode pending writer).lines.length := by
  induction pending, writer, hstack using walk_induction unicode with
  | nil writer =>
      rw [renderPending, List.length_nil]
      omega
  | full current pending writer hstack hcapacity =>
      rw [renderPending_full hcapacity]
      unfold PlainWriter.hasCapacity at hcapacity
      dsimp only [PlainWriter.markTruncated]
      omega
  | step current pending writer hstack hcapacity ih =>
      have hpushed := pushed_length unicode h current.text
      have htext := textLines_pos unicode writer.width current.text
      rw [descend_lines] at ih
      obtain ⟨hle, hge⟩ := ih (by omega)
      rw [renderPending_descend hcapacity (hstack current List.mem_cons_self)]
      refine ⟨hle, ?_⟩
      rw [List.length_cons]
      simp only [descend, List.length_append, Pending.visible_length] at hge
      dsimp only [descend]
      omega

theorem descend_stack (current : Pending) (pending : List Pending) (writer : PlainWriter) :
    stackLines unicode width (descend unicode current pending writer).1 =
      childrenLines unicode width current.childPrefix
        (current.node.children.take (keptCount unicode current pending writer)) ++
      stackLines unicode width pending := by
  dsimp only [descend]
  rw [stackLines_append, Pending.visible_eq (keptCount_le ..), stackLines_entries]

theorem descend_kept {current : Pending} {pending : List Pending} {writer : PlainWriter}
    (hkept : keptCount unicode current pending writer = current.node.children.length) :
    (descend unicode current pending writer).2 = writer.pushLine unicode current.text := by
  dsimp only [descend]
  exact if_neg (Nat.not_lt.2 (Nat.le_of_eq hkept.symm))

theorem descend_cut {current : Pending} {pending : List Pending} {writer : PlainWriter}
    (hkept : keptCount unicode current pending writer < current.node.children.length) :
    (descend unicode current pending writer).2.truncated = true := by
  dsimp only [descend]
  rw [if_pos hkept]
  rfl

/-- A round that leaves nothing out does not change what is to be listed. -/
theorem descend_listing {current : Pending} {pending : List Pending} {writer : PlainWriter}
    (h : writer.lines.length ≤ MAX_PLAIN_LINES) (hwidth : writer.width = width)
    (hroom : writer.lines.length + (textLines unicode width current.text).length ≤ MAX_PLAIN_LINES)
    (hkept : keptCount unicode current pending writer = current.node.children.length) :
    (descend unicode current pending writer).2.lines ++
        stackLines unicode width (descend unicode current pending writer).1 =
      writer.lines ++ stackLines unicode width (current :: pending) := by
  rw [descend_lines, PlainWriter.pushLine_lines h, hwidth, List.take_of_length_le (by simpa),
    descend_stack, hkept, List.take_length, stackLines_cons]
  simp only [List.append_assoc]

variable (unicode) in
/-- A listing that fits is shown as it is; one that does not fills the rendering. -/
theorem renderPending_whole {pending : List Pending} {writer : PlainWriter}
    (hstack : ∀ entry ∈ pending, entry.Shallow) (h : writer.lines.length ≤ MAX_PLAIN_LINES)
    (hwidth : writer.width = width) (htruncated : writer.truncated = false) :
    if (writer.lines ++ stackLines unicode width pending).length ≤ MAX_PLAIN_LINES then
      (renderPending unicode pending writer).truncated = false ∧
        (renderPending unicode pending writer).lines =
          writer.lines ++ stackLines unicode width pending
    else
      (renderPending unicode pending writer).truncated = true ∧
        (renderPending unicode pending writer).lines.length = MAX_PLAIN_LINES := by
  induction pending, writer, hstack using walk_induction unicode with
  | nil writer =>
      rw [stackLines, List.flatMap_nil, List.append_nil, if_pos h, renderPending]
      exact ⟨htruncated, rfl⟩
  | full current pending writer hstack hcapacity =>
      have hpos := length_le_stackLines unicode width (current :: pending)
      rw [renderPending_full hcapacity]
      unfold PlainWriter.hasCapacity at hcapacity
      rw [List.length_cons] at hpos
      rw [List.length_append, if_neg (by omega)]
      exact ⟨rfl, by dsimp only [PlainWriter.markTruncated]; omega⟩
  | step current pending writer hstack hcapacity ih =>
      rw [renderPending_descend hcapacity (hstack current List.mem_cons_self)]
      have hpushed := pushed_length unicode h current.text
      rw [hwidth] at hpushed
      have hnext : (descend unicode current pending writer).2.lines.length ≤ MAX_PLAIN_LINES := by
        rw [descend_lines]
        omega
      have hkeptCount : keptCount unicode current pending writer =
          min current.node.children.length
            (MAX_PLAIN_LINES - (writer.pushLine unicode current.text).lines.length -
              pending.length) := rfl
      have hlength := renderPending_length unicode (descend_shallow unicode hstack writer) hnext
      have hwaiting : (descend unicode current pending writer).1.length =
          keptCount unicode current pending writer + pending.length := by
        dsimp only [descend]
        rw [List.length_append, Pending.visible_length, Nat.min_eq_left (keptCount_le ..)]
      rw [hwaiting, descend_lines] at hlength
      have hlisting := stackLines_cons unicode width current pending
      have hchildren := length_le_childrenLines unicode width
        current.childPrefix current.node.children
      have hstackLines := length_le_stackLines unicode width pending
      have hcount := congrArg List.length hlisting
      rw [List.length_append, List.length_append] at hcount
      by_cases hexact : keptCount unicode current pending writer = current.node.children.length ∧
          writer.lines.length + (textLines unicode width current.text).length ≤ MAX_PLAIN_LINES
      · obtain ⟨hkept, hroom⟩ := hexact
        rw [← descend_listing h hwidth hroom hkept]
        apply ih hnext
        · rw [descend_width, hwidth]
        · rw [descend_kept hkept, PlainWriter.pushLine_truncated h, hwidth, htruncated,
            Bool.false_or, decide_eq_false_iff_not]
          omega
      · have hlong : ¬ (writer.lines ++ stackLines unicode width (current :: pending)).length ≤
            MAX_PLAIN_LINES := by
          rw [List.length_append]
          omega
        rw [if_neg hlong]
        have hmarked : (descend unicode current pending writer).2.truncated = true := by
          by_cases hkept :
              keptCount unicode current pending writer = current.node.children.length
          · rw [descend_kept hkept, PlainWriter.pushLine_truncated h, hwidth, htruncated,
              Bool.false_or, decide_eq_true_eq]
            omega
          · exact descend_cut (by omega)
        exact ⟨renderPending_truncated (descend_shallow unicode hstack writer) hnext hmarked, by omega⟩

theorem renderPending_width (pending : List Pending) (writer : PlainWriter) :
    (renderPending unicode pending writer).width = writer.width := by
  fun_induction renderPending unicode pending writer with
  | case1 => rfl
  | case2 current pending writer hcapacity pushed hdepth ih =>
      refine ih.trans ?_
      split
      · exact (PlainWriter.pushLine_width ..).trans (PlainWriter.pushLine_width ..)
      · exact PlainWriter.pushLine_width ..
  | case3 current pending writer hcapacity pushed hdepth childCount slots visibleCount marked ih =>
      refine ih.trans ?_
      show (if visibleCount < childCount then pushed.markTruncated else pushed).width = _
      split
      · exact PlainWriter.pushLine_width ..
      · exact PlainWriter.pushLine_width ..
  | case4 => rfl

/-! ## Where children are left out -/

/-- The condition on every waiting node, at the line where the listing has it. -/
def StackCutsLate : Nat → List Pending → Prop
  | _, [] => True
  | written, entry :: rest =>
      CutsLate written rest.length entry.node ∧
        StackCutsLate (written + entry.node.lineCount) rest

/-- From line 4,095 on nothing that is left out shows. -/
theorem cutsLate_of_le {written : Nat} (h : MAX_PLAIN_LINES - 1 ≤ written) (waiting : Nat)
    (node : TreeNode) : CutsLate written waiting node := by
  obtain ⟨label, children⟩ := node
  have hfull : MAX_PLAIN_LINES - (written + labelLines label) - waiting = 0 := by
    unfold labelLines
    omega
  rw [CutsLate, hfull, Nat.min_zero]
  refine ⟨fun _ => by omega, ?_⟩
  cases children with
  | nil => trivial
  | cons child rest => trivial

theorem stackCutsLate_of_le {written : Nat} (h : MAX_PLAIN_LINES - 1 ≤ written)
    (pending : List Pending) : StackCutsLate written pending := by
  induction pending generalizing written with
  | nil => trivial
  | cons entry rest ih => exact ⟨cutsLate_of_le h .., ih (by omega)⟩

theorem stackCutsLate_entries {linePrefix : List Char} {depth written keep : Nat}
    {children : List TreeNode} {pending : List Pending} (hkeep : keep ≤ children.length)
    (hchildren : ChildrenCutLate written pending.length keep children)
    (hrest : StackCutsLate (written + lineCounts (children.take keep)) pending) :
    StackCutsLate written (entries linePrefix depth (children.take keep) ++ pending) := by
  induction children generalizing keep written with
  | nil => simpa [entries, lineCounts] using hrest
  | cons child rest ih =>
      cases keep with
      | zero => simpa [entries, lineCounts] using hrest
      | succ keep =>
          rw [List.length_cons] at hkeep
          obtain ⟨hchild, hmore⟩ := hchildren
          rw [List.take_succ_cons, lineCounts, ← Nat.add_assoc] at hrest
          rw [List.take_succ_cons, entries, List.cons_append]
          refine ⟨?_, ih (by omega) hmore hrest⟩
          rw [List.length_append, entries_length, List.length_take, Nat.min_eq_left (by omega),
            Nat.add_comm]
          exact hchild

variable (unicode) in
/-- The condition on a node is what the walk needs when it has written the node's own
lines. -/
theorem cutsLate_kept {current : Pending} {pending : List Pending} {writer : PlainWriter}
    (h : writer.lines.length ≤ MAX_PLAIN_LINES) (hindent : Indented current.linePrefix)
    (hroom : writer.lines.length + labelLines current.node.label ≤ MAX_PLAIN_LINES)
    (hlate : CutsLate writer.lines.length pending.length current.node) :
    (keptCount unicode current pending writer < current.node.children.length →
      MAX_PLAIN_LINES - 1 ≤ writer.lines.length + labelLines current.node.label +
        lineCounts (current.node.children.take (keptCount unicode current pending writer - 1))) ∧
    ChildrenCutLate (writer.lines.length + labelLines current.node.label) pending.length
      (keptCount unicode current pending writer) current.node.children := by
  have hkept : keptCount unicode current pending writer =
      min current.node.children.length
        (MAX_PLAIN_LINES - (writer.lines.length + labelLines current.node.label) -
          pending.length) := by
    unfold keptCount PlainWriter.remainingCapacity
    rw [pushed_length unicode h, textLines_length, Pending.text_lines hindent,
      Nat.min_eq_right hroom]
  obtain ⟨⟨label, children⟩, linePrefix, isLast, isRoot, depth⟩ := current
  rw [CutsLate] at hlate
  rw [hkept]
  exact hlate

theorem lineCounts_take_le (children : List TreeNode) {fewer more : Nat} (h : fewer ≤ more) :
    lineCounts (children.take fewer) ≤ lineCounts (children.take more) := by
  have hmore : more = fewer + (more - fewer) := by omega
  rw [hmore, List.take_add, lineCounts_append]
  omega

/-- Texts with the same front behind the same lines have the same front. -/
theorem take_append_congr {α : Type} {lines first second more rest : List α} {count same : Nat}
    (hcount : count ≤ lines.length + same) (hfirst : same ≤ first.length)
    (hsecond : same ≤ second.length) (h : first.take same = second.take same) :
    (lines ++ (first ++ more)).take count = (lines ++ (second ++ rest)).take count := by
  have hless : count - lines.length ≤ same := by omega
  have htake := congrArg (List.take (count - lines.length)) h
  rw [List.take_take, List.take_take, Nat.min_eq_left hless] at htake
  have hside (side tail : List α) (hle : same ≤ side.length) :
      (lines ++ (side ++ tail)).take count =
        lines.take count ++ side.take (count - lines.length) := by
    rw [List.take_append, List.take_append_of_le_length (by omega)]
  rw [hside first more hfirst, hside second rest hsecond, htake]

theorem Pending.lineCount_eq (self : Pending) :
    self.node.lineCount = labelLines self.node.label + lineCounts self.node.children := by
  obtain ⟨⟨label, children⟩, linePrefix, isLast, isRoot, depth⟩ := self
  rw [TreeNode.lineCount]

/-- The condition goes from a node to what a round puts on the stack. -/
theorem descend_cutsLate {current : Pending} {pending : List Pending} {writer : PlainWriter}
    (h : writer.lines.length ≤ MAX_PLAIN_LINES) (hindent : Indented current.linePrefix)
    (hlate : StackCutsLate writer.lines.length (current :: pending)) :
    StackCutsLate (writer.pushLine unicode current.text).lines.length
      (descend unicode current pending writer).1 := by
  rw [pushed_length unicode h, textLines_length, Pending.text_lines hindent]
  by_cases hroom : writer.lines.length + labelLines current.node.label ≤ MAX_PLAIN_LINES
  · obtain ⟨hcut, hkids⟩ := cutsLate_kept unicode h hindent hroom hlate.1
    rw [Nat.min_eq_right hroom]
    dsimp only [descend]
    rw [Pending.visible_eq (keptCount_le ..)]
    apply stackCutsLate_entries (keptCount_le ..) hkids
    by_cases hkept : keptCount unicode current pending writer = current.node.children.length
    · rw [hkept, List.take_length, Nat.add_assoc, ← Pending.lineCount_eq]
      exact hlate.2
    · have hle := keptCount_le unicode current pending writer
      have hlast := hcut (by omega)
      have hmore := lineCounts_take_le current.node.children
        (Nat.sub_le (keptCount unicode current pending writer) 1)
      exact stackCutsLate_of_le (by omega) _
  · rw [Nat.min_eq_left (by omega)]
    exact stackCutsLate_of_le (by omega) _

/-- What a round leaves out shows from line 4,095 on only. -/
theorem descend_front {current : Pending} {pending : List Pending} {writer : PlainWriter}
    (h : writer.lines.length ≤ MAX_PLAIN_LINES) (hwidth : writer.width = width)
    (hindent : Indented current.linePrefix)
    (hlate : CutsLate writer.lines.length pending.length current.node) :
    ((writer.pushLine unicode current.text).lines ++
        (childrenLines unicode width current.childPrefix
          (current.node.children.take (keptCount unicode current pending writer)) ++
        stackLines unicode width pending)).take (MAX_PLAIN_LINES - 1) =
      (writer.lines ++ stackLines unicode width (current :: pending)).take
        (MAX_PLAIN_LINES - 1) := by
  have hlength : (textLines unicode width current.text).length =
      labelLines current.node.label := by
    rw [textLines_length, Pending.text_lines hindent]
  rw [stackLines_cons, List.append_assoc, ← List.append_assoc writer.lines,
    PlainWriter.pushLine_lines h, hwidth]
  by_cases hroom : writer.lines.length + labelLines current.node.label ≤ MAX_PLAIN_LINES
  · obtain ⟨hcut, -⟩ := cutsLate_kept unicode h hindent hroom hlate
    have hwhole : (writer.lines ++ textLines unicode width current.text).take MAX_PLAIN_LINES =
        writer.lines ++ textLines unicode width current.text := by
      apply List.take_of_length_le
      rw [List.length_append]
      omega
    rw [hwhole]
    by_cases hkept : keptCount unicode current pending writer = current.node.children.length
    · rw [hkept, List.take_length]
    · have hle := keptCount_le unicode current pending writer
      have hchildren := Pending.childPrefix_indented hindent
      have hmore := lineCounts_take_le current.node.children
        (Nat.sub_le (keptCount unicode current pending writer) 1)
      have hall := lineCounts_take_le current.node.children hle
      rw [List.take_length] at hall
      refine take_append_congr ?_ ?_ ?_ (childrenLines_take hchildren _ _)
      · have hlast := hcut (by omega)
        rw [List.length_append]
        omega
      · rw [childrenLines_length hchildren]
        exact hmore
      · rw [childrenLines_length hchildren]
        omega
  · have hlong : MAX_PLAIN_LINES ≤
        (writer.lines ++ textLines unicode width current.text).length := by
      rw [List.length_append]
      omega
    have hcut (lines rest : List (List Char)) (hle : MAX_PLAIN_LINES ≤ lines.length) :
        (lines ++ rest).take (MAX_PLAIN_LINES - 1) = lines.take (MAX_PLAIN_LINES - 1) :=
      List.take_append_of_le_length (by omega)
    rw [hcut _ _ hlong, hcut _ _ (by rw [List.length_take]; omega), List.take_take,
      Nat.min_eq_left (by omega)]

variable (unicode) in
/-- When children are left out late, the first 4,095 lines are those of the listing. -/
theorem renderPending_front {pending : List Pending} {writer : PlainWriter}
    (hstack : ∀ entry ∈ pending, entry.Shallow) (h : writer.lines.length ≤ MAX_PLAIN_LINES)
    (hwidth : writer.width = width) (hlate : StackCutsLate writer.lines.length pending) :
    (renderPending unicode pending writer).lines.take (MAX_PLAIN_LINES - 1) =
      (writer.lines ++ stackLines unicode width pending).take (MAX_PLAIN_LINES - 1) := by
  induction pending, writer, hstack using walk_induction unicode with
  | nil writer => rw [stackLines, List.flatMap_nil, List.append_nil, renderPending]
  | full current pending writer hstack hcapacity =>
      rw [renderPending_full hcapacity]
      unfold PlainWriter.hasCapacity at hcapacity
      rw [List.take_append_of_le_length (by omega)]
      rfl
  | step current pending writer hstack hcapacity ih =>
      have hshallow := hstack current List.mem_cons_self
      have hpushed := pushed_length unicode h current.text
      rw [descend_lines, descend_stack, descend_width] at ih
      rw [renderPending_descend hcapacity hshallow,
        ih (by omega) hwidth (descend_cutsLate h hshallow.indented hlate)]
      exact descend_front h hwidth hshallow.indented hlate.1

/-! ## Renderings -/

/-- Trees whose children are left out late are shown like any other block. -/
theorem finalLines_tree (hmarker : unicode.displayWidth OUTPUT_TRUNCATED ≤ 18) (tree : Tree)
    (hwidth : 18 ≤ width) (hheight : tree.root.height ≤ MAX_TREE_DEPTH)
    (hlate : CutsLate 0 0 tree.root) :
    (renderTree unicode tree (.new width)).finalLines unicode =
      shownLines (nodeLines unicode (min width MAX_PLAIN_WIDTH) [] true true tree.root) := by
  have hstack : ∀ entry ∈ [(⟨tree.root, [], true, true, 0⟩ : Pending)], entry.Shallow := by
    intro entry hentry
    rw [List.mem_singleton.1 hentry]
    exact ⟨by rwa [Nat.zero_add], fun c hc => absurd hc List.not_mem_nil⟩
  have hnew : (PlainWriter.new width).lines.length ≤ MAX_PLAIN_LINES := Nat.zero_le _
  have hlisting : (PlainWriter.new width).lines ++
      stackLines unicode (min width MAX_PLAIN_WIDTH) [⟨tree.root, [], true, true, 0⟩] =
      nodeLines unicode (min width MAX_PLAIN_WIDTH) [] true true tree.root := by
    rw [stackLines, List.flatMap_singleton]
    rfl
  have hcolumns : (PlainWriter.new width).width = min width MAX_PLAIN_WIDTH := rfl
  have hwhole := renderPending_whole unicode hstack hnew hcolumns rfl
  have hfront := renderPending_front unicode hstack hnew hcolumns ⟨hlate, trivial⟩
  have hwriter : (renderTree unicode tree (.new width)).width = min width MAX_PLAIN_WIDTH :=
    renderPending_width ..
  rw [hlisting] at hwhole hfront
  unfold PlainWriter.finalLines shownLines
  dsimp only
  rw [hwriter, truncateDisplayWidth_marker hmarker (by unfold MAX_PLAIN_WIDTH; omega)]
  unfold renderTree
  split at hwhole
  · rename_i hfits
    rw [if_neg (by rw [hwhole.1]; exact Bool.false_ne_true), if_pos hfits, hwhole.2]
  · rename_i hlong
    have hne : (renderPending unicode [⟨tree.root, [], true, true, 0⟩] (.new width)).lines ≠ [] := by
      rw [← List.length_pos_iff, hwhole.2]
      decide
    rw [if_pos hwhole.1, if_pos hne, if_neg hlong, ← hfront, List.dropLast_eq_take, hwhole.2]

theorem Writes.renderBlock {block : RenderBlock Value} (hblock : ∀ tree, block ≠ .Tree tree)
    (width : Nat) :
    Writes (min width MAX_PLAIN_WIDTH) (renderBlock unicode block (.new width))
      (block.listing unicode (min width MAX_PLAIN_WIDTH)) := by
  have hnew := Writes.new width
  cases block with
  | Text text => exact hnew.pushText text
  | Markdown text => exact hnew.pushText text
  | Diff diff => exact hnew.renderDiff diff
  | Table table => exact hnew.renderTable table
  | Tree tree => exact absurd rfl (hblock tree)
  | Progress progress => exact hnew.pushLine _
  | Error error => exact hnew.renderError error
  | Widget value => exact hnew.renderWidget value

/-- When children are left out late, the text is the listing, or its first 4,095 lines and
the marker. -/
theorem truncated_front (unicode : Unicode Value) (block : RenderBlock Value) (width : Nat)
    (hmarker : unicode.displayWidth OUTPUT_TRUNCATED ≤ 18) (hwidth : 18 ≤ width)
    (hheight : block.height ≤ MAX_TREE_DEPTH) (hlate : block.CutsLate) :
    block.toPlainText unicode width =
      ['\n'].intercalate (shownLines (block.listing unicode (min width MAX_PLAIN_WIDTH))) := by
  have hpos : (PlainWriter.new width).width ≠ 0 := by
    dsimp only [PlainWriter.new, MAX_PLAIN_WIDTH]
    omega
  unfold RenderBlock.toPlainText PlainWriter.finish
  dsimp only
  rw [if_neg hpos]
  congr 1
  by_cases hblock : ∃ tree, block = .Tree tree
  · obtain ⟨tree, rfl⟩ := hblock
    exact finalLines_tree hmarker tree hwidth hheight hlate
  · have hwrites : Writes (min width MAX_PLAIN_WIDTH) (renderBlock unicode block (.new width))
        (block.listing unicode (min width MAX_PLAIN_WIDTH)) :=
      Writes.renderBlock (fun tree htree => hblock ⟨tree, htree⟩) width
    exact hwrites.finalLines hmarker (by unfold MAX_PLAIN_WIDTH; omega)

/-- One column for each character, and each character a grapheme. -/
def monospace : Unicode Unit where
  displayWidth := List.length
  graphemes := List.map fun c => [c]
  toStringPretty := fun _ => none
  ellipsis := rfl
  empty := rfl
  segments := fun text => by
    induction text with
    | nil => rfl
    | cons c text ih => rw [List.map_cons, List.flatten_cons, ih, List.singleton_append]

theorem truncated_front_leaf :
    (RenderBlock.Tree ⟨⟨"a".toList, [⟨"b".toList, []⟩]⟩⟩).toPlainText monospace 18 =
      ['\n'].intercalate (shownLines
        ((RenderBlock.Tree ⟨⟨"a".toList, [⟨"b".toList, []⟩]⟩⟩).listing monospace 18)) :=
  truncated_front monospace _ 18 (by decide) (by decide) (by decide) (by decide)

/-! ## A node that seems to be the last -/

def leaf : TreeNode := ⟨[], []⟩

def branch : TreeNode := ⟨[], [leaf, leaf]⟩

/-- A root of 4,093 lines with two children, of which the first has two children. -/
def tallRoot : TreeNode := ⟨List.replicate 4092 '\n', [branch, leaf]⟩

theorem textLines_feeds (unicode : Unicode Value) (width count : Nat) :
    textLines unicode width (List.replicate count '\n') = List.replicate (count + 1) [] := by
  have hclean : sanitizeTerminalText (List.replicate count '\n') = List.replicate count '\n' := by
    unfold sanitizeTerminalText
    induction count with
    | zero => rfl
    | succ count ih =>
        rw [List.replicate_succ, sanitizeFrom]
        exact congrArg ('\n' :: ·) ih
  have hsplit : (List.replicate count '\n').splitOn '\n' = List.replicate (count + 1) [] := by
    clear hclean
    induction count with
    | zero => rfl
    | succ count ih =>
        rw [List.replicate_succ, List.splitOn_cons_eq_if_modifyHead, if_pos (beq_self_eq_true _),
          ih, ← List.replicate_succ]
  have hempty : truncateDisplayWidth unicode [] width = [] := by
    unfold truncateDisplayWidth
    dsimp only
    split
    · rfl
    · rw [if_pos ⟨Nat.not_lt_zero _, by rw [unicode.empty]; exact Nat.zero_le _⟩]
  rw [textLines, hclean, hsplit, List.map_replicate, hempty]

/-- A round with room for the lines of its node. -/
theorem renderPending_round (kept : Nat) {current : Pending} {pending rest : List Pending}
    {lines more : List (List Char)} {truncated marked : Bool} (hshallow : current.Shallow)
    (hmore : textLines monospace 18 current.text = more)
    (hroom : lines.length + more.length ≤ MAX_PLAIN_LINES)
    (hkept : kept = min current.node.children.length
      (MAX_PLAIN_LINES - (lines.length + more.length) - pending.length))
    (hrest : current.visible kept ++ pending = rest)
    (hmarked : (truncated || decide (kept < current.node.children.length)) = marked) :
    renderPending monospace (current :: pending) ⟨18, lines, truncated⟩ =
      renderPending monospace rest ⟨18, lines ++ more, marked⟩ := by
  have hpos := textLines_pos monospace 18 current.text
  rw [hmore] at hpos
  have hlength : (PlainWriter.mk 18 lines truncated).lines.length ≤ MAX_PLAIN_LINES := by
    dsimp only
    omega
  have hpushed : (PlainWriter.mk 18 lines truncated).pushLine monospace current.text =
      ⟨18, lines ++ more, truncated⟩ := by
    calc (PlainWriter.mk 18 lines truncated).pushLine monospace current.text
        = ⟨((PlainWriter.mk 18 lines truncated).pushLine monospace current.text).width,
            ((PlainWriter.mk 18 lines truncated).pushLine monospace current.text).lines,
            ((PlainWriter.mk 18 lines truncated).pushLine monospace current.text).truncated⟩ := rfl
      _ = ⟨18, lines ++ more, truncated⟩ := by
          rw [PlainWriter.pushLine_width, PlainWriter.pushLine_lines hlength,
            PlainWriter.pushLine_truncated hlength]
          dsimp only
          rw [hmore, List.take_of_length_le (by rwa [List.length_append]),
            decide_eq_false (Nat.not_lt.2 hroom), Bool.or_false]
  have hcapacity : (PlainWriter.mk 18 lines truncated).hasCapacity := by
    unfold PlainWriter.hasCapacity
    dsimp only
    omega
  have hcount : keptCount monospace current pending ⟨18, lines, truncated⟩ = kept := by
    unfold keptCount
    rw [hpushed, hkept, PlainWriter.remainingCapacity, List.length_append]
  rw [renderPending_descend hcapacity hshallow]
  unfold descend
  dsimp only
  rw [hcount, hpushed, hrest, ← hmarked]
  congr 1
  by_cases hcut : kept < current.node.children.length
  · rw [if_pos hcut, decide_eq_true hcut, Bool.or_true]
    rfl
  · rw [if_neg hcut, decide_eq_false hcut, Bool.or_false]

/-- The lines of the walk over this tree, before the marker takes the place of the last. -/
theorem renderTree_tallRoot :
    renderTree monospace ⟨tallRoot⟩ (.new 18) =
      ⟨18, List.replicate 4093 [] ++ ["|- ".toList, "|  `- ".toList, "`- ".toList], true⟩ := by
  have hroot : textLines monospace 18 (⟨tallRoot, [], true, true, 0⟩ : Pending).text =
      List.replicate 4093 [] := textLines_feeds monospace 18 4092
  have hlength : (List.replicate 4093 ([] : List Char)).length = 4093 := List.length_replicate
  calc renderTree monospace ⟨tallRoot⟩ (.new 18)
      = renderPending monospace [⟨tallRoot, [], true, true, 0⟩] ⟨18, [], false⟩ := rfl
    _ = renderPending monospace [⟨branch, [], false, false, 1⟩, ⟨leaf, [], true, false, 1⟩]
          ⟨18, [] ++ List.replicate 4093 [], false⟩ := by
        refine renderPending_round 2 ⟨?_, ?_⟩ hroot ?_ ?_ rfl rfl
        · decide
        · decide
        · rw [hlength]
          show 0 + 4093 ≤ 4096
          omega
        · rw [hlength]
          rfl
    _ = renderPending monospace [⟨leaf, "|  ".toList, true, false, 2⟩, ⟨leaf, [], true, false, 1⟩]
          ⟨18, [] ++ List.replicate 4093 [] ++ ["|- ".toList], true⟩ := by
        refine renderPending_round 1 ⟨?_, ?_⟩ ?_ ?_ ?_ rfl rfl
        · decide
        · decide
        · decide
        · rw [List.nil_append, hlength]
          show 4093 + 1 ≤ 4096
          omega
        · rw [List.nil_append, hlength]
          rfl
    _ = renderPending monospace [⟨leaf, [], true, false, 1⟩]
          ⟨18, [] ++ List.replicate 4093 [] ++ ["|- ".toList] ++ ["|  `- ".toList], true⟩ := by
        refine renderPending_round 0 ⟨?_, ?_⟩ ?_ ?_ ?_ rfl rfl
        · decide
        · decide
        · decide
        · rw [List.nil_append, List.length_append, hlength]
          show 4093 + 1 + 1 ≤ 4096
          omega
        · exact (Nat.zero_min _).symm
    _ = renderPending monospace []
          ⟨18, [] ++ List.replicate 4093 [] ++ ["|- ".toList] ++ ["|  `- ".toList] ++
            ["`- ".toList], true⟩ := by
        refine renderPending_round 0 ⟨?_, ?_⟩ ?_ ?_ ?_ rfl rfl
        · decide
        · decide
        · decide
        · rw [List.nil_append, List.length_append, List.length_append, hlength]
          show 4093 + 1 + 1 + 1 ≤ 4096
          omega
        · exact (Nat.zero_min _).symm
    _ = ⟨18, List.replicate 4093 [] ++ ["|- ".toList, "|  `- ".toList, "`- ".toList], true⟩ := by
        rw [renderPending, List.nil_append, List.append_assoc, List.append_assoc]
        rfl

theorem intercalate_injective {lines other : List (List Char)} (h : ∀ line ∈ lines, '\n' ∉ line)
    (hother : ∀ line ∈ other, '\n' ∉ line) (hne : lines ≠ []) (hotherNe : other ≠ [])
    (hsame : ['\n'].intercalate lines = ['\n'].intercalate other) : lines = other := by
  rw [← List.splitOn_intercalate '\n' h hne, hsame, List.splitOn_intercalate '\n' hother hotherNe]

/-- The last line before the marker is a first child, shown as the last of its siblings. -/
theorem last_connector_too_early :
    (RenderBlock.Tree ⟨tallRoot⟩ : RenderBlock Unit).height ≤ MAX_TREE_DEPTH ∧
      (RenderBlock.Tree ⟨tallRoot⟩).toPlainText monospace 18 ≠
        ['\n'].intercalate
          (shownLines ((RenderBlock.Tree ⟨tallRoot⟩).listing monospace 18)) := by
  refine ⟨by decide, ?_⟩
  have hlisting : (RenderBlock.Tree ⟨tallRoot⟩).listing monospace 18 =
      List.replicate 4093 [] ++
        ["|- ".toList, "|  |- ".toList, "|  `- ".toList, "`- ".toList] := by
    have hchildren : childrenLines monospace 18 [] [branch, leaf] =
        ["|- ".toList, "|  |- ".toList, "|  `- ".toList, "`- ".toList] := by decide
    rw [← hchildren, ← textLines_feeds monospace 18 4092]
    rfl
  have hshown : shownLines ((RenderBlock.Tree ⟨tallRoot⟩).listing monospace 18) =
      List.replicate 4093 [] ++ ["|- ".toList, "|  |- ".toList, OUTPUT_TRUNCATED] := by
    rw [hlisting, shownLines, List.length_append, List.length_replicate, if_neg (by decide),
      List.take_append, List.length_replicate, List.take_of_length_le, List.append_assoc]
    · rfl
    · rw [List.length_replicate]
      decide
  have hne (last : List (List Char)) (h : last ≠ []) :
      List.replicate 4093 ([] : List Char) ++ last ≠ [] := List.append_ne_nil_of_right_ne_nil _ h
  have hfinal : (RenderBlock.Tree ⟨tallRoot⟩).toPlainText monospace 18 =
      ['\n'].intercalate
        (List.replicate 4093 [] ++ ["|- ".toList, "|  `- ".toList, OUTPUT_TRUNCATED]) := by
    have hmarker : truncateDisplayWidth monospace OUTPUT_TRUNCATED 18 = OUTPUT_TRUNCATED :=
      truncateDisplayWidth_marker (by decide) (Nat.le_refl _)
    have hwriter : renderBlock monospace (.Tree ⟨tallRoot⟩) (.new 18) =
        ⟨18, List.replicate 4093 [] ++ ["|- ".toList, "|  `- ".toList, "`- ".toList], true⟩ :=
      renderTree_tallRoot
    unfold RenderBlock.toPlainText PlainWriter.finish PlainWriter.finalLines
    dsimp only
    rw [if_neg (by decide), hwriter, if_pos rfl, if_pos (hne _ (List.cons_ne_nil _ _)), hmarker,
      List.dropLast_append_of_ne_nil (List.cons_ne_nil _ _), List.append_assoc]
    rfl
  rw [hshown, hfinal]
  intro hsame
  have hclean (last : List (List Char)) (h : ∀ line ∈ last, '\n' ∉ line) :
      ∀ line ∈ List.replicate 4093 ([] : List Char) ++ last, '\n' ∉ line := by
    intro line hline
    rcases List.mem_append.1 hline with hline | hline
    · rw [List.eq_of_mem_replicate hline]
      exact List.not_mem_nil
    · exact h line hline
  have hlines := intercalate_injective (hclean _ (by decide)) (hclean _ (by decide))
    (hne _ (List.cons_ne_nil _ _)) (hne _ (List.cons_ne_nil _ _)) hsame
  exact absurd (List.append_cancel_left hlines) (by decide)

end MCode.Render
