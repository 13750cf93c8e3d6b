import MCode.Adapter.Semantics
import MCode.Lib.Results
import MCode.Validation.WireTree

/-!
# The tree of an accepted contract

The structural validator accepts a contract only if its nodes are one tree
under the last of them, the recorded parents are those of the tree, and its
depths are within their limits.  What it checks of each node is kept beside.
-/

namespace MCode.Adapter

open MCode.Lib
open MCode.Lib.Results
open MCode.Validation (safe notAfter parentsOf parentsOf_getD parentsOf_set parentsOf_nil)

def nodesArena (nodes : List ContractNode) : Arena ContractNode :=
  nodes.map fun node => (node, node.body.references)

/-- The nodes of a contract, with their references. -/
def contractArena (contract : AdapterContractV1) : Arena ContractNode :=
  nodesArena contract.tree.nodes

theorem nodesArena_length (nodes : List ContractNode) :
    (nodesArena nodes).length = nodes.length :=
  List.length_map ..

theorem nodesArena_getElem? (nodes : List ContractNode) (index : Nat) :
    (nodesArena nodes)[index]? = nodes[index]?.map fun node => (node, node.body.references) :=
  List.getElem?_map ..

theorem nodesArena_children {nodes : List ContractNode} {index : Nat} {node : ContractNode}
    (h : nodes[index]? = some node) : (nodesArena nodes).children index = node.body.references := by
  refine @Arena.children_of_found _ _ _ node _ ?_
  rw [nodesArena_getElem?, h]
  rfl

theorem ensure_ok {condition : Bool} {error : AdapterValidationError} :
    ensure condition error = .ok () ↔ condition = true := by
  unfold ensure
  cases condition <;> simp

/-! ## The references of one node -/

/-- The references of a node, one after the other. -/
def addReferences (index : Nat) (children : List Nat) (references : References) :
    AdapterValidationResult References :=
  children.foldlM (fun references child => addReference index child references) references

/-- A child stands at a key. -/
def AtKey (contract : AdapterContractV1) (child : Nat) : Prop :=
  ∃ key, segmentOf contract child = some (.Key key)

theorem validateChildren_ok {contract : AdapterContractV1} {index : Nat} {children : List Nat}
    {previous : Option String} {references after : References}
    (h : validateChildren contract index children previous references = .ok after) :
    addReferences index children references = .ok after ∧
      ∀ child ∈ children, AtKey contract child := by
  induction children generalizing previous references with
  | nil => exact ⟨h, nofun⟩
  | cons child children ih =>
      obtain ⟨added, hadded, h⟩ := bind_ok.1 h
      split at h
      · rename_i key hkey
        obtain ⟨-, h⟩ := bind_unit_ok.1 h
        split at h
        · cases h
        · obtain ⟨hrest, hkeys⟩ := ih h
          refine ⟨?_, List.forall_mem_cons.2 ⟨⟨key, hkey⟩, hkeys⟩⟩
          unfold addReferences
          rw [List.foldlM_cons]
          exact bind_ok.2 ⟨added, hadded, hrest⟩
      · cases h

theorem validateCases_ok {contract : AdapterContractV1} {index ordinal : Nat}
    {cases : List ContractCase} {references after : References}
    (h : validateCases contract index cases ordinal references = .ok after) :
    addReferences index (cases.map (·.node)) references = .ok after ∧
      ∀ (k : Nat) (chosen : ContractCase), cases[k]? = some chosen →
        chosen.variantOrdinal = ordinal + k := by
  induction cases generalizing ordinal references with
  | nil => exact ⟨h, nofun⟩
  | cons first cases ih =>
      rw [validateCases] at h
      split at h
      · cases h
      · rename_i hordinal
        obtain ⟨added, hadded, h⟩ := bind_ok.1 h
        split at h
        · cases h
        · obtain ⟨hrest, hordinals⟩ := ih h
          refine ⟨?_, fun k chosen hchosen => ?_⟩
          · unfold addReferences
            rw [List.map_cons, List.foldlM_cons]
            exact bind_ok.2 ⟨added, hadded, hrest⟩
          · cases k with
            | zero =>
                cases hchosen
                simpa using hordinal
            | succ k =>
                rw [hordinals k chosen hchosen]
                omega

/-- What is checked of the body of a node. -/
def BodyOk (contract : AdapterContractV1) : ContractNodeBody → Prop
  | .Object object => ∀ child ∈ object.children, AtKey contract child
  | .Array array => validArrayItemShape contract array.collection array.item = true
  | .Switch switch =>
      switch.cases.length = switch.source.variantCount ∧
        ∀ (k : Nat) (chosen : ContractCase), switch.cases[k]? = some chosen →
          chosen.variantOrdinal = k
  | .Value value => legalTransform contract value.source value.transform = true
  | .Constant _ => True

theorem validateBody_ok {contract : AdapterContractV1} {index : Nat} {body : ContractNodeBody}
    {references after : References}
    (h : validateBody contract index body references = .ok after) :
    addReferences index body.references references = .ok after ∧ BodyOk contract body := by
  cases body with
  | Object object => exact validateChildren_ok h
  | Array array =>
      rw [validateBody] at h
      split at h
      · cases h
      · obtain ⟨added, hadded, h⟩ := bind_ok.1 h
        split at h
        · cases h
        · obtain ⟨hshape, h⟩ := bind_unit_ok.1 h
          cases h
          refine ⟨?_, ensure_ok.1 hshape⟩
          exact bind_ok.2 ⟨after, hadded, rfl⟩
  | Switch switch =>
      rw [validateBody] at h
      split at h
      · cases h
      · rename_i hcount
        obtain ⟨hadded, hordinals⟩ := validateCases_ok h
        refine ⟨hadded, by simpa using hcount, fun k chosen hchosen => ?_⟩
        rw [hordinals k chosen hchosen, Nat.zero_add]
  | Value value =>
      obtain ⟨hlegal, h⟩ := bind_unit_ok.1 h
      cases h
      exact ⟨rfl, ensure_ok.1 hlegal⟩
  | Constant constant =>
      obtain ⟨-, h⟩ := bind_unit_ok.1 h
      cases h
      exact ⟨rfl, trivial⟩

/-- References counted and parents expected are those of a list of edges. -/
structure Counted (total : Nat) (references : References) (children : List Nat)
    (edge : Nat → Nat → Prop) : Prop where
  counts : references.counts = parentsOf total children
  expected : ∀ child parent, references.expectedParent.getD child none = some parent →
    edge child parent

theorem addReference_ok {total parent child : Nat} {references after : References}
    {children : List Nat} {edge : Nat → Nat → Prop}
    (hcounted : Counted total references children edge)
    (h : addReference parent child references = .ok after) :
    child < parent ∧ Counted total after (children ++ [child])
      fun other above => edge other above ∨ (other = child ∧ above = parent) := by
  have hlength : (parentsOf total children).length = total := by simp [parentsOf]
  unfold addReference at h
  rw [hcounted.counts, hlength] at h
  split at h
  · cases h
  · rename_i hbounds
    simp only [Bool.or_eq_true, decide_eq_true_eq, not_or, Nat.not_le, ge_iff_le] at hbounds
    dsimp only at h
    rw [parentsOf_getD children hbounds.2] at h
    split at h
    · cases h
    · split at h
      · cases h
      · cases h
        refine ⟨hbounds.1, parentsOf_set total child children, fun other above habove => ?_⟩
        by_cases hsame : other = child
        · subst hsame
          by_cases hinside : other < references.expectedParent.length
          · rw [List.getD_eq_getElem?_getD, List.getElem?_set_self hinside] at habove
            cases habove
            exact .inr ⟨rfl, rfl⟩
          · rw [List.getD_eq_getElem?_getD, List.getElem?_eq_none (by simpa using hinside)] at habove
            cases habove
        · rw [List.getD_eq_getElem?_getD, List.getElem?_set_ne (Ne.symm hsame)] at habove
          exact .inl (hcounted.expected other above
            (by rw [List.getD_eq_getElem?_getD]; exact habove))

theorem addReferences_ok {total index : Nat} {added children : List Nat}
    {references after : References} {edge : Nat → Nat → Prop}
    (hcounted : Counted total references children edge)
    (h : addReferences index added references = .ok after) :
    (∀ child ∈ added, child < index) ∧ Counted total after (children ++ added)
      fun other above => edge other above ∨ (other ∈ added ∧ above = index) := by
  induction added generalizing references children edge with
  | nil =>
      cases h
      rw [List.append_nil]
      exact ⟨nofun, hcounted.counts, fun child parent hchild =>
        .inl (hcounted.expected child parent hchild)⟩
  | cons child added ih =>
      unfold addReferences at h
      rw [List.foldlM_cons] at h
      obtain ⟨middle, hmiddle, h⟩ := bind_ok.1 h
      obtain ⟨hlt, hfirst⟩ := addReference_ok hcounted hmiddle
      obtain ⟨hrest, hafter⟩ := ih hfirst h
      rw [List.append_cons]
      refine ⟨List.forall_mem_cons.2 ⟨hlt, hrest⟩, hafter.counts, fun other above habove => ?_⟩
      rcases hafter.expected other above habove with (hold | ⟨rfl, rfl⟩) | ⟨hmem, rfl⟩
      · exact .inl hold
      · exact .inr ⟨List.mem_cons_self, rfl⟩
      · exact .inr ⟨List.mem_cons_of_mem _ hmem, rfl⟩

/-! ## The loop over the nodes -/

/-- The depth of a node over those that it refers to. -/
def depthOver (_ : ContractNode) (depths : List Nat) : Nat := depths.foldl max 0 + 1

theorem nodeDepth_ok {node : ContractNode} {depths : List Nat} {depth : Nat}
    (h : nodeDepth node.body depths = .ok depth) :
    depth = depthOver node (node.body.references.map (depths.getD · 0)) := by
  unfold nodeDepth at h
  dsimp only at h
  split at h <;> cases h
  rfl

/-- What is known of the nodes that were gone through. -/
structure NodesChecked (contract : AdapterContractV1) (total : Nat) (nodes : List ContractNode)
    (references : References) (depths : List Nat) : Prop where
  counted : Counted total references (nodesArena nodes).references
    fun child parent => child ∈ (nodesArena nodes).children parent
  depths : depths = (nodesArena nodes).evaluate depthOver 0
  below : (nodesArena nodes).Downward
  checked : ∀ node ∈ nodes, BodyOk contract node.body ∧
    validatePresence node.presence node.presenceSource = .ok ()

theorem NodesChecked.step {contract : AdapterContractV1} {total depth : Nat}
    {nodes : List ContractNode} {node : ContractNode} {references after : References}
    {depths : List Nat} (h : NodesChecked contract total nodes references depths)
    (hpresence : validatePresence node.presence node.presenceSource = .ok ())
    (hbody : validateBody contract depths.length node.body references = .ok after)
    (hdepth : nodeDepth node.body depths = .ok depth) :
    NodesChecked contract total (nodes ++ [node]) after (depths ++ [depth]) := by
  have hlength : depths.length = nodes.length := by
    rw [h.depths, Arena.evaluate_length, nodesArena_length]
  have hconcat : nodesArena (nodes ++ [node]) =
      nodesArena nodes ++ [(node, node.body.references)] := by
    simp [nodesArena]
  obtain ⟨hadded, hbody⟩ := validateBody_ok hbody
  obtain ⟨hdown, hcounted⟩ := addReferences_ok h.counted hadded
  rw [hlength] at hdown hcounted
  refine ⟨⟨?_, fun child parent hchild => ?_⟩, ?_, ?_, ?_⟩
  · rw [hconcat, hcounted.counts]
    simp [Arena.references]
  · rcases hcounted.expected child parent hchild with hold | ⟨hmem, rfl⟩
    · unfold Arena.children at hold ⊢
      by_cases hparent : parent < nodes.length
      · rw [hconcat, List.getElem?_append_left (by rw [nodesArena_length]; exact hparent)]
        exact hold
      · rw [List.getElem?_eq_none (by rw [nodesArena_length]; omega)] at hold
        cases hold
    · rw [@nodesArena_children _ _ node (by simp)]
      exact hmem
  · rw [hconcat, Arena.evaluate_concat, ← h.depths, nodeDepth_ok hdepth]
  · rw [hconcat]
    refine h.below.concat ?_
    rw [nodesArena_length]
    exact hdown
  · intro other hother
    rcases List.mem_append.1 hother with hother | hother
    · exact h.checked other hother
    · rw [List.mem_singleton.1 hother]
      exact ⟨hbody, hpresence⟩

theorem NodesChecked.start (contract : AdapterContractV1) (total : Nat) :
    NodesChecked contract total [] ⟨List.replicate total 0, List.replicate total none⟩ [] where
  counted := by
    refine ⟨parentsOf_nil total, fun child parent hchild => ?_⟩
    by_cases hinside : child < total
    · simp [List.getD_eq_getElem?_getD, hinside] at hchild
    · simp [List.getD_eq_getElem?_getD, hinside] at hchild
  depths := rfl
  below := fun _ _ _ hfound => by simp [nodesArena] at hfound
  checked := fun node hnode => by cases hnode

theorem NodesChecked.run {contract : AdapterContractV1} {total : Nat}
    {before nodes : List ContractNode} {references after : References} {depths final : List Nat}
    (h : NodesChecked contract total before references depths)
    (hrun : validateNodes contract nodes references depths = .ok (after, final)) :
    NodesChecked contract total (before ++ nodes) after final := by
  induction nodes generalizing before references depths with
  | nil =>
      cases hrun
      rw [List.append_nil]
      exact h
  | cons node nodes ih =>
      rw [validateNodes] at hrun
      obtain ⟨hpresence, hrun⟩ := bind_unit_ok.1 hrun
      obtain ⟨middle, hbody, hrun⟩ := bind_ok.1 hrun
      obtain ⟨depth, hdepth, hrun⟩ := bind_ok.1 hrun
      rw [List.append_cons]
      exact ih (h.step hpresence hbody hdepth) hrun

/-! ## The loop over the paths -/

/-- The recorded parent of a node. -/
def parentOf (contract : AdapterContractV1) (index : Nat) : Option Nat :=
  contract.tree.nodes[index]?.bind (·.parent)

/-- One more for a node with a segment. -/
def segmentDepth (contract : AdapterContractV1) (index : Nat) : Nat :=
  if (segmentOf contract index).isSome then 1 else 0

/-- The parent of a node is recorded, and its path is one on from the parent's. -/
def Placed (contract : AdapterContractV1) (expectedParent : List (Option Nat))
    (pathDepths : List Nat) (index : Nat) : Prop :=
  ∃ parent, parentOf contract index = some parent ∧ index < parent ∧
    expectedParent.getD index none = some parent ∧
    pathDepths.getD index 0 = pathDepths.getD parent 0 + segmentDepth contract index

theorem pathStep_ok {contract : AdapterContractV1} {expectedParent : List (Option Nat)}
    {pathDepths after : List Nat} {index : Nat}
    (h : pathStep contract expectedParent pathDepths index = .ok after) :
    ∃ parent, parentOf contract index = some parent ∧ index < parent ∧
      expectedParent.getD index none = some parent ∧
      after = pathDepths.set index (pathDepths.getD parent 0 + segmentDepth contract index) := by
  unfold pathStep at h
  split at h
  · cases h
  · rename_i parent hparent
    split at h
    · cases h
    · rename_i hbounds
      simp only [Bool.or_eq_true, decide_eq_true_eq, not_or, Nat.not_le, bne_iff_ne, ne_eq,
        not_not] at hbounds
      refine ⟨parent, hparent, hbounds.1.1, hbounds.2, ?_⟩
      change (if pathDepths.getD parent 0 + segmentDepth contract index > 255 then _ else _) = _ at h
      by_cases hlimit : pathDepths.getD parent 0 + segmentDepth contract index > 255
      · rw [if_pos hlimit] at h
        cases h
      · rw [if_neg hlimit] at h
        exact (Except.ok.inj h).symm

theorem getD_set_ne {values : List Nat} {index other value : Nat} (h : index ≠ other) :
    (values.set index value).getD other 0 = values.getD other 0 := by
  rw [List.getD_eq_getElem?_getD, List.getElem?_set_ne h, ← List.getD_eq_getElem?_getD]

/-- From the last node below the root to the first; a node comes after its parent. -/
theorem paths_ok {contract : AdapterContractV1} {expectedParent : List (Option Nat)}
    {start final : List Nat} {count : Nat} (hcount : count ≤ start.length)
    (h : (List.range count).reverse.foldlM (pathStep contract expectedParent) start = .ok final) :
    (∀ index < count, Placed contract expectedParent final index) ∧
      ∀ index ≥ count, final.getD index 0 = start.getD index 0 := by
  induction count generalizing start with
  | zero =>
      cases h
      exact ⟨nofun, fun _ _ => rfl⟩
  | succ count ih =>
      rw [List.range_succ, List.reverse_append, List.reverse_singleton, List.singleton_append,
        List.foldlM_cons] at h
      obtain ⟨middle, hmiddle, h⟩ := bind_ok.1 h
      obtain ⟨parent, hparent, hlt, hexpected, rfl⟩ := pathStep_ok hmiddle
      obtain ⟨hplaced, hlater⟩ := ih (by rw [List.length_set]; omega) h
      refine ⟨fun index hindex => ?_, fun index hindex => ?_⟩
      · by_cases hsame : index = count
        · subst hsame
          refine ⟨parent, hparent, hlt, hexpected, ?_⟩
          rw [hlater index (Nat.le_refl _), hlater parent (Nat.le_of_lt hlt),
            getD_set_ne (Nat.ne_of_lt hlt), List.getD_eq_getElem?_getD,
            List.getElem?_set_self hcount]
          rfl
        · exact hplaced index (by omega)
      · rw [hlater index (by omega), getD_set_ne (by omega)]

/-! ## Accepted trees -/

/-- A path from the root down to a node, by the segments of the nodes on it. -/
inductive PathTo (contract : AdapterContractV1) : Nat → List PathSegment → Prop
  | root : PathTo contract contract.tree.root []
  | child {parent index : Nat} {path : List PathSegment}
      (above : PathTo contract parent path)
      (edge : index ∈ (contractArena contract).children parent) :
      PathTo contract index (path ++ (segmentOf contract index).toList)

/-- The nodes of a contract are one tree under the last of them, with the parents recorded, at
most `MAX_CONTRACT_DEPTH` nodes deep, and with paths of at most `MAX_PATH_DEPTH` segments. -/
structure WellTreed (contract : AdapterContractV1) : Prop where
  root : contract.tree.root + 1 = contract.tree.nodes.length
  oneTree : (contractArena contract).OneTree
  parents : ∀ index parent, parentOf contract index = some parent ↔
    index ∈ (contractArena contract).children parent
  depth : ∀ index tree, (contractArena contract).Denotes index tree →
    tree.height ≤ MAX_CONTRACT_DEPTH
  reached : ∀ index < contract.tree.nodes.length, ∃ path, PathTo contract index path
  path : ∀ index path, PathTo contract index path → path.length ≤ MAX_PATH_DEPTH

theorem contractArena_length (contract : AdapterContractV1) :
    (contractArena contract).length = contract.tree.nodes.length :=
  nodesArena_length _

/-- What the two loops of `validate_tree` have found when they pass. -/
structure MeasuredTree (contract : AdapterContractV1) (measures : TreeMeasures) : Prop where
  root : contract.tree.root + 1 = contract.tree.nodes.length
  nodes : NodesChecked contract contract.tree.nodes.length contract.tree.nodes measures.references
    measures.depths
  placed : ∀ index < contract.tree.root,
    Placed contract measures.references.expectedParent measures.pathDepths index
  top : measures.pathDepths.getD contract.tree.root 0 = 0
  allowed : measuresAllowed contract.tree.root measures = true
  rootParent : parentOf contract contract.tree.root = none

theorem measureTree_ok {contract : AdapterContractV1} {measures : TreeMeasures}
    (hroot : contract.tree.root + 1 = contract.tree.nodes.length)
    (hparent : parentOf contract contract.tree.root = none)
    (h : measureTree contract = .ok measures)
    (hallowed : measuresAllowed contract.tree.root measures = true) :
    MeasuredTree contract measures := by
  unfold measureTree at h
  obtain ⟨⟨references, depths⟩, hnodes, h⟩ := bind_ok.1 h
  obtain ⟨pathDepths, hpaths, h⟩ := bind_ok.1 h
  cases h
  have hmeasured := (NodesChecked.start contract contract.tree.nodes.length).run hnodes
  rw [List.nil_append] at hmeasured
  obtain ⟨hplaced, hlater⟩ := paths_ok (by simp; omega) hpaths
  refine ⟨hroot, hmeasured, hplaced, ?_, hallowed, hparent⟩
  rw [hlater _ (Nat.le_refl _)]
  simp [List.getD_eq_getElem?_getD, ← hroot]

section

variable {contract : AdapterContractV1} {measures : TreeMeasures}

theorem MeasuredTree.oneTree (h : MeasuredTree contract measures) :
    (contractArena contract).OneTree where
  nonempty := by
    rw [← List.length_pos_iff, contractArena_length, ← h.root]
    exact Nat.succ_pos _
  below := h.nodes.below
  once := by
    intro index hindex
    rw [contractArena_length, ← h.root, Nat.add_lt_add_iff_right] at hindex
    have hallowed := h.allowed
    simp only [measuresAllowed, Bool.and_eq_true, List.all_eq_true, beq_iff_eq] at hallowed
    have hcounts := hallowed.1.1.2
    rw [h.nodes.counted.counts] at hcounts
    refine hcounts _ (List.mem_take_iff_getElem.2 ⟨index, ?_, ?_⟩)
    · simp only [parentsOf, List.length_map, List.length_range]
      have hroot := h.root
      omega
    · simp [parentsOf, contractArena]

theorem MeasuredTree.parent_edge (h : MeasuredTree contract measures) {index parent : Nat}
    (hparent : parentOf contract index = some parent) :
    index ∈ (contractArena contract).children parent ∧
      measures.pathDepths.getD index 0 =
        measures.pathDepths.getD parent 0 + segmentDepth contract index := by
  have hbelow : index < contract.tree.root := by
    by_contra hnot
    by_cases hsame : index = contract.tree.root
    · rw [hsame, h.rootParent] at hparent
      cases hparent
    · have hroot := h.root
      unfold parentOf at hparent
      rw [List.getElem?_eq_none (by omega)] at hparent
      cases hparent
  obtain ⟨other, hother, -, hexpected, hdepth⟩ := h.placed index hbelow
  rw [hparent] at hother
  cases hother
  exact ⟨h.nodes.counted.expected index parent hexpected, hdepth⟩

/-- A node that another refers to comes before that, and so before the root. -/
theorem MeasuredTree.edge_lt (h : MeasuredTree contract measures) {index parent : Nat}
    (hedge : index ∈ (contractArena contract).children parent) :
    index < contract.tree.root ∧ parent < contract.tree.nodes.length := by
  have hlt : index < parent := h.oneTree.below.children_lt hedge
  have hinside := Arena.lt_length_of_children hedge
  rw [contractArena_length] at hinside
  have hroot := h.root
  omega

theorem MeasuredTree.parents (h : MeasuredTree contract measures) (index parent : Nat) :
    parentOf contract index = some parent ↔
      index ∈ (contractArena contract).children parent := by
  refine ⟨fun hparent => (h.parent_edge hparent).1, fun hedge => ?_⟩
  obtain ⟨other, hother, -⟩ := h.placed index (h.edge_lt hedge).1
  rw [hother, h.oneTree.parent_unique (h.parent_edge hother).1 hedge]

theorem MeasuredTree.depth (h : MeasuredTree contract measures) {index : Nat}
    {tree : Rose ContractNode} (htree : (contractArena contract).Denotes index tree) :
    tree.height ≤ MAX_CONTRACT_DEPTH := by
  have hallowed := h.allowed
  simp only [measuresAllowed, Bool.and_eq_true, List.all_eq_true, decide_eq_true_eq] at hallowed
  have hvalue : measures.depths.getD index 0 = tree.height := by
    rw [h.nodes.depths]
    exact Arena.evaluate_eq h.nodes.below depthOver 0 htree
  by_cases hinside : index < measures.depths.length
  · rw [← hvalue, List.getD_eq_getElem _ _ hinside]
    exact hallowed.1.2 _ (List.getElem_mem hinside)
  · rw [← hvalue, List.getD_eq_default _ _ (Nat.not_lt.1 hinside)]
    exact Nat.zero_le _

theorem MeasuredTree.reached (h : MeasuredTree contract measures) {index : Nat}
    (hindex : index < contract.tree.nodes.length) : ∃ path, PathTo contract index path := by
  have hroot := h.root
  induction hdistance : contract.tree.root - index using Nat.strongRecOn generalizing index with
  | _ distance ih =>
      by_cases hlast : index = contract.tree.root
      · exact ⟨[], hlast ▸ .root⟩
      · obtain ⟨parent, hparent, hlt, -⟩ := h.placed index (by omega)
        have hedge := (h.parent_edge hparent).1
        obtain ⟨path, hpath⟩ := ih (contract.tree.root - parent) (by omega) (h.edge_lt hedge).2 rfl
        exact ⟨_, .child hpath hedge⟩

theorem MeasuredTree.path_length (h : MeasuredTree contract measures) {index : Nat}
    {path : List PathSegment} (hpath : PathTo contract index path) :
    path.length = measures.pathDepths.getD index 0 := by
  induction hpath with
  | root => exact h.top.symm
  | @child parent index path _ edge ih =>
      rw [(h.parent_edge ((h.parents index parent).2 edge)).2, List.length_append, ih]
      unfold segmentDepth
      cases segmentOf contract index <;> rfl

theorem MeasuredTree.path_le (h : MeasuredTree contract measures) {index : Nat}
    {path : List PathSegment} (hpath : PathTo contract index path) :
    path.length ≤ MAX_PATH_DEPTH := by
  have hallowed := h.allowed
  simp only [measuresAllowed, Bool.and_eq_true, List.all_eq_true, decide_eq_true_eq] at hallowed
  rw [h.path_length hpath]
  cases hpath with
  | root =>
      rw [h.top]
      exact Nat.zero_le _
  | child above edge =>
      by_cases hinside : index < measures.pathDepths.length
      · have hbelow := (h.edge_lt edge).1
        rw [List.getD_eq_getElem _ _ hinside]
        exact (hallowed.2 _ (List.mem_take_iff_getElem.2
          ⟨index, by omega, rfl⟩)).2
      · rw [List.getD_eq_default _ _ (Nat.not_lt.1 hinside)]
        exact Nat.zero_le _

theorem MeasuredTree.wellTreed (h : MeasuredTree contract measures) : WellTreed contract where
  root := h.root
  oneTree := h.oneTree
  parents := h.parents
  depth := fun _ _ => h.depth
  reached := fun _ => h.reached
  path := fun _ _ => h.path_le

end

/-! ## Tables -/

/-- A table has a token for each variant of its source, and no two of them are the same. -/
structure TableOk (table : EnumTokenTable) : Prop where
  count : table.entries.length = table.source.variantCount
  distinct : (table.entries.map (·.token)).Nodup

theorem validateEntryTokens_ok {entries : List EnumTokenEntry} {ordinal : Nat}
    {tokens : List String} (h : validateEntryTokens entries ordinal tokens = .ok ()) :
    (entries.map (·.token)).Nodup ∧ ∀ entry ∈ entries, entry.token ∉ tokens := by
  induction entries generalizing ordinal tokens with
  | nil => exact ⟨List.nodup_nil, nofun⟩
  | cons entry entries ih =>
      rw [validateEntryTokens] at h
      split at h
      · cases h
      · obtain ⟨-, h⟩ := bind_unit_ok.1 h
        split at h
        · cases h
        · rename_i hfresh
          obtain ⟨hnodup, hothers⟩ := ih h
          rw [List.contains_iff_mem] at hfresh
          refine ⟨?_, List.forall_mem_cons.2 ⟨hfresh, fun other hother hmem => ?_⟩⟩
          · rw [List.map_cons, List.nodup_cons]
            refine ⟨fun hmem => ?_, hnodup⟩
            obtain ⟨other, hother, hsame⟩ := List.mem_map.1 hmem
            exact hothers other hother (hsame ▸ List.mem_cons_self)
          · exact hothers other hother (List.mem_cons_of_mem _ hmem)

theorem validateTable_ok {table : EnumTokenTable} (h : validateTable table = .ok ()) :
    TableOk table := by
  unfold validateTable at h
  split at h
  · cases h
  · rename_i hcount
    simp only [Bool.or_eq_true, bne_iff_ne, ne_eq, not_or, not_not] at hcount
    exact ⟨hcount.1, (validateEntryTokens_ok h).1⟩

theorem validateTables_ok {contract : AdapterContractV1} (h : validateTables contract = .ok ()) :
    ∀ table ∈ contract.tree.tables, TableOk table := by
  obtain ⟨used, -, h⟩ := bind_ok.1 h
  split at h
  · cases h
  · intro table htable
    exact validateTable_ok (forM_ok.1 h table htable)

/-! ## Accepted contracts -/

/-- What the structural validator establishes. -/
structure Structured (contract : AdapterContractV1) : Prop where
  treed : WellTreed contract
  body : ∀ node ∈ contract.tree.nodes, BodyOk contract node.body
  presence : ∀ node ∈ contract.tree.nodes,
    validatePresence node.presence node.presenceSource = .ok ()
  tables : ∀ table ∈ contract.tree.tables, TableOk table
  top : ∀ node, contract.tree.nodes[contract.tree.root]? = some node → rootAllowed node = true

theorem rootParent_none {contract : AdapterContractV1}
    (h : ∀ node, contract.tree.nodes[contract.tree.root]? = some node → rootAllowed node = true) :
    parentOf contract contract.tree.root = none := by
  unfold parentOf
  cases hnode : contract.tree.nodes[contract.tree.root]? with
  | none => rfl
  | some node =>
      have htop := h node hnode
      simp only [rootAllowed, Bool.and_eq_true, Option.isNone_iff_eq_none] at htop
      exact htop.1.1.1.1

theorem validateTreeShape_ok {contract : AdapterContractV1}
    (h : validateTreeShape contract = .ok ()) : Structured contract := by
  unfold validateTreeShape at h
  dsimp only at h
  split at h
  · cases h
  · rename_i hcount
    split at h
    · cases h
    · rename_i hroot
      split at h
      · cases h
      · rename_i hlast
        split at h
        · cases h
        · obtain ⟨htables, h⟩ := bind_unit_ok.1 h
          obtain ⟨measures, hmeasures, h⟩ := bind_ok.1 h
          split at h
          · cases h
          · rename_i hallowed
            simp only [Bool.or_eq_true, List.isEmpty_iff, not_or] at hcount
            simp only [bne_iff_ne, ne_eq, not_not] at hroot
            have hpos := List.length_pos_iff.2 hcount.1
            have hnext : contract.tree.root + 1 = contract.tree.nodes.length := by omega
            have htop : ∀ node, contract.tree.nodes[contract.tree.root]? = some node →
                rootAllowed node = true := by
              intro node hnode
              rw [hroot, ← List.getLast?_eq_getElem?] at hnode
              rw [hnode] at hlast
              simpa using hlast
            have hmeasured := measureTree_ok hnext (rootParent_none htop) hmeasures
              (by simpa using hallowed)
            have hnodes := hmeasured.nodes.checked
            exact ⟨hmeasured.wellTreed, fun node hnode => (hnodes node hnode).1,
              fun node hnode => (hnodes node hnode).2, validateTables_ok htables, htop⟩

theorem validateContract_ok {contract : AdapterContractV1}
    (h : validateContract contract = .ok ()) :
    Structured contract ∧ validateSemantics contract = .ok () := by
  unfold validateContract at h
  split at h
  · cases h
  · obtain ⟨hshape, h⟩ := bind_unit_ok.1 h
    obtain ⟨hsemantics, -⟩ := bind_unit_ok.1 h
    exact ⟨validateTreeShape_ok (mapError_ok.1 hshape), hsemantics⟩

end MCode.Adapter
