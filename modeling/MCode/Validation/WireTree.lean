import MCode.Lib.Arena
import MCode.Validation.Number

/-!
# Wire documents as trees

The nodes of a wire document are an arena: `validate_wire_json` accepts exactly
the arenas of one tree, with sorted keys, canonical numbers, safe texts, and
depth and charge within their limits.
-/

namespace MCode.Validation

open MCode.Lib

/-- A node without its references. -/
inductive WireLabel where
  | Null
  | Boolean (value : Bool)
  | Number (value : String)
  | Text (value : String)
  | Array
  | Object (keys : List String)
  deriving DecidableEq

def WireJsonNode.label : WireJsonNode → WireLabel
  | .NullValue => .Null
  | .BooleanValue value => .Boolean value
  | .NumberValue value => .Number value
  | .StringValue value => .Text value
  | .ArrayValue _ => .Array
  | .ObjectValue fields => .Object (fields.map (·.key))

def WireJsonNode.references : WireJsonNode → List Nat
  | .ArrayValue items => items
  | .ObjectValue fields => fields.map (·.value)
  | _ => []

def arenaOf (nodes : List WireJsonNode) : Arena WireLabel :=
  nodes.map fun node => (node.label, node.references)

/-- The charge of a node with so many children. -/
def labelCharge : WireLabel → Nat → Nat
  | .Null, _ => 4
  | .Boolean _, _ => 4 + 1
  | .Number value, _ => 4 + stringCharge value
  | .Text value, _ => 4 + stringCharge value
  | .Array, arity => 4 + (4 + 4 * arity)
  | .Object keys, _ => 4 + (4 + (keys.map fun key => stringCharge key + 4).sum)

/-- The order of keys, which is that of their bytes. -/
def KeyBefore (old key : String) : Prop := old.toList < key.toList

/-- A text of so many bytes, without control and bidirectional characters. -/
def SafeText (maximum : Nat) (value : String) : Prop :=
  utf8Len value.toList ≤ maximum ∧ ∀ c ∈ value.toList, isUnsafeChar c = false

theorem safe_iff {value : String} {maximum : Nat} :
    safe value maximum false = .ok () ↔ SafeText maximum value := by
  unfold safe SafeText
  by_cases hbytes : utf8Len value.toList > maximum
  · rw [if_pos hbytes]
    exact ⟨nofun, fun h => absurd h.1 (Nat.not_le.2 hbytes)⟩
  · rw [if_neg hbytes, Bool.false_and, Bool.false_or]
    by_cases hunsafe : value.toList.any isUnsafeChar = true
    · rw [if_pos hunsafe]
      obtain ⟨c, hc, hbad⟩ := List.any_eq_true.1 hunsafe
      refine ⟨nofun, fun h => ?_⟩
      rw [h.2 c hc] at hbad
      cases hbad
    · rw [if_neg hunsafe]
      rw [Bool.not_eq_true, List.any_eq_false] at hunsafe
      exact ⟨fun _ => ⟨by omega, fun c hc => by simpa using hunsafe c hc⟩, fun _ => rfl⟩

/-- What a node has to be by itself. -/
def LabelOk : WireLabel → Prop
  | .Number value => CanonicalNumber value.toList
  | .Text value => SafeText MAX_SAFE_TEXT_BYTES value
  | .Object keys => keys.IsChain KeyBefore ∧ ∀ key ∈ keys, SafeText MAX_KEY_BYTES key
  | _ => True

/-! ## References -/

/-- The counts of the references, for each of `total` nodes. -/
def parentsOf (total : Nat) (references : List Nat) : List Nat :=
  (List.range total).map references.count

theorem parentsOf_getD {total child : Nat} (references : List Nat) (h : child < total) :
    (parentsOf total references).getD child 0 = references.count child := by
  simp [parentsOf, h]

theorem parentsOf_set (total child : Nat) (references : List Nat) :
    (parentsOf total references).set child (references.count child + 1) =
      parentsOf total (references ++ [child]) := by
  refine List.ext_getElem (by simp [parentsOf]) fun k hk hk' => ?_
  simp only [parentsOf, List.length_set, List.length_map, List.length_range] at hk
  rw [List.getElem_set]
  simp only [parentsOf, List.getElem_map, List.getElem_range, List.count_append]
  by_cases hchild : child = k
  · subst hchild
    simp
  · rw [if_neg hchild, List.count_singleton, if_neg (by simpa using hchild)]
    rfl

/-- A reference is new and goes down. -/
theorem addParent_ok {total index child : Nat} {references : List Nat} {result : List Nat}
    (hindex : index ≤ total) (hnodup : references.Nodup) :
    addParent index child (parentsOf total references) = .ok result ↔
      (child < index ∧ (references ++ [child]).Nodup) ∧
        result = parentsOf total (references ++ [child]) := by
  have hfresh : (references ++ [child]).Nodup ↔ child ∉ references := by
    rw [List.nodup_append]
    simp
    grind
  rw [hfresh]
  unfold addParent
  by_cases hlt : child < index
  · rw [if_neg (by omega), parentsOf_getD references (by omega)]
    by_cases hmem : child ∈ references
    · have hone : references.count child = 1 := by
        rw [hnodup.count, if_pos hmem]
      simp [hone, hmem]
    · have hzero : references.count child = 0 := List.count_eq_zero.2 hmem
      have hset := parentsOf_set total child references
      rw [hzero] at hset ⊢
      simp [hlt, hmem, hset, eq_comm]
  · rw [if_pos (by omega)]
    simp [hlt]

/-! ## One pass -/

theorem validateItems_yields {total index : Nat} (hindex : index ≤ total) (items : List Nat)
    {references : List Nat} (hnodup : references.Nodup) :
    Yields (validateItems index items (parentsOf total references))
      ((∀ child ∈ items, child < index) ∧ (references ++ items).Nodup) (4 * items.length)
      fun charge => (parentsOf total (references ++ items), charge) := by
  induction items generalizing references with
  | nil =>
      rw [List.append_nil]
      exact (Yields.pure _).congr (by simpa using hnodup) rfl
  | cons child items ih =>
      rw [List.append_cons]
      refine (Yields.bind (Charges.add 4) fun _ =>
        Yields.after (fun _ => addParent_ok hindex hnodup) fun h => ih h.2).congr ?_ ?_
      · have hfirst (h : (references ++ [child] ++ items).Nodup) :
            (references ++ [child]).Nodup := (List.nodup_append.1 h).1
        rw [List.forall_mem_cons]
        tauto
      · rw [List.length_cons]
        omega

theorem notAfter_eq {previous : Option String} {key : String} {keys : List String} :
    (notAfter previous key = false ∧ (key :: keys).IsChain KeyBefore) ↔
      (previous.toList ++ key :: keys).IsChain KeyBefore := by
  cases previous with
  | none => simp [notAfter]
  | some old =>
      rw [Option.toList_some, List.singleton_append, List.isChain_cons_cons]
      simp [notAfter, KeyBefore]

theorem validateFields_yields {total index : Nat} (hindex : index ≤ total)
    (depths : List Nat) (fields : List WireJsonField) {previous : Option String}
    {references : List Nat} (childDepth : Nat) (hnodup : references.Nodup) :
    Yields (fun charge => validateFields index depths fields previous
        (parentsOf total references) childDepth charge)
      (((previous.toList ++ fields.map (·.key)).IsChain KeyBefore ∧
        ∀ key ∈ fields.map (·.key), SafeText MAX_KEY_BYTES key) ∧
        (∀ child ∈ fields.map (·.value), child < index) ∧
        (references ++ fields.map (·.value)).Nodup)
      ((fields.map (·.key)).map fun key => stringCharge key + 4).sum
      fun charge => (parentsOf total (references ++ fields.map (·.value)),
        ((fields.map (·.value)).map (depths.getD · 0)).foldl max childDepth, charge) := by
  induction fields generalizing previous references childDepth with
  | nil =>
      simp only [List.map_nil, List.append_nil, List.foldl_nil, List.sum_nil]
      refine (Yields.pure _).congr ?_ rfl
      cases previous <;> simp [hnodup]
  | cons field fields ih =>
      simp only [List.map_cons, List.foldl_cons, List.sum_cons]
      rw [List.append_cons references]
      refine (Yields.bind (Charges.string field.key) fun _ =>
        Yields.bind (Charges.add 4) fun _ =>
        Yields.guarded (Yields.refusing fun _ =>
          (Yields.after (fun _ => addParent_ok hindex hnodup) fun h =>
            ih (max childDepth (depths.getD field.value 0)) h.2))).congr ?_ ?_
      · have hfirst (h : (references ++ [field.value] ++ fields.map (·.value)).Nodup) :
            (references ++ [field.value]).Nodup := (List.nodup_append.1 h).1
        have hrest : (some field.key).toList ++ fields.map (·.key) =
            field.key :: fields.map (·.key) := rfl
        rw [← notAfter_eq, hrest, List.forall_mem_cons, List.forall_mem_cons,
          Bool.not_eq_true, safe_iff]
        tauto
      · omega

/-- The depth of a node above children of these depths. -/
def depthAbove (_ : WireLabel) (depths : List Nat) : Nat := depths.foldl max 0 + 1

theorem foldl_max_le {values : List Nat} {start bound : Nat} (hstart : start ≤ bound)
    (h : ∀ value ∈ values, value ≤ bound) : values.foldl max start ≤ bound := by
  induction values generalizing start with
  | nil => exact hstart
  | cons value values ih =>
      exact ih (Nat.max_le.2 ⟨hstart, h value List.mem_cons_self⟩)
        fun other hother => h other (List.mem_cons_of_mem _ hother)

theorem nextDepth_ok {depth result : Nat} (h : depth ≤ MAX_WIRE_DEPTH) :
    nextDepth depth = .ok result ↔ True ∧ result = depth + 1 := by
  unfold MAX_WIRE_DEPTH at h
  unfold nextDepth
  rw [if_pos (by omega)]
  simp [eq_comm]

/-- The deepest child of a node is within the limit. -/
theorem childDepth_le {depths : List Nat} (h : ∀ depth ∈ depths, depth ≤ MAX_WIRE_DEPTH)
    (children : List Nat) :
    (children.map (depths.getD · 0)).foldl max 0 ≤ MAX_WIRE_DEPTH := by
  refine foldl_max_le (Nat.zero_le _) fun value hvalue => ?_
  obtain ⟨child, -, rfl⟩ := List.mem_map.1 hvalue
  by_cases hchild : child < depths.length
  · rw [List.getD_eq_getElem _ _ hchild]
    exact h _ (List.getElem_mem hchild)
  · rw [List.getD_eq_default _ _ (by omega)]
    exact Nat.zero_le _

theorem validateNode_yields {total : Nat} {depths references : List Nat}
    (node : WireJsonNode) (htotal : depths.length ≤ total)
    (hdepths : ∀ depth ∈ depths, depth ≤ MAX_WIRE_DEPTH) (hnodup : references.Nodup) :
    Yields (validateNode depths.length node (parentsOf total references) depths)
      (LabelOk node.label ∧ (∀ child ∈ node.references, child < depths.length) ∧
        (references ++ node.references).Nodup)
      (labelCharge node.label node.references.length)
      fun charge => (depthAbove node.label (node.references.map (depths.getD · 0)),
        parentsOf total (references ++ node.references), charge) := by
  -- a node without children
  have hleaf {p : Prop} (hp : p ↔ LabelOk node.label) (hnone : node.references = []) :
      p ↔ LabelOk node.label ∧ (∀ child ∈ node.references, child < depths.length) ∧
        (references ++ node.references).Nodup := by
    rw [hp, hnone, List.append_nil]
    simp [hnodup]
  have hparents (hnone : node.references = []) :
      parentsOf total (references ++ node.references) = parentsOf total references := by
    rw [hnone, List.append_nil]
  have hdone : Yields (fun charge => Except.ok (1, parentsOf total references, charge)) True 0
      fun charge => (1, parentsOf total references, charge) := Yields.pure _
  cases node with
  | NullValue =>
      rw [hparents rfl]
      refine (Yields.bind (Charges.add 4) fun _ => hdone).congr ?_ rfl
      exact hleaf (by simp [LabelOk, WireJsonNode.label]) rfl
  | BooleanValue value =>
      rw [hparents rfl]
      show Yields (fun charge => charge.add 4 >>= fun charge => charge.add 1 >>= fun charge =>
        Except.ok (1, parentsOf total references, charge)) _ _ _
      refine (Yields.bind (Charges.add 4) fun _ =>
        Yields.bind (Charges.add 1) fun _ => hdone).congr ?_ ?_
      · exact hleaf (by simp [LabelOk, WireJsonNode.label]) rfl
      · rfl
  | NumberValue value =>
      rw [hparents rfl]
      show Yields (fun charge => charge.add 4 >>= fun charge => charge.string value >>=
        fun charge => if (!isCanonicalNumber value) = true then .error .InvalidArgument
          else Except.ok (1, parentsOf total references, charge)) _ _ _
      refine (Yields.bind (Charges.add 4) fun _ => Yields.bind (Charges.string value) fun _ =>
        Yields.refusing fun _ => hdone).congr ?_ ?_
      · exact hleaf (by simp [LabelOk, WireJsonNode.label, ← isCanonicalNumber_iff]) rfl
      · rfl
  | StringValue value =>
      rw [hparents rfl]
      show Yields (fun charge => charge.add 4 >>= fun charge => charge.string value >>=
        fun charge => safe value MAX_SAFE_TEXT_BYTES false >>= fun _ =>
          Except.ok (1, parentsOf total references, charge)) _ _ _
      refine (Yields.bind (Charges.add 4) fun _ => Yields.bind (Charges.string value) fun _ =>
        Yields.guarded hdone).congr ?_ ?_
      · exact hleaf (by simp [LabelOk, WireJsonNode.label, safe_iff]) rfl
      · rfl
  | ArrayValue items =>
      show Yields (fun charge => charge.add 4 >>= fun charge => charge.add 4 >>= fun charge =>
        validateItems depths.length items (parentsOf total references) charge >>= fun result =>
        containerDepth items depths >>= fun depth => .ok (depth, result.1, result.2)) _ _ _
      refine (Yields.bind (Charges.add 4) fun _ => Yields.bind (Charges.add 4) fun _ =>
        Yields.bind (validateItems_yields htotal items hnodup) fun _ =>
        Yields.after (fun _ => nextDepth_ok (childDepth_le hdepths items)) fun _ =>
          Yields.pure _).congr ?_ ?_
      · simp [LabelOk, WireJsonNode.label, WireJsonNode.references]
      · simp [labelCharge, WireJsonNode.label, WireJsonNode.references]
  | ObjectValue fields =>
      show Yields (fun charge => charge.add 4 >>= fun charge => charge.add 4 >>= fun charge =>
        validateFields depths.length depths fields none (parentsOf total references) 0 charge >>=
        fun result => nextDepth result.2.1 >>= fun depth =>
          .ok (depth, result.1, result.2.2)) _ _ _
      refine (Yields.bind (Charges.add 4) fun _ => Yields.bind (Charges.add 4) fun _ =>
        Yields.bind (validateFields_yields htotal depths fields 0 hnodup) fun _ =>
        Yields.after (fun _ => nextDepth_ok (childDepth_le hdepths _)) fun _ =>
          Yields.pure _).congr ?_ ?_
      · simp [LabelOk, WireJsonNode.label, WireJsonNode.references]
      · simp [labelCharge, WireJsonNode.label]

/-- The depths of the nodes, from the bottom up. -/
def depthsOf (nodes : List WireJsonNode) : List Nat :=
  Arena.evaluate depthAbove 0 (arenaOf nodes)

def referencesOf (nodes : List WireJsonNode) : List Nat := (arenaOf nodes).references

theorem depthsOf_length (nodes : List WireJsonNode) : (depthsOf nodes).length = nodes.length := by
  unfold depthsOf arenaOf
  rw [Arena.evaluate_length, List.length_map]

theorem depthsOf_concat (nodes : List WireJsonNode) (node : WireJsonNode) :
    depthsOf (nodes ++ [node]) = depthsOf nodes ++
      [depthAbove node.label (node.references.map ((depthsOf nodes).getD · 0))] := by
  unfold depthsOf arenaOf
  rw [List.map_append]
  exact Arena.evaluate_concat depthAbove 0 _ _

theorem referencesOf_concat (nodes : List WireJsonNode) (node : WireJsonNode) :
    referencesOf (nodes ++ [node]) = referencesOf nodes ++ node.references := by
  simp [referencesOf, arenaOf, Arena.references]

theorem mem_depthsOf_append {nodes more : List WireJsonNode} {depth : Nat}
    (h : depth ∈ depthsOf nodes) : depth ∈ depthsOf (nodes ++ more) := by
  induction more using List.reverseRecOn with
  | nil => rwa [List.append_nil]
  | append_singleton more node ih =>
      rw [← List.append_assoc, depthsOf_concat]
      exact List.mem_append_left _ ih

theorem referencesOf_append (nodes more : List WireJsonNode) :
    referencesOf (nodes ++ more) = referencesOf nodes ++ referencesOf more := by
  simp [referencesOf, arenaOf, Arena.references]

/-- The pass over the nodes. -/
theorem validateNodes_yields {total : Nat} (nodes before : List WireJsonNode)
    (htotal : before.length + nodes.length ≤ total)
    (hdepths : ∀ depth ∈ depthsOf before, depth ≤ MAX_WIRE_DEPTH)
    (hnodup : (referencesOf before).Nodup) :
    Yields (validateNodes nodes (parentsOf total (referencesOf before)) (depthsOf before))
      ((∀ node ∈ nodes, LabelOk node.label) ∧
        Arena.DownwardFrom before.length (arenaOf nodes) ∧
        (referencesOf (before ++ nodes)).Nodup ∧
        ∀ depth ∈ depthsOf (before ++ nodes), depth ≤ MAX_WIRE_DEPTH)
      (nodes.map fun node => labelCharge node.label node.references.length).sum
      fun charge => (parentsOf total (referencesOf (before ++ nodes)),
        depthsOf (before ++ nodes), charge) := by
  induction nodes generalizing before with
  | nil =>
      rw [List.append_nil]
      refine (Yields.pure _).congr ?_ rfl
      have hempty : Arena.DownwardFrom before.length (arenaOf []) := nofun
      simp [hempty, hnodup]
      exact hdepths
  | cons node nodes ih =>
      have hlength : (depthsOf before).length = before.length := depthsOf_length before
      rw [List.length_cons] at htotal
      have hnode := validateNode_yields node (show (depthsOf before).length ≤ total by omega)
        hdepths hnodup
      have hrest (hvalid : LabelOk node.label ∧
            (∀ child ∈ node.references, child < (depthsOf before).length) ∧
            (referencesOf before ++ node.references).Nodup) :
          Yields (fun charge =>
            if depthAbove node.label (node.references.map ((depthsOf before).getD · 0)) >
                MAX_WIRE_DEPTH then .error .Limit
            else validateNodes nodes
              (parentsOf total (referencesOf before ++ node.references))
              (depthsOf before ++
                [depthAbove node.label (node.references.map ((depthsOf before).getD · 0))])
              charge) _ _ _ :=
        Yields.refusing fun hdepth => by
          rw [← referencesOf_concat, ← depthsOf_concat]
          refine ih (before ++ [node]) ?_ ?_ ?_
          · rw [List.length_append, List.length_singleton]
            omega
          · intro depth hmem
            rw [depthsOf_concat] at hmem
            rcases List.mem_append.1 hmem with hmem | hmem
            · exact hdepths depth hmem
            · rw [List.mem_singleton.1 hmem]
              omega
          · rw [referencesOf_concat]
            exact hvalid.2.2
      rw [List.append_cons]
      refine (Yields.bind hnode hrest).congr ?_ rfl
      have hdown : Arena.DownwardFrom before.length (arenaOf (node :: nodes)) ↔
          (∀ child ∈ node.references, child < before.length) ∧
            Arena.DownwardFrom (before ++ [node]).length (arenaOf nodes) := by
        rw [List.length_append]
        exact Arena.downwardFrom_cons
      have hfirst (h : (referencesOf (before ++ [node] ++ nodes)).Nodup) :
          (referencesOf before ++ node.references).Nodup := by
        rw [referencesOf_append, referencesOf_concat] at h
        exact (List.nodup_append.1 h).1
      have hdepth (h : ∀ depth ∈ depthsOf (before ++ [node] ++ nodes), depth ≤ MAX_WIRE_DEPTH) :
          ¬ depthAbove node.label (node.references.map ((depthsOf before).getD · 0)) >
            MAX_WIRE_DEPTH := by
        have hmem := h _ (mem_depthsOf_append (by
          rw [depthsOf_concat]
          exact List.mem_append_right _ (List.mem_singleton_self _)))
        omega
      rw [hdown, hlength, List.forall_mem_cons]
      tauto

/-! ## Documents -/

/-- The charge of a document: its root and its nodes. -/
def documentCharge (document : WireJsonDocument) : Nat :=
  4 + (4 + (document.nodes.map fun node =>
    labelCharge node.label node.references.length).sum)

/-- The tree that a document stands for. -/
def WireJsonDocument.Denotes (document : WireJsonDocument) (tree : Rose WireLabel) : Prop :=
  (arenaOf document.nodes).Denotes document.root tree

/-- A document that is one tree under its last node, with keys in order,
canonical numbers, safe texts, and within its limits. -/
structure WellFormed (document : WireJsonDocument) (objectRoot : Bool) : Prop where
  count : document.nodes.length ≤ MAX_WIRE_NODES
  root : document.root + 1 = document.nodes.length
  object : objectRoot = true → ∃ node ∈ document.nodes.getLast?, isObject node = true
  oneTree : (arenaOf document.nodes).OneTree
  labels : ∀ node ∈ document.nodes, LabelOk node.label
  depth : ∀ tree, document.Denotes tree → tree.height ≤ MAX_WIRE_DEPTH
  charge : documentCharge document ≤ MAX_LOGICAL_CHARGE

theorem arenaOf_length (nodes : List WireJsonNode) : (arenaOf nodes).length = nodes.length :=
  List.length_map ..

theorem parentsOf_nil (total : Nat) : List.replicate total 0 = parentsOf total [] :=
  List.ext_getElem (by simp [parentsOf]) (by simp [parentsOf])

/-- The depth of a position is the height of its tree. -/
theorem depthsOf_getD {nodes : List WireJsonNode} (h : (arenaOf nodes).Downward)
    {index : Nat} {tree : Rose WireLabel} (htree : (arenaOf nodes).Denotes index tree) :
    (depthsOf nodes).getD index 0 = tree.height :=
  Arena.evaluate_eq h depthAbove 0 htree

/-- In one tree the root is the deepest. -/
theorem depths_le_iff {nodes : List WireJsonNode} (h : (arenaOf nodes).OneTree)
    {tree : Rose WireLabel} (htree : (arenaOf nodes).Denotes (nodes.length - 1) tree)
    (bound : Nat) : (∀ depth ∈ depthsOf nodes, depth ≤ bound) ↔ tree.height ≤ bound := by
  have hpos : 0 < nodes.length := by
    rw [← arenaOf_length]
    exact List.length_pos_iff.2 h.nonempty
  constructor
  · intro hall
    rw [← depthsOf_getD h.below htree, List.getD_eq_getElem _ _ (by rw [depthsOf_length]; omega)]
    exact hall _ (List.getElem_mem _)
  · intro hle depth hdepth
    obtain ⟨k, hk, rfl⟩ := List.mem_iff_getElem.1 hdepth
    rw [depthsOf_length] at hk
    obtain ⟨below, hbelow⟩ := h.below.exists_tree (show k < (arenaOf nodes).length by
      rw [arenaOf_length]; exact hk)
    have hvisit : k ∈ (arenaOf nodes).visit (arenaOf nodes).length
        ((arenaOf nodes).length - 1) := by
      rw [h.visit_perm.mem_iff, List.mem_range, arenaOf_length]
      exact hk
    rw [arenaOf_length] at hvisit
    rw [← List.getD_eq_getElem _ 0, depthsOf_getD h.below hbelow]
    exact Nat.le_trans (htree.height_le hbelow hvisit) hle

/-- The counts of one tree. -/
theorem oneTree_iff {nodes : List WireJsonNode} (hne : nodes ≠ []) :
    ((arenaOf nodes).Downward ∧ (referencesOf nodes).Nodup ∧
      ((parentsOf nodes.length (referencesOf nodes)).getLast? != some 0 ||
        (parentsOf nodes.length (referencesOf nodes)).dropLast.any (· != 1)) = false) ↔
      (arenaOf nodes).OneTree := by
  have hpos : 0 < nodes.length := List.length_pos_iff.2 hne
  obtain ⟨last, hlast⟩ : ∃ last, nodes.length = last + 1 := ⟨nodes.length - 1, by omega⟩
  have hparents : parentsOf nodes.length (referencesOf nodes) =
      parentsOf last (referencesOf nodes) ++ [(referencesOf nodes).count last] := by
    unfold parentsOf
    rw [hlast, List.range_succ, List.map_append]
    rfl
  have hover (hdown : (arenaOf nodes).Downward) (other : Nat) (hother : last ≤ other) :
      (referencesOf nodes).count other = 0 := by
    rw [List.count_eq_zero]
    intro hmem
    unfold referencesOf at hmem
    rw [Arena.references_eq, arenaOf_length] at hmem
    obtain ⟨index, hindex, hmem⟩ := List.mem_flatMap.1 hmem
    have hlt := hdown.children_lt hmem
    rw [List.mem_range] at hindex
    omega
  rw [hparents, List.getLast?_concat, List.dropLast_concat]
  constructor
  · rintro ⟨hdown, hnodup, hcounts⟩
    refine ⟨?_, hdown, fun index hindex => ?_⟩
    · rw [← List.length_pos_iff, arenaOf_length]
      exact hpos
    · rw [arenaOf_length] at hindex
      rw [Bool.or_eq_false_iff, List.any_eq_false] at hcounts
      have hone := hcounts.2 ((referencesOf nodes).count index)
        (List.mem_map.2 ⟨index, List.mem_range.2 (by omega), rfl⟩)
      show (referencesOf nodes).count index = 1
      simpa using hone
  · intro h
    have hone (index : Nat) (hindex : index < last) : (referencesOf nodes).count index = 1 :=
      h.once index (by rw [arenaOf_length]; omega)
    refine ⟨h.below, ?_, ?_⟩
    · rw [List.nodup_iff_count]
      intro index
      by_cases hindex : index < last
      · exact Nat.le_of_eq (hone index hindex)
      · have hzero := hover h.below index (by omega)
        omega
    · rw [hover h.below last (Nat.le_refl _), Bool.or_eq_false_iff, List.any_eq_false]
      refine ⟨by simp, fun count hcount => ?_⟩
      obtain ⟨index, hindex, rfl⟩ := List.mem_map.1 hcount
      rw [hone index (List.mem_range.1 hindex)]
      simp

/-- The pass over a document, behind the checks of its root. -/
theorem validateDocument_yields {nodes : List WireJsonNode} (hne : nodes ≠ []) :
    Yields (fun charge => charge.add 4 >>= fun charge => charge.add 4 >>= fun charge =>
        validateNodes nodes (List.replicate nodes.length 0) [] charge >>= fun result =>
        if (result.1.getLast? != some 0 || result.1.dropLast.any (· != 1)) = true then
          .error .InvalidArgument
        else .ok (WireJsonStats.mk result.2.2.value
          (result.2.1.getD (nodes.length - 1) 0)))
      ((∀ node ∈ nodes, LabelOk node.label) ∧ (arenaOf nodes).OneTree ∧
        ∀ depth ∈ depthsOf nodes, depth ≤ MAX_WIRE_DEPTH)
      (4 + (4 + (nodes.map fun node => labelCharge node.label node.references.length).sum))
      fun charge => ⟨charge.value, (depthsOf nodes).getD (nodes.length - 1) 0⟩ := by
  have hlength : ([] : List WireJsonNode).length + nodes.length ≤ nodes.length := by simp
  have hpass := validateNodes_yields nodes [] hlength nofun List.nodup_nil
  rw [parentsOf_nil]
  have hend : Yields (fun charge =>
      if ((parentsOf nodes.length (referencesOf nodes)).getLast? != some 0 ||
        (parentsOf nodes.length (referencesOf nodes)).dropLast.any (· != 1)) = true then
        .error .InvalidArgument
      else .ok (WireJsonStats.mk charge.value ((depthsOf nodes).getD (nodes.length - 1) 0)))
      _ 0 fun charge => ⟨charge.value, (depthsOf nodes).getD (nodes.length - 1) 0⟩ :=
    Yields.refusing fun _ => Yields.pure _
  refine (Yields.bind (Charges.add 4) fun _ => Yields.bind (Charges.add 4) fun _ =>
    Yields.bind hpass fun _ => hend).congr ?_ ?_
  · have hdown : Arena.DownwardFrom ([] : List WireJsonNode).length (arenaOf nodes) ↔
        (arenaOf nodes).Downward := Arena.downwardFrom_zero
    rw [hdown, ← oneTree_iff hne, List.nil_append, Bool.not_eq_true]
    tauto
  · omega

theorem WellFormed.last {document : WireJsonDocument} {objectRoot : Bool}
    (h : WellFormed document objectRoot) : document.root = document.nodes.length - 1 := by
  have hroot := h.root
  omega

/-- A document that is well-formed stands for a tree. -/
theorem WellFormed.exists_tree {document : WireJsonDocument} {objectRoot : Bool}
    (h : WellFormed document objectRoot) : ∃ tree, document.Denotes tree := by
  refine h.oneTree.below.exists_tree ?_
  have hroot := h.root
  rw [arenaOf_length]
  omega

/-- The documents that are accepted, with their depth and charge. -/
theorem validateWireJson_ok {document : WireJsonDocument} {objectRoot : Bool}
    {stats : WireJsonStats} : validateWireJson document objectRoot = .ok stats ↔
      WellFormed document objectRoot ∧ stats.logicalCharge = documentCharge document ∧
        ∀ tree, document.Denotes tree → stats.depth = tree.height := by
  obtain ⟨root, nodes⟩ := document
  unfold validateWireJson
  dsimp only
  by_cases hempty : nodes = []
  · subst hempty
    refine ⟨nofun, fun ⟨h, _⟩ => ?_⟩
    have hroot : root + 1 = 0 := h.root
    omega
  by_cases hcount : nodes.length ≤ MAX_WIRE_NODES
  swap
  · have hlimit : (nodes.isEmpty || decide (nodes.length > MAX_WIRE_NODES)) = true := by
      simp
      omega
    rw [if_pos hlimit]
    exact ⟨nofun, fun ⟨h, _⟩ => absurd h.count hcount⟩
  have hlimit : ¬ (nodes.isEmpty || decide (nodes.length > MAX_WIRE_NODES)) = true := by
    simp [hempty, hcount]
  rw [if_neg hlimit]
  have hpos : 0 < nodes.length := List.length_pos_iff.2 hempty
  by_cases hroot : root = nodes.length - 1
  swap
  · rw [if_pos (by simpa using hroot)]
    exact ⟨nofun, fun ⟨h, _⟩ => absurd h.last hroot⟩
  rw [if_neg (by simpa using hroot)]
  by_cases hobject : objectRoot = true → ∃ node ∈ nodes.getLast?, isObject node = true
  swap
  · have hrefuse : (objectRoot && !nodes.getLast?.any isObject) = true := by
      cases hlast : nodes.getLast? <;> simp_all
    rw [if_pos hrefuse]
    exact ⟨nofun, fun ⟨h, _⟩ => absurd h.object hobject⟩
  have haccept : ¬ (objectRoot && !nodes.getLast?.any isObject) = true := by
    cases hlast : nodes.getLast? <;> simp_all
  rw [if_neg haccept]
  subst hroot
  refine (validateDocument_yields hempty 0 MAX_LOGICAL_CHARGE (Nat.zero_le _) (Nat.le_refl _)
    stats).trans ?_
  rw [Nat.zero_add]
  constructor
  · rintro ⟨⟨hlabels, htree, hdepths⟩, hcharge, rfl⟩
    have hheight (tree : Rose WireLabel)
        (hdenotes : (arenaOf nodes).Denotes (nodes.length - 1) tree) :=
      (depths_le_iff htree hdenotes MAX_WIRE_DEPTH).1 hdepths
    refine ⟨⟨hcount, by dsimp only; omega, hobject, htree, hlabels, hheight, hcharge⟩, rfl, ?_⟩
    intro tree hdenotes
    exact depthsOf_getD htree.below hdenotes
  · rintro ⟨h, hcharge, hdepth⟩
    obtain ⟨tree, hdenotes⟩ := h.exists_tree
    refine ⟨⟨h.labels, h.oneTree, ?_⟩, h.charge, ?_⟩
    · exact (depths_le_iff h.oneTree hdenotes MAX_WIRE_DEPTH).2 (h.depth tree hdenotes)
    · obtain ⟨charge, depth⟩ := stats
      have hsame := hdepth tree hdenotes
      rw [WireJsonStats.mk.injEq]
      refine ⟨hcharge, ?_⟩
      rw [depthsOf_getD h.oneTree.below hdenotes]
      exact hsame

end MCode.Validation
