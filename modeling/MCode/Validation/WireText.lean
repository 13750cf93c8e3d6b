import MCode.Validation.WireTree

/-!
# The text of a wire document

`canonical_serialize` writes the tree of a document, whatever the order of its
nodes: the text, and its length as it is measured first, depend on the tree
alone.  The recursion goes down the tree, so it returns, within bounds, and
writes each node once.
-/

namespace MCode.Validation

open MCode.Lib

/-! ## Texts of trees -/

/-- The parts of a container from a position on, with the commas. -/
def joinParts : List Text → Nat → Text
  | [], _ => []
  | part :: parts, position =>
      (if position != 0 then [','] else []) ++ part ++ joinParts parts (position + 1)

def labelText : WireLabel → List Text → Text
  | .Null, _ => "null".toList
  | .Boolean true, _ => "true".toList
  | .Boolean false, _ => "false".toList
  | .Number value, _ => value.toList
  | .Text value, _ => serializeString value
  | .Array, texts => '[' :: joinParts texts 0 ++ [']']
  | .Object keys, texts =>
      '{' :: joinParts (List.zipWith (fun key text => serializeString key ++ [':'] ++ text)
        keys texts) 0 ++ ['}']

def treeText : Rose WireLabel → Text := Rose.fold labelText

theorem treeText_node (label : WireLabel) (children : List (Rose WireLabel)) :
    treeText (.node label children) = labelText label (children.map treeText) :=
  Rose.fold_node labelText label children

/-- The children of a container are written one after the other. -/
theorem writeParts_eq (write : Nat → Option (Text × List Nat)) (texts : Nat → Text)
    (visited : Nat → List Nat) (parts : List (Text × Nat)) (position : Nat)
    (h : ∀ part ∈ parts, write part.2 = some (texts part.2, visited part.2)) :
    writeParts write parts position =
      some (joinParts (parts.map fun part => part.1 ++ texts part.2) position,
        parts.flatMap fun part => visited part.2) := by
  induction parts generalizing position with
  | nil => rfl
  | cons part parts ih =>
      obtain ⟨front, child⟩ := part
      have hchild : write child = some (texts child, visited child) := h _ List.mem_cons_self
      have hrest := ih (position + 1) fun other hother => h other (List.mem_cons_of_mem _ hother)
      simp only [writeParts, hchild, hrest, Option.bind_eq_bind, Option.bind_some]
      simp [joinParts]

theorem arenaOf_getElem? (nodes : List WireJsonNode) (index : Nat) :
    (arenaOf nodes)[index]? =
      nodes[index]?.map fun node => (node.label, node.references) :=
  List.getElem?_map ..

/-- The node at a position that denotes a tree. -/
theorem node_of_denotes {nodes : List WireJsonNode} {index : Nat} {label : WireLabel}
    {trees : List (Rose WireLabel)}
    (h : (arenaOf nodes).Denotes index (.node label trees)) :
    ∃ node, nodes[index]? = some node ∧ label = node.label ∧
      List.Forall₂ (arenaOf nodes).Denotes node.references trees := by
  obtain ⟨indices, hfound, hall⟩ := Arena.denotes_node.1 h
  rw [arenaOf_getElem?] at hfound
  obtain ⟨node, hnode, heq⟩ := Option.map_eq_some_iff.1 hfound
  cases heq
  exact ⟨node, hnode, rfl, hall⟩

theorem fields_parts (fields : List WireJsonField) (texts : Nat → Text) :
    (fields.map fun field => (serializeString field.key ++ [':'], field.value)).map
        (fun part => part.1 ++ texts part.2) =
      List.zipWith (fun key text => serializeString key ++ [':'] ++ text)
        (fields.map (·.key)) ((fields.map (·.value)).map texts) := by
  rw [List.map_map, List.map_map, List.zipWith_map, List.zipWith_self]
  rfl

/-- The serializer returns the text of the tree, and goes through its nodes. -/
theorem serializeNode_eq {nodes : List WireJsonNode} (h : (arenaOf nodes).Downward)
    {fuel index : Nat} {tree : Rose WireLabel}
    (htree : (arenaOf nodes).Denotes index tree) (hfuel : index < fuel) :
    serializeNode nodes fuel index =
      some (treeText tree, (arenaOf nodes).visit fuel index) := by
  induction fuel generalizing index tree with
  | zero => omega
  | succ fuel ih =>
      obtain ⟨label, trees⟩ := tree
      obtain ⟨node, hnode, rfl, hall⟩ := node_of_denotes htree
      have hfound : (arenaOf nodes)[index]? = some (node.label, node.references) := by
        rw [arenaOf_getElem?, hnode]
        rfl
      have hbelow (child : Nat) (hchild : child ∈ node.references) : child < fuel := by
        have hlt := h index _ _ hfound child hchild
        omega
      -- the texts of the children, by their position
      let texts := fun child => ((serializeNode nodes fuel child).map Prod.fst).getD []
      have hchild (child : Nat) (below : Rose WireLabel) (hmem : child ∈ node.references)
          (hdenotes : (arenaOf nodes).Denotes child below) :
          serializeNode nodes fuel child =
            some (treeText below, (arenaOf nodes).visit fuel child) :=
        ih hdenotes (hbelow child hmem)
      have htexts : node.references.map texts = trees.map treeText :=
        Arena.map_eq_map hall fun child hmem below hdenotes => by
          show ((serializeNode nodes fuel child).map Prod.fst).getD [] = _
          rw [hchild child below hmem hdenotes]
          rfl
      have hwrite (child : Nat) (hmem : child ∈ node.references) :
          serializeNode nodes fuel child =
            some (texts child, (arenaOf nodes).visit fuel child) := by
        obtain ⟨k, hk, rfl⟩ := List.mem_iff_getElem.1 hmem
        have hk' : k < trees.length := hall.length_eq ▸ hk
        show _ = some (((serializeNode nodes fuel _).map Prod.fst).getD [], _)
        rw [hchild _ _ hmem (hall.get hk hk')]
        rfl
      rw [treeText_node, Arena.visit, Arena.children_of_found hfound, ← htexts]
      unfold serializeNode
      rw [hnode]
      cases node with
      | NullValue | NumberValue | StringValue => rfl
      | BooleanValue value => cases value <;> rfl
      | ArrayValue items =>
          have hparts := writeParts_eq (serializeNode nodes fuel) texts
            ((arenaOf nodes).visit fuel) (items.map fun child => ([], child)) 0 (by
              intro part hpart
              obtain ⟨child, hmem, rfl⟩ := List.mem_map.1 hpart
              exact hwrite child hmem)
          simp only [hparts]
          simp [labelText, WireJsonNode.label, WireJsonNode.references, List.flatMap_map,
            Function.comp_def]
      | ObjectValue fields =>
          have hparts := writeParts_eq (serializeNode nodes fuel) texts
            ((arenaOf nodes).visit fuel)
            (fields.map fun field => (serializeString field.key ++ [':'], field.value)) 0
            (by
              intro part hpart
              obtain ⟨field, hmem, rfl⟩ := List.mem_map.1 hpart
              exact hwrite field.value (List.mem_map.2 ⟨field, hmem, rfl⟩))
          rw [fields_parts] at hparts
          simp only [hparts]
          simp [labelText, WireJsonNode.label, WireJsonNode.references, List.flatMap_map]

/-! ## Measures of trees -/

/-- The key of a field is measured with its colon. -/
def keyStats (length escapes : Nat) : Option String → ValidationResult SerializedStats
  | none => return (length, escapes)
  | some key => do
      let (length, escapes) ← addStats (length, escapes) (← serializedStringStats key)
      return (← checkedAdd length 1, escapes)

/-- What is measured in front of a child: its comma, and the key of a field. -/
def frontStats (front : Option String) (position : Nat) (total : SerializedStats) :
    ValidationResult SerializedStats := do
  let length ← if position != 0 then checkedAdd total.1 1 else .ok total.1
  keyStats length total.2 front

/-- The loop over the children of a container, once they are measured. -/
def partsStats : List (Option String × ValidationResult SerializedStats) → Nat →
    SerializedStats → ValidationResult SerializedStats
  | [], _, total => .ok total
  | (front, part) :: parts, position, total => do
      let total ← frontStats front position total
      let total ← part.bind (addStats total)
      partsStats parts (position + 1) total

def labelStats : WireLabel → List (ValidationResult SerializedStats) →
    ValidationResult SerializedStats
  | .Null, _ => .ok (4, 0)
  | .Boolean true, _ => .ok (4, 0)
  | .Boolean false, _ => .ok (5, 0)
  | .Number value, _ => (checkedLen (utf8Len value.toList)).map fun length => (length, 0)
  | .Text value, _ => serializedStringStats value
  | .Array, parts => partsStats (parts.map fun part => (none, part)) 0 (2, 0)
  | .Object keys, parts =>
      partsStats (List.zipWith (fun key part => (some key, part)) keys parts) 0 (2, 0)

def treeStats : Rose WireLabel → ValidationResult SerializedStats := Rose.fold labelStats

theorem treeStats_node (label : WireLabel) (children : List (Rose WireLabel)) :
    treeStats (.node label children) = labelStats label (children.map treeStats) :=
  Rose.fold_node labelStats label children

/-- What is measured up to here, and how the loop goes on from it. -/
def measuring (before : ValidationResult SerializedStats)
    (next : SerializedStats → Option (ValidationResult SerializedStats)) :
    Option (ValidationResult SerializedStats) :=
  match before with
  | .error error => some (.error error)
  | .ok total => next total

theorem statsParts_cons (stats : Nat → Option (ValidationResult SerializedStats))
    (front : Option String) (child : Nat) (parts : List (Option String × Nat)) (position : Nat)
    (total : SerializedStats) :
    statsParts stats ((front, child) :: parts) position total =
      measuring (frontStats front position total) fun total =>
        (stats child).bind fun part =>
          measuring (part.bind (addStats total)) (statsParts stats parts (position + 1)) := by
  show measuring (frontStats front position total) _ = _
  cases stats child <;> rfl

theorem statsParts_eq (stats : Nat → Option (ValidationResult SerializedStats))
    (measured : Nat → ValidationResult SerializedStats)
    (parts : List (Option String × Nat)) (position : Nat) (total : SerializedStats)
    (h : ∀ part ∈ parts, stats part.2 = some (measured part.2)) :
    statsParts stats parts position total =
      some (partsStats (parts.map fun part => (part.1, measured part.2)) position total) := by
  induction parts generalizing position total with
  | nil => rfl
  | cons part parts ih =>
      obtain ⟨front, child⟩ := part
      have hchild : stats child = some (measured child) := h _ List.mem_cons_self
      have hrest (position : Nat) (total : SerializedStats) :=
        ih position total fun other hother => h other (List.mem_cons_of_mem _ hother)
      rw [List.map_cons, partsStats, statsParts_cons, hchild]
      cases frontStats front position total with
      | error error => rfl
      | ok total =>
          change measuring ((measured child).bind (addStats total)) _ = some ((measured child).bind (addStats total) >>=
            partsStats (parts.map fun part => (part.1, measured part.2)) (position + 1))
          cases (measured child).bind (addStats total) with
          | error error => rfl
          | ok total => exact hrest (position + 1) total

/-- A node is measured as its tree. -/
theorem serializedNodeStats_eq {nodes : List WireJsonNode} (h : (arenaOf nodes).Downward)
    {fuel index : Nat} {tree : Rose WireLabel}
    (htree : (arenaOf nodes).Denotes index tree) (hfuel : index < fuel) :
    serializedNodeStats nodes fuel index = some (treeStats tree) := by
  induction fuel generalizing index tree with
  | zero => omega
  | succ fuel ih =>
      obtain ⟨label, trees⟩ := tree
      obtain ⟨node, hnode, rfl, hall⟩ := node_of_denotes htree
      have hfound : (arenaOf nodes)[index]? = some (node.label, node.references) := by
        rw [arenaOf_getElem?, hnode]
        rfl
      have hbelow (child : Nat) (hchild : child ∈ node.references) : child < fuel := by
        have hlt := h index _ _ hfound child hchild
        omega
      -- the measures of the children, by their position
      let measured := fun child =>
        (serializedNodeStats nodes fuel child).getD (.error .InvalidArgument)
      have hmeasured : node.references.map measured = trees.map treeStats :=
        Arena.map_eq_map hall fun child hchild below hdenotes => by
          show (serializedNodeStats nodes fuel child).getD _ = _
          rw [ih hdenotes (hbelow child hchild)]
          rfl
      have hmeasure (child : Nat) (hmem : child ∈ node.references) :
          serializedNodeStats nodes fuel child = some (measured child) := by
        obtain ⟨k, hk, rfl⟩ := List.mem_iff_getElem.1 hmem
        have hk' : k < trees.length := hall.length_eq ▸ hk
        have hstats : serializedNodeStats nodes fuel node.references[k] =
            some (treeStats trees[k]) := ih (hall.get hk hk') (hbelow _ hmem)
        show _ = some ((serializedNodeStats nodes fuel _).getD _)
        rw [hstats]
        rfl
      rw [treeStats_node, ← hmeasured]
      unfold serializedNodeStats
      rw [hnode]
      cases node with
      | NullValue | NumberValue | StringValue => rfl
      | BooleanValue value => cases value <;> rfl
      | ArrayValue items =>
          have hparts := statsParts_eq (serializedNodeStats nodes fuel) measured
            (items.map fun child => (none, child)) 0 (2, 0) (by
              intro part hpart
              obtain ⟨child, hmem, rfl⟩ := List.mem_map.1 hpart
              exact hmeasure child hmem)
          simp only [hparts]
          simp [labelStats, WireJsonNode.label, WireJsonNode.references, Function.comp_def]
      | ObjectValue fields =>
          have hparts := statsParts_eq (serializedNodeStats nodes fuel) measured
            (fields.map fun field => (some field.key, field.value)) 0 (2, 0) (by
              intro part hpart
              obtain ⟨field, hmem, rfl⟩ := List.mem_map.1 hpart
              exact hmeasure field.value (List.mem_map.2 ⟨field, hmem, rfl⟩))
          simp only [hparts]
          simp [labelStats, WireJsonNode.label, WireJsonNode.references, Function.comp_def,
            List.zipWith_map, List.zipWith_self]

/-! ## What is measured is what is written -/

theorem utf8Len_cons (c : Char) (text : Text) :
    utf8Len (c :: text) = c.utf8Size + utf8Len text := rfl

theorem utf8Len_append (left right : Text) :
    utf8Len (left ++ right) = utf8Len left + utf8Len right := by
  unfold utf8Len
  rw [List.map_append, List.sum_append]

theorem checkedAdd_ok {left right sum : Nat} (h : checkedAdd left right = .ok sum) :
    sum = left + right := by
  unfold checkedAdd at h
  split at h <;> cases h
  rfl

theorem addStats_ok {stats part total : SerializedStats} (h : addStats stats part = .ok total) :
    total.1 = stats.1 + part.1 := by
  unfold addStats at h
  obtain ⟨length, hlength, h⟩ := bind_eq_ok.1 h
  obtain ⟨escapes, -, h⟩ := bind_eq_ok.1 h
  cases h
  exact checkedAdd_ok hlength

theorem serializedCharStats_ok {text : Text} {stats total : SerializedStats}
    (h : serializedCharStats stats text = .ok total) :
    total.1 = stats.1 + utf8Len (text.flatMap escapeChar) := by
  induction text generalizing stats with
  | nil =>
      cases h
      rfl
  | cons c text ih =>
      rw [List.flatMap_cons, utf8Len_append]
      unfold serializedCharStats at h
      split at h
      · rename_i hescaped
        obtain ⟨length, hlength, h⟩ := bind_eq_ok.1 h
        obtain ⟨escapes, -, h⟩ := bind_eq_ok.1 h
        have hsize : utf8Len (escapeChar c) = 2 := by
          simp only [Bool.or_eq_true, beq_iff_eq] at hescaped
          rcases hescaped with ((rfl | rfl) | rfl) | rfl <;> rfl
        rw [ih h, checkedAdd_ok hlength, hsize]
        omega
      · rename_i hplain
        obtain ⟨length, hlength, h⟩ := bind_eq_ok.1 h
        have hsame : escapeChar c = [c] := by
          simp only [Bool.or_eq_true, beq_iff_eq, not_or] at hplain
          obtain ⟨⟨⟨hquote, hslash⟩, htab⟩, hline⟩ := hplain
          simp [escapeChar, hquote, hslash, htab, hline]
        rw [ih h, checkedAdd_ok hlength, hsame, utf8Len_cons]
        show _ = stats.1 + (c.utf8Size + 0 + _)
        omega

theorem serializedStringStats_ok {value : String} {total : SerializedStats}
    (h : serializedStringStats value = .ok total) :
    total.1 = utf8Len (serializeString value) := by
  have hchars := serializedCharStats_ok h
  unfold serializeString
  rw [hchars, utf8Len_append, utf8Len_cons]
  show _ = 1 + _ + 1
  omega

/-- The text in front of a child. -/
def frontText : Option String → Text
  | none => []
  | some key => serializeString key ++ [':']

theorem keyStats_ok {front : Option String} {length escapes : Nat} {total : SerializedStats}
    (h : keyStats length escapes front = .ok total) :
    total.1 = length + utf8Len (frontText front) := by
  cases front with
  | none =>
      cases h
      rfl
  | some key =>
      obtain ⟨measured, hmeasured, h⟩ := bind_eq_ok.1 h
      obtain ⟨added, hadded, h⟩ := bind_eq_ok.1 h
      obtain ⟨sum, hsum, h⟩ := bind_eq_ok.1 h
      cases h
      show sum = _
      rw [checkedAdd_ok hsum, addStats_ok hadded, serializedStringStats_ok hmeasured]
      unfold frontText
      rw [utf8Len_append]
      show _ = _ + (_ + 1)
      omega

theorem frontStats_ok {front : Option String} {position : Nat} {stats total : SerializedStats}
    (h : frontStats front position stats = .ok total) :
    total.1 = stats.1 + utf8Len (if position != 0 then [','] else []) +
      utf8Len (frontText front) := by
  unfold frontStats at h
  dsimp only at h
  split at h
  · rename_i hposition
    obtain ⟨length, hlength, h⟩ := bind_eq_ok.1 h
    rw [keyStats_ok h, checkedAdd_ok hlength, if_pos hposition]
    rfl
  · rename_i hposition
    obtain ⟨length, hlength, h⟩ := bind_eq_ok.1 h
    cases hlength
    rw [keyStats_ok h, if_neg hposition]
    rfl

theorem partsStats_ok {parts : List (Option String × Rose WireLabel)} {position : Nat}
    {stats total : SerializedStats}
    (hparts : ∀ part ∈ parts, ∀ measured, treeStats part.2 = .ok measured →
      measured.1 = utf8Len (treeText part.2))
    (h : partsStats (parts.map fun part => (part.1, treeStats part.2)) position stats =
      .ok total) :
    total.1 = stats.1 + utf8Len (joinParts
      (parts.map fun part => frontText part.1 ++ treeText part.2) position) := by
  induction parts generalizing position stats with
  | nil =>
      cases h
      rfl
  | cons part parts ih =>
      obtain ⟨front, tree⟩ := part
      rw [List.map_cons, partsStats] at h
      obtain ⟨before, hbefore, hchild⟩ := bind_eq_ok.1 h
      obtain ⟨after, hafter, hlast⟩ := bind_eq_ok.1 hchild
      have hadded : ∃ stats, treeStats tree = .ok stats ∧ addStats before stats = .ok after :=
        bind_eq_ok.1 hafter
      obtain ⟨own, hmeasured, hown⟩ := hadded
      have hrest := ih (fun other hother => hparts other (List.mem_cons_of_mem _ hother)) hlast
      rw [hrest, addStats_ok hown, frontStats_ok hbefore,
        hparts _ List.mem_cons_self own hmeasured, List.map_cons, joinParts, utf8Len_append,
        utf8Len_append, utf8Len_append]
      dsimp only
      omega

theorem utf8Len_wrapped (first last : Char) (text : Text) :
    utf8Len (first :: text ++ [last]) = first.utf8Size + utf8Len text + last.utf8Size := by
  rw [utf8Len_append, utf8Len_cons]
  rfl

/-- The measure of a tree is the length of its text. -/
theorem treeStats_ok {tree : Rose WireLabel} {stats : SerializedStats}
    (h : treeStats tree = .ok stats) : stats.1 = utf8Len (treeText tree) := by
  induction tree using Rose.induction generalizing stats with
  | node label children ih =>
      rw [treeStats_node] at h
      rw [treeText_node]
      cases label with
      | Null =>
          cases h
          rfl
      | Boolean value => cases value <;> cases h <;> rfl
      | Number value =>
          have hlength : checkedLen (utf8Len value.toList) >>= (fun length => .ok (length, 0)) =
              .ok stats := h
          obtain ⟨length, hlength, hstats⟩ := bind_eq_ok.1 hlength
          unfold checkedLen at hlength
          split at hlength <;> cases hlength
          cases hstats
          rfl
      | Text value => exact serializedStringStats_ok h
      | Array =>
          have hsame : (children.map treeStats).map (fun part => ((none : Option String), part)) =
              (children.map fun child => (none, child)).map
                fun part => (part.1, treeStats part.2) := by
            rw [List.map_map, List.map_map]
            rfl
          rw [labelStats, hsame] at h
          have hparts := partsStats_ok (by
            intro part hpart measured
            obtain ⟨child, hchild, rfl⟩ := List.mem_map.1 hpart
            exact ih child hchild) h
          rw [labelText, utf8Len_wrapped, hparts, List.map_map]
          show 2 + utf8Len (joinParts (children.map treeText) 0) = 1 + _ + 1
          omega
      | Object keys =>
          have hsame : List.zipWith (fun key part => (some key, part)) keys
                (children.map treeStats) =
              (List.zipWith (fun key child => (some key, child)) keys children).map
                fun part => (part.1, treeStats part.2) := by
            rw [List.zipWith_map_right, List.map_zipWith]
          rw [labelStats, hsame] at h
          have hparts := partsStats_ok (by
            intro part hpart measured
            obtain ⟨k, hk, rfl⟩ := List.mem_iff_getElem.1 hpart
            rw [List.getElem_zipWith]
            exact ih _ (List.getElem_mem _)) h
          rw [labelText, utf8Len_wrapped, hparts, List.map_zipWith, List.zipWith_map_right]
          show 2 + utf8Len (joinParts (List.zipWith
            (fun key child => serializeString key ++ [':'] ++ treeText child) keys children) 0) =
              1 + _ + 1
          omega

/-! ## Documents -/

/-- The text of a tree, or the refusal of one that is too long. -/
def treeSerialized (tree : Rose WireLabel) : ValidationResult Text :=
  match treeStats tree with
  | .error error => .error error
  | .ok (length, _) =>
      if length > MAX_LOGICAL_CHARGE then .error .Limit else .ok (treeText tree)

theorem treeSerialized_ok {tree : Rose WireLabel} {text : Text}
    (h : treeSerialized tree = .ok text) : text = treeText tree := by
  unfold treeSerialized at h
  split at h
  · cases h
  · split at h <;> cases h
    rfl

/-- What is serialized is the tree of the document. -/
theorem canonicalSerialize_eq {document : WireJsonDocument} (h : WellFormed document false)
    {tree : Rose WireLabel} (htree : document.Denotes tree) :
    canonicalSerialize document = some (treeSerialized tree) := by
  have hroot : document.root < document.nodes.length := by
    have hlast := h.root
    omega
  have hvalid : validateWireJson document false =
      .ok ⟨documentCharge document, tree.height⟩ := by
    refine validateWireJson_ok.2 ⟨h, rfl, fun other hother => ?_⟩
    rw [htree.unique hother]
  unfold canonicalSerialize treeSerialized
  rw [hvalid, serializedNodeStats_eq h.oneTree.below htree hroot]
  cases hstats : treeStats tree with
  | error error => rfl
  | ok stats =>
      obtain ⟨length, escapes⟩ := stats
      have hlength : length = utf8Len (treeText tree) := treeStats_ok hstats
      show serializeSized document length = some (if length > MAX_LOGICAL_CHARGE then _ else _)
      unfold serializeSized
      by_cases hlimit : length > MAX_LOGICAL_CHARGE
      · rw [if_pos hlimit, if_pos hlimit]
      · rw [if_neg hlimit, if_neg hlimit, serializeNode_eq h.oneTree.below htree hroot]
        show (if _ then _ else _) = _
        rw [if_neg (by simp [hlength])]

/-- The serializer goes through each node of a document once. -/
theorem serializeNode_perm {document : WireJsonDocument} {objectRoot : Bool}
    (h : WellFormed document objectRoot) {tree : Rose WireLabel}
    (htree : document.Denotes tree) : ∃ visited,
      serializeNode document.nodes document.nodes.length document.root =
        some (treeText tree, visited) ∧ visited.Perm (List.range document.nodes.length) := by
  have hroot : document.root < document.nodes.length := by
    have hlast := h.root
    omega
  have hperm := h.oneTree.visit_perm
  rw [arenaOf_length, ← h.last] at hperm
  exact ⟨_, serializeNode_eq h.oneTree.below htree hroot, hperm⟩

theorem WellFormed.any {document : WireJsonDocument} {objectRoot : Bool}
    (h : WellFormed document objectRoot) : WellFormed document false :=
  { h with object := nofun }

/-- The documents that are accepted are the trees, of which the depth and the charge
are reported; the serializer ends on them and writes each node once. -/
theorem wire_json_is_one_tree :
    (∀ document objectRoot stats, validateWireJson document objectRoot = .ok stats ↔
      WellFormed document objectRoot ∧ stats.logicalCharge = documentCharge document ∧
        ∀ tree, document.Denotes tree → stats.depth = tree.height) ∧
    ∀ document objectRoot, WellFormed document objectRoot → ∃ tree visited,
      document.Denotes tree ∧
        serializeNode document.nodes document.nodes.length document.root =
          some (treeText tree, visited) ∧
        visited.Perm (List.range document.nodes.length) ∧
        ∃ result, canonicalSerialize document = some result ∧
          ∀ text, result = .ok text → text = treeText tree := by
  refine ⟨fun document objectRoot stats => validateWireJson_ok, fun document objectRoot h => ?_⟩
  obtain ⟨tree, htree⟩ := h.exists_tree
  obtain ⟨visited, hvisited, hperm⟩ := serializeNode_perm h htree
  exact ⟨tree, visited, htree, hvisited, hperm, treeSerialized tree,
    canonicalSerialize_eq h.any htree, fun text => treeSerialized_ok⟩

/-- A document of one text with a control character. -/
def controlDocument : WireJsonDocument := ⟨0, [.StringValue "\x01"]⟩

theorem controlDocument_denotes {tree : Rose WireLabel} (h : controlDocument.Denotes tree) :
    tree = .node (.Text "\x01") [] := by
  refine h.unique (Arena.denotes_node.2 ⟨[], rfl, .nil⟩)

/-- It is one tree, with no key and no number, and within the limits; it is refused. -/
theorem control_character_refused :
    controlDocument.root + 1 = controlDocument.nodes.length ∧
      controlDocument.nodes.length ≤ MAX_WIRE_NODES ∧
      (arenaOf controlDocument.nodes).OneTree ∧
      (∀ node ∈ controlDocument.nodes, ∀ keys, node.label = .Object keys →
        keys.IsChain KeyBefore) ∧
      (∀ node ∈ controlDocument.nodes, ∀ value, node.label = .Number value →
        CanonicalNumber value.toList) ∧
      (∀ tree, controlDocument.Denotes tree → tree.height ≤ MAX_WIRE_DEPTH) ∧
      documentCharge controlDocument ≤ MAX_LOGICAL_CHARGE ∧
      validateWireJson controlDocument false = .error .InvalidArgument := by
  have hnode {node : WireJsonNode} (h : node ∈ controlDocument.nodes) :
      node.label = .Text "\x01" := by
    rw [List.mem_singleton.1 h]
    rfl
  refine ⟨rfl, by decide, ⟨by simp [arenaOf, controlDocument], ?_, nofun⟩, ?_, ?_, ?_,
    by decide, rfl⟩
  · intro index label indices hfound child hchild
    cases index with
    | zero =>
        cases hfound
        cases hchild
    | succ index => cases hfound
  · intro node h keys hlabel
    rw [hnode h] at hlabel
    cases hlabel
  · intro node h value hlabel
    rw [hnode h] at hlabel
    cases hlabel
  · intro tree h
    rw [controlDocument_denotes h]
    decide

end MCode.Validation
