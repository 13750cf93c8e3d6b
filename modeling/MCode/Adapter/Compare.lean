import MCode.Adapter.Json
import MCode.Lib.Results

/-!
# What a compared body is

A body that is accepted is one tree, the expected one; its text is that of the
expected tree, as the plain serializer writes it.
-/

namespace MCode.Adapter

open MCode.Lib
open MCode.Lib.Results
open MCode.Validation (Text WireJsonDocument WireJsonNode WireJsonField WireLabel ValidationResult
  utf8Len utf8Len_append utf8Len_cons utf8Len_wrapped escapeChar serializeString checkedLen
  checkedAdd checkedAdd_ok treeText treeText_node labelText joinParts arenaOf arenaOf_getElem?
  arenaOf_length parentsOf parentsOf_getD parentsOf_set parentsOf_nil canonicalSerialize
  canonicalSerialize_eq treeSerialized_ok validateWireJson validateWireJson_ok)

/-! ## The tree of a value -/

theorem AdapterJson.induction {motive : AdapterJson → Prop}
    (null : motive .Null) (boolean : ∀ value, motive (.Boolean value))
    (number : ∀ value, motive (.Number value))
    (string : ∀ value derived, motive (.String value derived))
    (array : ∀ items, (∀ item ∈ items, motive item) → motive (.Array items))
    (object : ∀ fields, (∀ field ∈ fields, motive field.2) → motive (.Object fields)) :
    ∀ value, motive value
  | .Null => null
  | .Boolean value => boolean value
  | .Number value => number value
  | .String value derived => string value derived
  | .Array items => array items fun item _ =>
      induction null boolean number string array object item
  | .Object fields => object fields fun field hfield =>
      have hless : sizeOf field.2 < sizeOf fields := by
        have hmem := List.sizeOf_lt_of_mem hfield
        have hpair : sizeOf field = 1 + sizeOf field.1 + sizeOf field.2 := by
          cases field
          rfl
        omega
      induction null boolean number string array object field.2

mutual

/-- The tree of a value, without the origin of its strings. -/
def AdapterJson.tree : AdapterJson → Rose WireLabel
  | .Null => .node .Null []
  | .Boolean value => .node (.Boolean value) []
  | .Number value => .node (.Number value) []
  | .String value _ => .node (.Text value) []
  | .Array items => .node .Array (itemTrees items)
  | .Object fields => .node (.Object (fields.map Prod.fst)) (fieldTrees fields)

def itemTrees : List AdapterJson → List (Rose WireLabel)
  | [] => []
  | item :: items => item.tree :: itemTrees items

def fieldTrees : List (String × AdapterJson) → List (Rose WireLabel)
  | [] => []
  | (_, value) :: fields => value.tree :: fieldTrees fields

end

theorem itemTrees_eq (items : List AdapterJson) : itemTrees items = items.map (·.tree) := by
  induction items with
  | nil => rfl
  | cons item items ih => rw [itemTrees, ih, List.map_cons]

theorem fieldTrees_eq (fields : List (String × AdapterJson)) :
    fieldTrees fields = (fields.map Prod.snd).map (·.tree) := by
  induction fields with
  | nil => rfl
  | cons field fields ih => rw [fieldTrees, ih, List.map_cons, List.map_cons]

/-! ## The comparison -/

theorem addParent_ok {parent child total : Nat} {references after : List Nat}
    (h : addParent parent child (parentsOf total references) = .ok after) :
    child < parent ∧ after = parentsOf total (references ++ [child]) := by
  have hlength : (parentsOf total references).length = total := by simp [parentsOf]
  unfold addParent at h
  rw [hlength] at h
  split at h
  · cases h
  · rename_i hbounds
    simp only [Bool.or_eq_true, decide_eq_true_eq, not_or, Nat.not_le, ge_iff_le] at hbounds
    dsimp only at h
    rw [parentsOf_getD references hbounds.2] at h
    split at h
    · cases h
    · split at h
      · cases h
      · cases h
        exact ⟨hbounds.1, parentsOf_set total child references⟩

/-- The fields are compared as items, and their keys are the expected ones. -/
theorem compareFields_ok {prepared : WireJsonDocument} {index : Nat}
    {expected : List (String × AdapterJson)} {fields : List WireJsonField}
    {previous : Option String} {maximum : Nat} {parents : List Nat} {result : Nat × List Nat}
    (hlength : expected.length = fields.length)
    (h : compareFields prepared index expected fields previous maximum parents = .ok result) :
    expected.map Prod.fst = fields.map (·.key) ∧
      compareItems prepared index (expected.map Prod.snd) (fields.map (·.value)) maximum
        parents = .ok result := by
  induction expected generalizing fields previous maximum parents with
  | nil =>
      cases fields with
      | nil =>
          rw [compareFields.eq_def] at h
          refine ⟨rfl, ?_⟩
          rw [List.map_nil, compareItems.eq_def]
          exact h
      | cons field fields => cases hlength
  | cons first expected ih =>
      obtain ⟨key, value⟩ := first
      cases fields with
      | nil => cases hlength
      | cons field fields =>
          rw [compareFields] at h
          split at h
          · cases h
          · rename_i hkey
            simp only [Bool.or_eq_true, bne_iff_ne, not_or, not_not] at hkey
            obtain ⟨-, h⟩ := bind_unit_ok.1 h
            obtain ⟨counted, hcounted, h⟩ := bind_ok.1 h
            obtain ⟨⟨depth, after⟩, hvalue, h⟩ := bind_ok.1 h
            obtain ⟨hkeys, hitems⟩ := ih (Nat.succ.inj hlength) h
            refine ⟨?_, ?_⟩
            · rw [List.map_cons, List.map_cons, hkeys, hkey.1]
            · rw [List.map_cons, List.map_cons, compareItems]
              exact bind_ok.2 ⟨counted, hcounted, bind_ok.2 ⟨(depth, after), hvalue, hitems⟩⟩

theorem parentsOf_perm {total : Nat} {references more : List Nat} (h : references.Perm more) :
    parentsOf total references = parentsOf total more := by
  unfold parentsOf
  exact List.map_congr_left fun index _ => h.count_eq index

/-- The values stand at the roots of a walk. -/
structure Stands (prepared : WireJsonDocument) (roots : List Nat) (values : List AdapterJson)
    (visited : List Nat) : Prop where
  denotes : List.Forall₂ (arenaOf prepared.nodes).Denotes roots (values.map (·.tree))
  walk : (arenaOf prepared.nodes).Walk roots visited

/-- The references of the nodes of a walk. -/
def walked (prepared : WireJsonDocument) (visited : List Nat) : List Nat :=
  visited.flatMap (arenaOf prepared.nodes).children

/-- A node above the values that it refers to. -/
theorem Stands.node {prepared : WireJsonDocument} {index : Nat} {node : WireJsonNode}
    {value : AdapterJson} {values : List AdapterJson} {visited : List Nat}
    (hnode : prepared.nodes[index]? = some node)
    (htree : value.tree = .node node.label (values.map (·.tree)))
    (hdown : ∀ child ∈ node.references, child < index)
    (h : Stands prepared node.references values visited) :
    Stands prepared [index] [value] (index :: visited) ∧
      walked prepared (index :: visited) = node.references ++ walked prepared visited := by
  have hfound : (arenaOf prepared.nodes)[index]? = some (node.label, node.references) := by
    rw [arenaOf_getElem?, hnode]
    rfl
  have hchildren := Arena.children_of_found hfound
  refine ⟨⟨?_, ?_⟩, ?_⟩
  · rw [List.map_singleton, htree]
    exact .cons (Arena.denotes_node.2 ⟨_, hfound, h.denotes⟩) .nil
  · refine Arena.Walk.node ?_ ?_
    · rwa [hchildren]
    · rw [hchildren]
      exact h.walk
  · unfold walked
    rw [List.flatMap_cons, hchildren]

/-- A node with nothing below it. -/
theorem Stands.leaf {prepared : WireJsonDocument} {index : Nat} {node : WireJsonNode}
    {value : AdapterJson} (hnode : prepared.nodes[index]? = some node)
    (hreferences : node.references = []) (htree : value.tree = .node node.label []) :
    Stands prepared [index] [value] [index] ∧ walked prepared [index] = [] := by
  have hbelow : Stands prepared node.references [] [] := by
    rw [hreferences]
    exact ⟨.nil, Arena.Walk.nil _⟩
  have hdown : ∀ child ∈ node.references, child < index := by
    rw [hreferences]
    nofun
  obtain ⟨hstands, hwalked⟩ := Stands.node hnode htree hdown hbelow
  rw [hreferences] at hwalked
  exact ⟨hstands, hwalked⟩

/-- A value was found at `index`, and the references below it are counted. -/
def FoundAt (prepared : WireJsonDocument) (value : AdapterJson) : Prop :=
  ∀ index references depth after,
    compareNode prepared value index (parentsOf prepared.nodes.length references) =
      .ok (depth, after) →
    ∃ visited, Stands prepared [index] [value] visited ∧
      after = parentsOf prepared.nodes.length (references ++ walked prepared visited)

theorem compareItems_ok {prepared : WireJsonDocument} {index maximum depth : Nat}
    {expected : List AdapterJson} {items references after : List Nat}
    (hvalues : ∀ value ∈ expected, FoundAt prepared value)
    (hlength : expected.length = items.length)
    (h : compareItems prepared index expected items maximum
      (parentsOf prepared.nodes.length references) = .ok (depth, after)) :
    ∃ visited, Stands prepared items expected visited ∧ (∀ child ∈ items, child < index) ∧
      after = parentsOf prepared.nodes.length
        (references ++ (items ++ walked prepared visited)) := by
  induction expected generalizing items references maximum with
  | nil =>
      cases items with
      | nil =>
          rw [compareItems.eq_def] at h
          cases h
          exact ⟨[], ⟨.nil, Arena.Walk.nil _⟩, nofun, by simp [walked]⟩
      | cons child items => cases hlength
  | cons value expected ih =>
      cases items with
      | nil => cases hlength
      | cons child items =>
          rw [compareItems] at h
          obtain ⟨counted, hcounted, h⟩ := bind_ok.1 h
          obtain ⟨⟨own, middle⟩, hvalue, h⟩ := bind_ok.1 h
          obtain ⟨hchild, rfl⟩ := addParent_ok hcounted
          obtain ⟨first, hfirst, rfl⟩ := hvalues value List.mem_cons_self _ _ _ _ hvalue
          obtain ⟨rest, hrest, hdown, hafter⟩ :=
            ih (fun other hother => hvalues other (List.mem_cons_of_mem _ hother))
              (Nat.succ.inj hlength) h
          refine ⟨first ++ rest, ⟨?_, hfirst.walk.append hrest.walk⟩, ?_, ?_⟩
          · cases hfirst.denotes with
            | cons hdenotes _ => exact .cons hdenotes hrest.denotes
          · exact List.forall_mem_cons.2 ⟨hchild, hdown⟩
          · rw [hafter]
            refine parentsOf_perm ?_
            unfold walked
            rw [List.flatMap_append, List.append_assoc, List.append_assoc, List.cons_append]
            refine List.Perm.append_left _ (List.Perm.cons _ ?_)
            rw [List.nil_append, List.append_eq, ← List.append_assoc, ← List.append_assoc]
            exact List.Perm.append_right _ List.perm_append_comm

/-- A value with nothing below it is found where its node is. -/
theorem foundAt_leaf {prepared : WireJsonDocument} {index depth : Nat} {node : WireJsonNode}
    {value : AdapterJson} {references after : List Nat}
    (hnode : prepared.nodes[index]? = some node) (hreferences : node.references = [])
    (htree : value.tree = .node node.label [])
    (h : (.ok (1, parentsOf prepared.nodes.length references) :
      AdapterValidationResult (Nat × List Nat)) = .ok (depth, after)) :
    ∃ visited, Stands prepared [index] [value] visited ∧
      after = parentsOf prepared.nodes.length (references ++ walked prepared visited) := by
  obtain ⟨hstands, hwalked⟩ := Stands.leaf hnode hreferences htree
  cases h
  exact ⟨_, hstands, by rw [hwalked, List.append_nil]⟩

/-- A container is found where its node is, above what it refers to. -/
theorem foundAt_container {prepared : WireJsonDocument} {index : Nat} {node : WireJsonNode}
    {value : AdapterJson} {values : List AdapterJson} {references after : List Nat}
    (hnode : prepared.nodes[index]? = some node)
    (htree : value.tree = .node node.label (values.map (·.tree)))
    (h : ∃ visited, Stands prepared node.references values visited ∧
      (∀ child ∈ node.references, child < index) ∧
      after = parentsOf prepared.nodes.length
        (references ++ (node.references ++ walked prepared visited))) :
    ∃ visited, Stands prepared [index] [value] visited ∧
      after = parentsOf prepared.nodes.length (references ++ walked prepared visited) := by
  obtain ⟨visited, hbelow, hdown, hafter⟩ := h
  obtain ⟨hstands, hwalked⟩ := Stands.node hnode htree hdown hbelow
  exact ⟨_, hstands, by rw [hwalked]; exact hafter⟩

/-- The comparison goes through the nodes of a tree, the expected one. -/
theorem compareNode_ok (prepared : WireJsonDocument) (value : AdapterJson) :
    FoundAt prepared value := by
  induction value using AdapterJson.induction with
  | null =>
      intro index references depth after h
      rw [compareNode] at h
      split at h
      · rename_i hnode
        exact foundAt_leaf hnode rfl rfl h
      · cases h
  | boolean value =>
      intro index references depth after h
      rw [compareNode] at h
      split at h
      · rename_i hnode
        split at h
        · rename_i hsame
          rw [← beq_iff_eq.1 hsame] at hnode
          exact foundAt_leaf hnode rfl rfl h
        · cases h
      · cases h
  | number value =>
      intro index references depth after h
      rw [compareNode] at h
      split at h
      · rename_i hnode
        split at h
        · rename_i hsame
          rw [← beq_iff_eq.1 hsame] at hnode
          exact foundAt_leaf hnode rfl rfl h
        · cases h
      · cases h
  | string value derived =>
      intro index references depth after h
      rw [compareNode] at h
      split at h
      · rename_i hnode
        split at h
        · rename_i hsame
          rw [← beq_iff_eq.1 hsame] at hnode
          exact foundAt_leaf hnode rfl rfl (bind_unit_ok.1 h).2
        · cases h
      · cases h
  | array values ih =>
      intro index references depth after h
      rw [compareNode] at h
      split at h
      · rename_i items hnode
        split at h
        · rename_i hlength
          obtain ⟨⟨maximum, counted⟩, hitems, h⟩ := bind_ok.1 h
          obtain ⟨above, -, h⟩ := bind_ok.1 h
          cases h
          refine foundAt_container hnode ?_ (compareItems_ok ih (beq_iff_eq.1 hlength) hitems)
          rw [AdapterJson.tree, itemTrees_eq]
          rfl
        · cases h
      · cases h
  | object values ih =>
      intro index references depth after h
      rw [compareNode] at h
      split at h
      · rename_i fields hnode
        split at h
        · rename_i hlength
          obtain ⟨⟨maximum, counted⟩, hfields, h⟩ := bind_ok.1 h
          obtain ⟨above, -, h⟩ := bind_ok.1 h
          cases h
          obtain ⟨hkeys, hitems⟩ := compareFields_ok (beq_iff_eq.1 hlength) hfields
          have hvalues : ∀ value ∈ values.map Prod.snd, FoundAt prepared value :=
            List.forall_mem_map.2 ih
          refine foundAt_container hnode ?_ (compareItems_ok hvalues ?_ hitems)
          · rw [AdapterJson.tree, fieldTrees_eq, hkeys]
            rfl
          · show _ = (fields.map (·.value)).length
            rw [List.length_map, List.length_map]
            exact beq_iff_eq.1 hlength
        · cases h
      · cases h

/-! ## Lengths and texts -/

/-- A character is counted as it is written. -/
theorem escapedSize_eq (c : Char) :
    (if c == '"' || c == '\\' || c == '\t' || c == '\n' then 2 else c.utf8Size) =
      utf8Len (escapeChar c) := by
  unfold escapeChar
  split
  · rename_i hescaped
    simp only [Bool.or_eq_true, beq_iff_eq] at hescaped
    rcases hescaped with ((rfl | rfl) | rfl) | rfl <;> rfl
  · rename_i hplain
    simp only [Bool.or_eq_true, beq_iff_eq, not_or] at hplain
    obtain ⟨⟨⟨hquote, hslash⟩, htab⟩, hline⟩ := hplain
    simp [hquote, hslash, htab, hline, utf8Len]

theorem escapedLength_ok {text : Text} {length total : Nat}
    (h : escapedLength text length = .ok total) :
    total = length + utf8Len (text.flatMap escapeChar) := by
  induction text generalizing length with
  | nil =>
      cases h
      rfl
  | cons c text ih =>
      obtain ⟨sum, hsum, h⟩ := bind_ok.1 h
      rw [ih h, checkedAdd_ok hsum, List.flatMap_cons, utf8Len_append, escapedSize_eq]
      omega

theorem serializedStringLength_ok {value : String} {length : Nat}
    (h : serializedStringLength value = .ok length) :
    length = utf8Len (serializeString value) := by
  rw [escapedLength_ok h]
  unfold serializeString
  rw [utf8Len_wrapped]
  show 2 + _ = 1 + _ + 1
  omega

theorem commaLength_ok {position length after : Nat} (h : commaLength position length = .ok after) :
    after = length + utf8Len (comma position) := by
  unfold commaLength at h
  unfold comma
  by_cases hposition : (position != 0) = true
  · rw [if_pos hposition] at h
    rw [if_pos hposition, checkedAdd_ok h]
    rfl
  · rw [if_neg hposition] at h
    rw [if_neg hposition]
    cases h
    rfl

/-- The length of a value is measured right. -/
def Measured (value : AdapterJson) : Prop :=
  ∀ length, serializedLength value = .ok length → length = utf8Len (serialize value)

theorem itemsLength_ok {items : List AdapterJson} {position length total : Nat}
    (hitems : ∀ item ∈ items, Measured item) (h : itemsLength items position length = .ok total) :
    total = length + utf8Len (serializeItems items position) := by
  induction items generalizing position length with
  | nil =>
      cases h
      rfl
  | cons item items ih =>
      rw [itemsLength] at h
      obtain ⟨before, hbefore, h⟩ := bind_ok.1 h
      obtain ⟨own, hown, h⟩ := bind_ok.1 h
      obtain ⟨sum, hsum, h⟩ := bind_ok.1 h
      rw [ih (fun other hother => hitems other (List.mem_cons_of_mem _ hother)) h,
        checkedAdd_ok hsum, commaLength_ok hbefore, hitems item List.mem_cons_self own hown,
        serializeItems, utf8Len_append, utf8Len_append]
      omega

theorem fieldsLength_ok {fields : List (String × AdapterJson)} {position length total : Nat}
    (hfields : ∀ field ∈ fields, Measured field.2)
    (h : fieldsLength fields position length = .ok total) :
    total = length + utf8Len (serializeFields fields position) := by
  induction fields generalizing position length with
  | nil =>
      cases h
      rfl
  | cons field fields ih =>
      obtain ⟨key, value⟩ := field
      rw [fieldsLength] at h
      obtain ⟨before, hbefore, h⟩ := bind_ok.1 h
      obtain ⟨front, hfront, h⟩ := bind_ok.1 h
      obtain ⟨keyed, hkeyed, h⟩ := bind_ok.1 h
      obtain ⟨colon, hcolon, h⟩ := bind_ok.1 h
      obtain ⟨own, hown, h⟩ := bind_ok.1 h
      obtain ⟨sum, hsum, h⟩ := bind_ok.1 h
      have hvalue : own = utf8Len (serialize value) := hfields _ List.mem_cons_self own hown
      rw [ih (fun other hother => hfields other (List.mem_cons_of_mem _ hother)) h,
        checkedAdd_ok hsum, checkedAdd_ok hcolon, checkedAdd_ok hkeyed, commaLength_ok hbefore,
        serializedStringLength_ok hfront, hvalue, serializeFields, utf8Len_append, utf8Len_append, utf8Len_append, utf8Len_append]
      show _ + _ + _ + 1 + _ + _ = _ + (_ + (_ + 1 + _) + _)
      omega

/-- What is measured is what is written. -/
theorem serializedLength_ok (value : AdapterJson) : Measured value := by
  induction value using AdapterJson.induction with
  | null =>
      intro length h
      cases h
      rfl
  | boolean value =>
      intro length h
      cases value <;> cases h <;> rfl
  | number value =>
      intro length h
      have hlength : checkedLen (utf8Len value.toList) = .ok length := h
      unfold checkedLen at hlength
      split at hlength <;> cases hlength
      rfl
  | string value derived =>
      intro length h
      exact serializedStringLength_ok h
  | array items ih =>
      intro length h
      rw [itemsLength_ok ih h, serialize, utf8Len_wrapped]
      show 2 + _ = 1 + _ + 1
      omega
  | object fields ih =>
      intro length h
      rw [fieldsLength_ok ih h, serialize, utf8Len_wrapped]
      show 2 + _ = 1 + _ + 1
      omega

theorem serializeItems_eq {items : List AdapterJson} (position : Nat)
    (h : ∀ item ∈ items, serialize item = treeText item.tree) :
    serializeItems items position = joinParts ((items.map (·.tree)).map treeText) position := by
  induction items generalizing position with
  | nil => rfl
  | cons item items ih =>
      rw [serializeItems, h item List.mem_cons_self,
        ih (position + 1) fun other hother => h other (List.mem_cons_of_mem _ hother)]
      rfl

theorem serializeFields_eq {fields : List (String × AdapterJson)} (position : Nat)
    (h : ∀ field ∈ fields, serialize field.2 = treeText field.2.tree) :
    serializeFields fields position =
      joinParts (List.zipWith (fun key text => serializeString key ++ [':'] ++ text)
        (fields.map Prod.fst) (((fields.map Prod.snd).map (·.tree)).map treeText)) position := by
  induction fields generalizing position with
  | nil => rfl
  | cons field fields ih =>
      obtain ⟨key, value⟩ := field
      rw [serializeFields, h _ List.mem_cons_self,
        ih (position + 1) fun other hother => h other (List.mem_cons_of_mem _ hother)]
      rfl

/-- A value is written as its tree. -/
theorem serialize_eq (value : AdapterJson) : serialize value = treeText value.tree := by
  induction value using AdapterJson.induction with
  | null => rfl
  | boolean value => cases value <;> rfl
  | number value => rfl
  | string value derived => rfl
  | array items ih =>
      rw [serialize, serializeItems_eq 0 ih, AdapterJson.tree, itemTrees_eq, treeText_node]
      rfl
  | object fields ih =>
      rw [serialize, serializeFields_eq 0 ih, AdapterJson.tree, fieldTrees_eq, treeText_node]
      rfl

/-! ## The whole comparison -/

/-- Where the counts are right, each node but the last is referred to once. -/
theorem counted_once {last : Nat} {references : List Nat}
    (h : (parentsOf (last + 1) references).dropLast.any (· != 1) = false) {index : Nat}
    (hindex : index < last) : references.count index = 1 := by
  have hparents : parentsOf (last + 1) references =
      parentsOf last references ++ [references.count last] := by
    unfold parentsOf
    rw [List.range_succ, List.map_append]
    rfl
  rw [hparents, List.dropLast_concat, List.any_eq_false] at h
  have hone := h (references.count index) (List.mem_map.2 ⟨index, List.mem_range.2 hindex, rfl⟩)
  simpa using hone

theorem serializeExpected_ok {expected : AdapterJson} {bytes : Text}
    (h : serializeExpected expected = .ok bytes) : bytes = serialize expected := by
  obtain ⟨-, h⟩ := bind_unit_ok.1 h
  obtain ⟨length, -, h⟩ := bind_ok.1 h
  split at h
  · cases h
  · dsimp only at h
    split at h
    · cases h
    · cases h
      rfl

/-- A body that is accepted is the expected tree, and is written as the expected tree. -/
theorem compareAndSerialize_ok {expected : AdapterJson} {prepared : WireJsonDocument}
    {bytes : Text} (h : compareAndSerialize expected prepared = .ok bytes) :
    prepared.root + 1 = prepared.nodes.length ∧ (arenaOf prepared.nodes).OneTree ∧
      prepared.Denotes expected.tree ∧ bytes = serialize expected := by
  unfold compareAndSerialize at h
  split at h
  · cases h
  · rename_i hcount
    split at h
    · cases h
    · rename_i hroot
      simp only [Bool.or_eq_true, not_or, bne_iff_ne, not_not, List.isEmpty_iff] at hcount hroot
      have hpos : 0 < prepared.nodes.length := List.length_pos_iff.2 hcount.1
      have hlast : prepared.nodes.length = prepared.root + 1 := by
        have hsame := hroot.1
        omega
      obtain ⟨⟨depth, parents⟩, hcompared, h⟩ := bind_ok.1 h
      dsimp only at h
      split at h
      · cases h
      · rename_i hchecks
        simp only [Bool.or_eq_true, not_or, Bool.not_eq_true] at hchecks
        rw [parentsOf_nil] at hcompared
        obtain ⟨visited, hstands, rfl⟩ := compareNode_ok prepared expected _ _ _ _ hcompared
        have honce := hchecks.2
        rw [hlast, List.nil_append] at honce
        refine ⟨hlast.symm, ?_, ?_, serializeExpected_ok h⟩
        · refine hstands.walk.oneTree ?_ fun index hindex => counted_once honce hindex
          rw [arenaOf_length, hlast]
        · have hdenotes := hstands.denotes
          rw [List.map_singleton] at hdenotes
          cases hdenotes with
          | cons hdenotes _ => exact hdenotes

/-- A body is accepted only if its nodes are one tree under the last of them, the expected
one; the plain serializer writes the same bytes of it.  The length that is measured is always
that of the bytes. -/
theorem compare_agrees {expected : AdapterJson} {prepared : WireJsonDocument} {bytes : Text}
    (h : compareAndSerialize expected prepared = .ok bytes) :
    (prepared.root + 1 = prepared.nodes.length ∧ (arenaOf prepared.nodes).OneTree ∧
      prepared.Denotes expected.tree) ∧
    (∀ text, canonicalSerialize prepared = some (.ok text) → text = bytes) ∧
    ∀ value length, serializedLength value = .ok length → utf8Len (serialize value) = length := by
  obtain ⟨hroot, htree, hdenotes, rfl⟩ := compareAndSerialize_ok h
  refine ⟨⟨hroot, htree, hdenotes⟩, fun text htext => ?_, fun value length hlength => ?_⟩
  · cases hvalid : validateWireJson prepared false with
    | error error =>
        unfold canonicalSerialize at htext
        rw [hvalid] at htext
        cases htext
    | ok stats =>
        have hwell := (validateWireJson_ok.1 hvalid).1
        rw [canonicalSerialize_eq hwell hdenotes] at htext
        rw [treeSerialized_ok (Option.some.inj htext), serialize_eq]
  · exact (serializedLength_ok value length hlength).symm

/-- An object of two fields, the nodes of which are not in the order of its text. -/
def pairBody : AdapterJson :=
  .Object [("a", ordinaryString "x\"y"), ("b", .Array [.Null, .Boolean true])]

def pairDocument : WireJsonDocument :=
  ⟨4, [.BooleanValue true, .NullValue, .ArrayValue [1, 0], .StringValue "x\"y",
    .ObjectValue [⟨"a", 3⟩, ⟨"b", 2⟩]]⟩

theorem compare_agrees_pair :
    compareAndSerialize pairBody pairDocument = .ok (serialize pairBody) ∧
      ∀ text, canonicalSerialize pairDocument = some (.ok text) → text = serialize pairBody :=
  ⟨by decide +kernel, (@compare_agrees pairBody pairDocument (serialize pairBody)
    (by decide +kernel)).2.1⟩

end MCode.Adapter
