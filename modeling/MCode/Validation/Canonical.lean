import MCode.Validation.ToolJson
import MCode.Validation.WireText

/-!
# Canonical tool arguments

`validate_tool_arguments` accepts exactly the texts that `canonical_serialize`
writes for objects within the limits of the parser.  The parser reads the text
of a tree back as `Rose.flatten` writes the tree, children first, and the text
determines the tree.
-/

namespace MCode.Validation

open MCode.Lib

/-! ## Nodes of trees -/

/-- The fields of an object with these keys. -/
def fieldsOf (keys : List String) (indices : List Nat) : List WireJsonField :=
  (keys.zip indices).map fun field => ⟨field.1, field.2⟩

/-- The node with a label and references. -/
def nodeOf : WireLabel → List Nat → WireJsonNode
  | .Null, _ => .NullValue
  | .Boolean value, _ => .BooleanValue value
  | .Number value, _ => .NumberValue value
  | .Text value, _ => .StringValue value
  | .Array, items => .ArrayValue items
  | .Object keys, values => .ObjectValue (fieldsOf keys values)

def nodesOf (arena : Arena WireLabel) : List WireJsonNode :=
  arena.map fun node => nodeOf node.1 node.2

/-- The children that a node has room for. -/
def Takes : WireLabel → Nat → Prop
  | .Array, _ => True
  | .Object keys, arity => arity = keys.length
  | _, arity => arity = 0

/-- A label of an accepted document. -/
def Acceptable (label : WireLabel) (arity : Nat) : Prop := LabelOk label ∧ Takes label arity

theorem node_takes (node : WireJsonNode) : Takes node.label node.references.length := by
  cases node with
  | ObjectValue fields =>
      show (fields.map _).length = (fields.map _).length
      rw [List.length_map, List.length_map]
  | ArrayValue => trivial
  | _ => rfl

theorem nodeOf_label {label : WireLabel} {indices : List Nat} (h : Takes label indices.length) :
    (nodeOf label indices).label = label ∧ (nodeOf label indices).references = indices := by
  cases label with
  | Array => exact ⟨rfl, rfl⟩
  | Object keys =>
      have hlength : indices.length = keys.length := h
      show WireLabel.Object (((keys.zip indices).map _).map _) = _ ∧
        ((keys.zip indices).map _).map _ = _
      rw [List.map_map, List.map_map]
      constructor
      · exact congrArg WireLabel.Object (List.map_fst_zip (Nat.le_of_eq hlength.symm))
      · exact List.map_snd_zip (Nat.le_of_eq hlength)
  | _ =>
      have hnone : indices = [] := List.length_eq_zero_iff.1 h
      exact ⟨rfl, hnone.symm⟩

theorem arenaOf_nodesOf {arena : Arena WireLabel}
    (h : ∀ node ∈ arena, Takes node.1 node.2.length) : arenaOf (nodesOf arena) = arena := by
  unfold arenaOf nodesOf
  rw [List.map_map]
  have hsame (node : WireLabel × List Nat) (hnode : node ∈ arena) :
      ((nodeOf node.1 node.2).label, (nodeOf node.1 node.2).references) = node := by
    obtain ⟨hlabel, hreferences⟩ := nodeOf_label (h node hnode)
    rw [hlabel, hreferences]
  exact (List.map_congr_left hsame).trans (List.map_id _)

/-! ## Texts of labels -/

/-- A character that the parser reads as itself, in a string. -/
theorem escapeChar_plain {c : Char} (hquote : c ≠ '"') (hslash : c ≠ '\\') (htab : c ≠ '\t')
    (hline : c ≠ '\n') : escapeChar c = [c] := by
  simp [escapeChar, hquote, hslash, htab, hline]

/-- The parser reads a safe text back. -/
theorem parseChars_escaped {value rest : Text} {fuel : Nat}
    (hsafe : ∀ c ∈ value, isUnsafeChar c = false) (hfuel : value.length < fuel) :
    parseChars fuel (value.flatMap escapeChar ++ '"' :: rest) = .ok (value, rest) := by
  induction value generalizing fuel with
  | nil =>
      cases fuel with
      | zero => cases hfuel
      | succ fuel => rfl
  | cons c value ih =>
      cases fuel with
      | zero => cases hfuel
      | succ fuel =>
          have hrest := ih (fun other hother => hsafe other (List.mem_cons_of_mem _ hother))
            (Nat.lt_of_succ_lt_succ hfuel)
          -- a character behind a backslash
          have hescaped (escape : Char)
              (hread : parseEscape (escape :: (value.flatMap escapeChar ++ '"' :: rest)) =
                .ok (c, value.flatMap escapeChar ++ '"' :: rest)) :
              parseChars (fuel + 1)
                  ('\\' :: escape :: (value.flatMap escapeChar ++ '"' :: rest)) =
                .ok (c :: value, rest) := by
            unfold parseChars
            rw [if_neg (by decide), if_pos (by decide), hread]
            show (parseChars fuel _ >>= _) = _
            rw [hrest]
            rfl
          rw [List.flatMap_cons, List.append_assoc]
          by_cases hquote : c = '"'
          · subst hquote
            exact hescaped '"' rfl
          by_cases hslash : c = '\\'
          · subst hslash
            exact hescaped '\\' rfl
          by_cases htab : c = '\t'
          · subst htab
            exact hescaped 't' rfl
          by_cases hline : c = '\n'
          · subst hline
            exact hescaped 'n' rfl
          have hvisible : ¬ c.toNat ≤ 0x1f := by
            intro hcontrol
            have hunsafe := hsafe c List.mem_cons_self
            have hchar {value : Nat} (h : c.toNat = value) : c = Char.ofNat value := by
              rw [← h, Char.ofNat_toNat]
            have hnine : c.toNat ≠ 9 := fun h => htab (hchar h)
            have hten : c.toNat ≠ 10 := fun h => hline (hchar h)
            unfold isUnsafeChar at hunsafe
            simp only [Bool.or_eq_false_iff, Bool.and_eq_false_iff, decide_eq_false_iff_not]
              at hunsafe
            omega
          rw [escapeChar_plain hquote hslash htab hline]
          show parseChars (fuel + 1) (c :: (value.flatMap escapeChar ++ '"' :: rest)) = _
          unfold parseChars
          rw [if_neg (by simpa using hquote), if_neg (by simpa using hslash), if_neg hvisible,
            hrest]
          rfl

theorem escapeChar_length (c : Char) : 1 ≤ (escapeChar c).length := by
  unfold escapeChar
  repeat' split
  all_goals simp

theorem parseString_serialized {value : String} {rest : Text}
    (hsafe : ∀ c ∈ value.toList, isUnsafeChar c = false) :
    parseString (serializeString value ++ rest) = .ok (value, rest) := by
  have hlength (text : Text) : text.length ≤ (text.flatMap escapeChar).length := by
    induction text with
    | nil => exact Nat.le_refl _
    | cons c text ih =>
        have hone := escapeChar_length c
        rw [List.flatMap_cons, List.length_append, List.length_cons]
        omega
  have hfuel : value.toList.length <
      (value.toList.flatMap escapeChar ++ '"' :: rest).length := by
    have hle := hlength value.toList
    rw [List.length_append, List.length_cons]
    omega
  have hshape : serializeString value ++ rest =
      '"' :: (value.toList.flatMap escapeChar ++ '"' :: rest) := by
    unfold serializeString
    rw [List.append_assoc]
    rfl
  rw [hshape]
  show parseChars _ (value.toList.flatMap escapeChar ++ '"' :: rest) >>= _ = _
  rw [parseChars_escaped hsafe hfuel]
  show Except.ok (String.ofList value.toList, rest) = _
  rw [String.ofList_toList]

/-! ## Heads and ends -/

/-- What may stand behind a number. -/
def EndsValue (rest : Text) : Prop := ∀ c ∈ rest.head?, endsToken c = true

theorem numberChar_open {c : Char} (h : IsNumberChar c) : endsToken c = false := by
  rw [Bool.eq_false_iff]
  intro hends
  simp only [endsToken, isJsonWhitespace, Bool.or_eq_true, beq_iff_eq] at hends
  rcases hends with ((rfl | rfl) | rfl) | ((rfl | rfl) | rfl) | rfl <;>
    simp [IsNumberChar, isAsciiDigit] at h

theorem number_token {value rest : Text} (hchars : ∀ c ∈ value, IsNumberChar c)
    (hrest : EndsValue rest) :
    (value ++ rest).takeWhile (fun c => !endsToken c) = value ∧
      (value ++ rest).dropWhile (fun c => !endsToken c) = rest := by
  have hopen : ∀ c ∈ value, (!endsToken c) = true := by
    intro c hc
    rw [numberChar_open (hchars c hc)]
    rfl
  rw [List.takeWhile_append_of_pos hopen, List.dropWhile_append_of_pos hopen]
  cases rest with
  | nil => simp
  | cons c rest => simp [hrest c rfl]

/-- A text starts neither with whitespace nor with the end of an array. -/
def OpensValue (text : Text) : Prop :=
  ∃ c behind, text = c :: behind ∧ isJsonWhitespace c = false ∧ c ≠ ']'

theorem skipWhitespace_opens {text : Text} (h : OpensValue text) (rest : Text) :
    skipWhitespace (text ++ rest) = text ++ rest := by
  obtain ⟨c, behind, rfl, hplain, -⟩ := h
  exact List.dropWhile_cons_of_neg (by simp [hplain])

theorem treeText_opens {tree : Rose WireLabel} (h : tree.Each Acceptable) :
    OpensValue (treeText tree) := by
  obtain ⟨label, children⟩ := tree
  obtain ⟨⟨hlabel, -⟩, -⟩ := Rose.each_node.1 h
  rw [treeText_node]
  cases label with
  | Null => exact ⟨'n', _, rfl, rfl, by decide⟩
  | Boolean value => cases value <;> exact ⟨_, _, rfl, rfl, by decide⟩
  | Number value =>
      obtain ⟨c, behind, htext, hc⟩ := numberGrammar_head hlabel.2
      have hopen : endsToken c = false :=
        numberChar_open (hc.elim (fun hsign => Or.inr (Or.inl hsign)) Or.inl)
      simp only [endsToken, Bool.or_eq_false_iff, beq_eq_false_iff_ne] at hopen
      exact ⟨c, behind, htext, hopen.2, hopen.1.1.2⟩
  | Text value => exact ⟨'"', _, rfl, rfl, by decide⟩
  | Array => exact ⟨'[', _, rfl, rfl, by decide⟩
  | Object keys => exact ⟨'{', _, rfl, rfl, by decide⟩

/-! ## Values -/

/-- The parser reads the text of a tree and pushes its nodes. -/
def Reads (tree : Rose WireLabel) : Prop :=
  ∀ (fuel depth : Nat) (before : List WireJsonNode) (rest : Text),
    2 * (treeText tree).length ≤ fuel → depth + tree.height ≤ MAX_TOOL_ARGUMENT_DEPTH + 1 →
    before.length + tree.size ≤ MAX_TOOL_ARGUMENT_NODES → EndsValue rest →
    parseValue fuel depth ⟨treeText tree ++ rest, before⟩ =
      .ok (before.length + (tree.size - 1),
        ⟨rest, before ++ nodesOf (tree.flatten before.length)⟩)

theorem nodesOf_append (left right : Arena WireLabel) :
    nodesOf (left ++ right) = nodesOf left ++ nodesOf right := List.map_append

theorem nodesOf_length (arena : Arena WireLabel) : (nodesOf arena).length = arena.length :=
  List.length_map ..

/-- The parts of a container, behind its bracket. -/
theorem joinParts_cons (part : Text) (parts : List Text) :
    joinParts (part :: parts) 0 = part ++ parts.flatMap (',' :: ·) := by
  have hrest (parts : List Text) (position : Nat) :
      joinParts parts (position + 1) = parts.flatMap (',' :: ·) := by
    induction parts generalizing position with
    | nil => rfl
    | cons part parts ih =>
        rw [joinParts, ih, List.flatMap_cons]
        rfl
  rw [joinParts, hrest]
  rfl

theorem parseItems_last {fuel depth item : Nat} {self : Parser} {rest : Text}
    {nodes : List WireJsonNode}
    (h : parseValue fuel depth self = .ok (item, ⟨']' :: rest, nodes⟩)) :
    parseItems (fuel + 1) depth self = .ok ([item], ⟨rest, nodes⟩) := by
  rw [parseItems, h]
  rfl

theorem parseItems_more {fuel depth item : Nat} {self : Parser} {more : Text}
    {nodes : List WireJsonNode} {items : List Nat} {last : Parser}
    (h : parseValue fuel depth self = .ok (item, ⟨',' :: more, nodes⟩))
    (hmore : parseItems fuel depth ⟨more, nodes⟩ = .ok (items, last)) :
    parseItems (fuel + 1) depth self = .ok (item :: items, last) := by
  rw [parseItems, h]
  show (parseItems fuel depth ⟨more, nodes⟩ >>= _) = _
  rw [hmore]
  rfl

/-- The nodes of trees, with more behind them. -/
theorem nodes_flattens (before : List WireJsonNode) (tree : Rose WireLabel)
    (trees : List (Rose WireLabel)) :
    before ++ nodesOf (Rose.flattens before.length (tree :: trees)).1 =
      (before ++ nodesOf (tree.flatten before.length)) ++ nodesOf (Rose.flattens
        (before ++ nodesOf (tree.flatten before.length)).length trees).1 := by
  rw [Rose.flattens_cons, nodesOf_append, List.append_assoc, List.length_append, nodesOf_length]

theorem roots_flattens (before : List WireJsonNode) (tree : Rose WireLabel)
    (trees : List (Rose WireLabel)) :
    (Rose.flattens before.length (tree :: trees)).2 = (before.length + (tree.size - 1)) ::
      (Rose.flattens (before ++ nodesOf (tree.flatten before.length)).length trees).2 := by
  rw [Rose.flattens_cons, List.length_append, nodesOf_length, Rose.flatten_length]

theorem parseItems_reads {first : Rose WireLabel} {others : List (Rose WireLabel)}
    (hreads : ∀ tree ∈ first :: others, Reads tree)
    {fuel depth : Nat} (before : List WireJsonNode) (rest : Text)
    (hfuel : 2 * ((treeText first).length +
      (others.flatMap fun tree => ',' :: treeText tree).length) < fuel)
    (hdepth : ∀ tree ∈ first :: others, depth + tree.height ≤ MAX_TOOL_ARGUMENT_DEPTH + 1)
    (hnodes : before.length + ((first :: others).map Rose.size).sum ≤
      MAX_TOOL_ARGUMENT_NODES) :
    parseItems fuel depth ⟨treeText first ++
        ((others.flatMap fun tree => ',' :: treeText tree) ++ ']' :: rest), before⟩ =
      .ok ((Rose.flattens before.length (first :: others)).2, ⟨rest, before ++
        nodesOf (Rose.flattens before.length (first :: others)).1⟩) := by
  induction others generalizing first fuel before with
  | nil =>
      obtain ⟨fuel, rfl⟩ : ∃ less, fuel = less + 1 := ⟨fuel - 1, by omega⟩
      have hsize : before.length + first.size ≤ MAX_TOOL_ARGUMENT_NODES := by simpa using hnodes
      have hends : EndsValue (']' :: rest) := by
        intro c hc
        cases hc
        rfl
      have hread := hreads first List.mem_cons_self fuel depth before (']' :: rest) (by omega)
        (hdepth first List.mem_cons_self) hsize hends
      rw [roots_flattens, nodes_flattens]
      show _ = Except.ok ([_], Parser.mk rest (_ ++ []))
      rw [List.append_nil]
      exact parseItems_last hread
  | cons second others ih =>
      rw [List.flatMap_cons, List.length_append, List.length_cons] at hfuel
      rw [List.map_cons, List.sum_cons] at hnodes
      obtain ⟨fuel, rfl⟩ : ∃ less, fuel = less + 1 := ⟨fuel - 1, by omega⟩
      have hlength : (before ++ nodesOf (first.flatten before.length)).length =
          before.length + first.size := by
        rw [List.length_append, nodesOf_length, Rose.flatten_length]
      have hread := hreads first List.mem_cons_self fuel depth before
        (',' :: (treeText second ++
          ((others.flatMap fun tree => ',' :: treeText tree) ++ ']' :: rest))) (by omega)
        (hdepth first List.mem_cons_self) (by omega) (by
          intro c hc
          cases hc
          rfl)
      have hrest := ih (fun tree htree => hreads tree (List.mem_cons_of_mem _ htree))
        (before ++ nodesOf (first.flatten before.length)) (show 2 * _ < fuel by omega)
        (fun tree htree => hdepth tree (List.mem_cons_of_mem _ htree)) (by
          rw [hlength]
          omega)
      rw [roots_flattens, nodes_flattens, List.flatMap_cons, List.append_assoc]
      exact parseItems_more hread hrest

/-- The text of a field. -/
def fieldText (field : String × Rose WireLabel) : Text :=
  serializeString field.1 ++ [':'] ++ treeText field.2

/-- An object is the list of its fields. -/
theorem exists_fields {keys : List String} {children : List (Rose WireLabel)}
    (h : Takes (.Object keys) children.length) : ∃ fields : List (String × Rose WireLabel),
      keys = fields.map Prod.fst ∧ children = fields.map Prod.snd := by
  have hlength : children.length = keys.length := h
  exact ⟨keys.zip children, (List.map_fst_zip (Nat.le_of_eq hlength.symm)).symm,
    (List.map_snd_zip (Nat.le_of_eq hlength)).symm⟩

theorem fieldTexts (fields : List (String × Rose WireLabel)) :
    List.zipWith (fun key text => serializeString key ++ [':'] ++ text)
      (fields.map Prod.fst) ((fields.map Prod.snd).map treeText) = fields.map fieldText := by
  rw [List.map_map, List.zipWith_map, List.zipWith_self]
  rfl

theorem fieldText_append (field : String × Rose WireLabel) (rest : Text) :
    fieldText field ++ rest = serializeString field.1 ++ (':' :: (treeText field.2 ++ rest)) := by
  unfold fieldText
  rw [List.append_assoc, List.append_assoc]
  rfl

theorem fieldText_longer (field : String × Rose WireLabel) :
    (treeText field.2).length < (fieldText field).length := by
  unfold fieldText
  rw [List.length_append, List.length_append, List.length_singleton]
  omega

theorem skipWhitespace_field (field : String × Rose WireLabel) (rest : Text) :
    skipWhitespace (fieldText field ++ rest) = fieldText field ++ rest := by
  rw [fieldText_append]
  rfl

theorem parseFields_last {fuel depth index : Nat} {keys : List String}
    {field : String × Rose WireLabel} {before nodes : List WireJsonNode} {rest tail : Text}
    (hkey : ∀ c ∈ field.1.toList, isUnsafeChar c = false) (hfresh : field.1 ∉ keys)
    (hvalue : parseValue fuel depth ⟨treeText field.2 ++ rest, before⟩ =
      .ok (index, ⟨'}' :: tail, nodes⟩)) :
    parseFields (fuel + 1) depth keys ⟨fieldText field ++ rest, before⟩ =
      .ok ([⟨field.1, index⟩], ⟨tail, nodes⟩) := by
  have hcontains : keys.contains field.1 = false := by simpa using hfresh
  rw [parseFields, skipWhitespace_field, fieldText_append, parseString_serialized hkey]
  show (if keys.contains field.1 = true then _ else
    (expectByte ':' (skipWhitespace (':' :: (treeText field.2 ++ rest))) >>= _)) = _
  rw [hcontains]
  show (parseValue fuel depth ⟨treeText field.2 ++ rest, before⟩ >>= _) = _
  rw [hvalue]
  rfl

theorem parseFields_more {fuel depth index : Nat} {keys : List String}
    {field : String × Rose WireLabel} {before nodes : List WireJsonNode} {rest tail : Text}
    {fields : List WireJsonField} {last : Parser}
    (hkey : ∀ c ∈ field.1.toList, isUnsafeChar c = false) (hfresh : field.1 ∉ keys)
    (hvalue : parseValue fuel depth ⟨treeText field.2 ++ rest, before⟩ =
      .ok (index, ⟨',' :: tail, nodes⟩))
    (hmore : parseFields fuel depth (field.1 :: keys) ⟨tail, nodes⟩ = .ok (fields, last)) :
    parseFields (fuel + 1) depth keys ⟨fieldText field ++ rest, before⟩ =
      .ok (⟨field.1, index⟩ :: fields, last) := by
  have hcontains : keys.contains field.1 = false := by simpa using hfresh
  rw [parseFields, skipWhitespace_field, fieldText_append, parseString_serialized hkey]
  show (if keys.contains field.1 = true then _ else
    (expectByte ':' (skipWhitespace (':' :: (treeText field.2 ++ rest))) >>= _)) = _
  rw [hcontains]
  show (parseValue fuel depth ⟨treeText field.2 ++ rest, before⟩ >>= _) = _
  rw [hvalue]
  show (parseFields fuel depth (field.1 :: keys) ⟨tail, nodes⟩ >>= _) = _
  rw [hmore]
  rfl

theorem parseFields_reads {first : String × Rose WireLabel}
    {others : List (String × Rose WireLabel)}
    (hreads : ∀ field ∈ first :: others, Reads field.2)
    (hsafe : ∀ field ∈ first :: others, ∀ c ∈ field.1.toList, isUnsafeChar c = false)
    {fuel depth : Nat} (keys : List String) (before : List WireJsonNode) (rest : Text)
    (hkeys : (keys ++ (first :: others).map Prod.fst).Nodup)
    (hfuel : 2 * ((fieldText first).length +
      (others.flatMap fun field => ',' :: fieldText field).length) < fuel)
    (hdepth : ∀ field ∈ first :: others,
      depth + field.2.height ≤ MAX_TOOL_ARGUMENT_DEPTH + 1)
    (hnodes : before.length + ((first :: others).map fun field => field.2.size).sum ≤
      MAX_TOOL_ARGUMENT_NODES) :
    parseFields fuel depth keys ⟨fieldText first ++
        ((others.flatMap fun field => ',' :: fieldText field) ++ '}' :: rest), before⟩ =
      .ok (fieldsOf ((first :: others).map Prod.fst)
          (Rose.flattens before.length ((first :: others).map Prod.snd)).2,
        ⟨rest, before ++
          nodesOf (Rose.flattens before.length ((first :: others).map Prod.snd)).1⟩) := by
  induction others generalizing first fuel before keys with
  | nil =>
      obtain ⟨fuel, rfl⟩ : ∃ less, fuel = less + 1 := ⟨fuel - 1, by omega⟩
      have hlonger := fieldText_longer first
      have hfresh : first.1 ∉ keys := fun hmem =>
        List.disjoint_of_nodup_append hkeys hmem List.mem_cons_self
      have hsize : before.length + first.2.size ≤ MAX_TOOL_ARGUMENT_NODES := by
        simpa using hnodes
      have hends : EndsValue ('}' :: rest) := by
        intro c hc
        cases hc
        rfl
      have hread := hreads first List.mem_cons_self fuel depth before ('}' :: rest) (by omega)
        (hdepth first List.mem_cons_self) hsize hends
      simp only [List.map_cons, roots_flattens, nodes_flattens]
      show _ = Except.ok ([_], Parser.mk rest (_ ++ []))
      rw [List.append_nil]
      exact parseFields_last (hsafe first List.mem_cons_self) hfresh hread
  | cons second others ih =>
      rw [List.flatMap_cons, List.length_append, List.length_cons] at hfuel
      rw [List.map_cons, List.sum_cons] at hnodes
      obtain ⟨fuel, rfl⟩ : ∃ less, fuel = less + 1 := ⟨fuel - 1, by omega⟩
      have hlength : (before ++ nodesOf (first.2.flatten before.length)).length =
          before.length + first.2.size := by
        rw [List.length_append, nodesOf_length, Rose.flatten_length]
      have hlonger := fieldText_longer first
      have hfresh : first.1 ∉ keys := fun hmem =>
        List.disjoint_of_nodup_append hkeys hmem List.mem_cons_self
      have hread := hreads first List.mem_cons_self fuel depth before
        (',' :: (fieldText second ++
          ((others.flatMap fun field => ',' :: fieldText field) ++ '}' :: rest))) (by omega)
        (hdepth first List.mem_cons_self) (by omega) (by
          intro c hc
          cases hc
          rfl)
      have hrest := ih (fun field hfield => hreads field (List.mem_cons_of_mem _ hfield))
        (fun field hfield => hsafe field (List.mem_cons_of_mem _ hfield)) (first.1 :: keys)
        (before ++ nodesOf (first.2.flatten before.length)) (List.perm_middle.nodup_iff.1 hkeys)
        (show 2 * _ < fuel by omega)
        (fun field hfield => hdepth field (List.mem_cons_of_mem _ hfield)) (by
          rw [hlength]
          omega)
      rw [List.flatMap_cons, List.append_assoc]
      show _ = Except.ok (fieldsOf (first.1 :: (second :: others).map Prod.fst)
          (Rose.flattens before.length (first.2 :: (second :: others).map Prod.snd)).2,
        Parser.mk rest (before ++ nodesOf
          (Rose.flattens before.length (first.2 :: (second :: others).map Prod.snd)).1))
      rw [roots_flattens, nodes_flattens]
      exact parseFields_more (hsafe first List.mem_cons_self) hfresh hread hrest

theorem pushNode_ok {rest : Text} {nodes : List WireJsonNode} (node : WireJsonNode)
    (h : nodes.length < MAX_TOOL_ARGUMENT_NODES) :
    pushNode rest nodes node = .ok (nodes.length, ⟨rest, nodes ++ [node]⟩) := by
  unfold pushNode
  rw [if_neg (by omega)]

/-- The node above trees that are written is pushed behind them. -/
theorem pushNode_flattens (label : WireLabel) (children : List (Rose WireLabel))
    (before : List WireJsonNode) (rest : Text)
    (h : before.length + (1 + (children.map Rose.size).sum) ≤ MAX_TOOL_ARGUMENT_NODES) :
    pushNode rest (before ++ nodesOf (Rose.flattens before.length children).1)
        (nodeOf label (Rose.flattens before.length children).2) =
      .ok (before.length + (children.map Rose.size).sum,
        ⟨rest, before ++ nodesOf ((Rose.flattens before.length children).1 ++
          [(label, (Rose.flattens before.length children).2)])⟩) := by
  have hlength : (before ++ nodesOf (Rose.flattens before.length children).1).length =
      before.length + (children.map Rose.size).sum := by
    rw [List.length_append, nodesOf_length,
      Rose.flattens_length fun tree _ offset => Rose.flatten_length tree offset]
  rw [pushNode_ok _ (by omega), hlength, nodesOf_append, List.append_assoc]
  rfl

/-- The children of a node are less deep. -/
theorem height_below {depth bound : Nat} {trees : List (Rose WireLabel)}
    (h : depth + ((trees.map Rose.height).foldl max 0 + 1) ≤ bound) :
    ∀ tree ∈ trees, depth + 1 + tree.height ≤ bound := by
  intro tree htree
  have hle : tree.height ≤ (trees.map Rose.height).foldl max 0 :=
    Arena.le_foldl_max (Or.inr (List.mem_map.2 ⟨tree, htree, rfl⟩))
  omega

theorem parseArray_opened {fuel depth : Nat} {text rest : Text} {nodes : List WireJsonNode}
    (h : OpensValue text) :
    (match skipWhitespace (text ++ rest) with
      | ']' :: rest => pushNode rest nodes (.ArrayValue [])
      | rest => do
          let (items, self) ← parseItems fuel depth ⟨rest, nodes⟩
          pushNode self.rest self.nodes (.ArrayValue items)) =
      parseItems fuel depth ⟨text ++ rest, nodes⟩ >>= fun (items, self) =>
        pushNode self.rest self.nodes (.ArrayValue items) := by
  rw [skipWhitespace_opens h]
  obtain ⟨c, behind, rfl, -, hclose⟩ := h
  split
  · rename_i heq
    exact absurd (List.cons.inj heq).1 hclose
  · rfl

theorem parseObject_opened {fuel depth : Nat} (field : String × Rose WireLabel) {rest : Text}
    {nodes : List WireJsonNode} :
    (match skipWhitespace (fieldText field ++ rest) with
      | '}' :: rest => pushNode rest nodes (.ObjectValue [])
      | rest => do
          let (fields, self) ← parseFields fuel depth [] ⟨rest, nodes⟩
          pushNode self.rest self.nodes (.ObjectValue fields)) =
      parseFields fuel depth [] ⟨fieldText field ++ rest, nodes⟩ >>= fun (fields, self) =>
        pushNode self.rest self.nodes (.ObjectValue fields) := by
  rw [skipWhitespace_field, fieldText_append]
  rfl

theorem keys_nodup {keys : List String} (h : keys.IsChain KeyBefore) : keys.Nodup := by
  have htrans : IsTrans String KeyBefore :=
    ⟨fun _ _ _ hfirst hsecond => List.lt_trans hfirst hsecond⟩
  refine (List.isChain_iff_pairwise.1 h).imp fun hbefore => ?_
  rintro rfl
  exact List.lt_irrefl _ hbefore

/-- The parser reads the text of every acceptable tree. -/
theorem reads_tree {tree : Rose WireLabel} (h : tree.Each Acceptable) : Reads tree := by
  induction tree using Rose.induction with
  | node label children ih =>
      intro fuel depth before rest hfuel hdepth hnodes hends
      have hopens := treeText_opens h
      obtain ⟨⟨hlabel, htakes⟩, hchildren⟩ := Rose.each_node.1 h
      obtain ⟨fuel, rfl⟩ : ∃ less, fuel = less + 1 := by
        obtain ⟨c, behind, htext, -, -⟩ := hopens
        rw [htext, List.length_cons] at hfuel
        exact ⟨fuel - 1, by omega⟩
      rw [Rose.height_node] at hdepth
      rw [parseValue, if_neg (by omega)]
      dsimp only
      rw [skipWhitespace_opens hopens, treeText_node]
      rw [treeText_node] at hfuel
      rw [Rose.size_node] at hnodes ⊢
      rw [Nat.add_sub_cancel_left, Rose.flatten]
      -- a value without children
      have hleaf (hnone : children = []) (node : WireJsonNode) (hnode : nodeOf label [] = node) :
          pushNode rest before node = .ok (before.length + (children.map Rose.size).sum,
            ⟨rest, before ++ nodesOf ((Rose.flattens before.length children).1 ++
              [(label, (Rose.flattens before.length children).2)])⟩) := by
        subst hnone hnode
        have hpush := pushNode_flattens label [] before rest hnodes
        have hbefore : before ++ nodesOf (Rose.flattens before.length []).1 = before :=
          List.append_nil before
        rw [hbefore] at hpush
        exact hpush
      cases label with
      | Null =>
          have hnone : children = [] := List.length_eq_zero_iff.1 htakes
          exact hleaf hnone .NullValue rfl
      | Boolean value =>
          have hnone : children = [] := List.length_eq_zero_iff.1 htakes
          cases value with
          | true => exact hleaf hnone (.BooleanValue true) rfl
          | false => exact hleaf hnone (.BooleanValue false) rfl
      | Number value =>
          have hnone : children = [] := List.length_eq_zero_iff.1 htakes
          obtain ⟨c, behind, htext, hc⟩ := numberGrammar_head hlabel.2
          have hnot (other : Char) (hother : (other == '-' || isAsciiDigit other) = false) :
              (c == other) = false := by
            rw [beq_eq_false_iff_ne]
            rintro rfl
            rcases hc with rfl | hc
            · cases hother
            · rw [hc, Bool.or_true] at hother
              cases hother
          have hstart : (c == '-' || isAsciiDigit c) = true := by
            rcases hc with rfl | hc
            · rfl
            · rw [hc, Bool.or_true]
          obtain ⟨htoken, hrest⟩ := number_token (numberGrammar_le hlabel.2) hends
          have hread := hleaf hnone (.NumberValue value) rfl
          rw [labelText, htext, List.cons_append]
          rw [htext, List.cons_append] at htoken hrest
          dsimp only
          rw [hnot 'n' rfl, hnot 't' rfl, hnot 'f' rfl, hnot '"' rfl, hnot '[' rfl, hnot '{' rfl,
            hstart, htoken, hrest, ← htext, String.ofList_toList]
          exact hread
      | Text value =>
          have hnone : children = [] := List.length_eq_zero_iff.1 htakes
          have hstring : parseString (serializeString value ++ rest) = .ok (value, rest) :=
            parseString_serialized hlabel.2
          show (parseString (serializeString value ++ rest) >>= _) = _
          rw [hstring]
          exact hleaf hnone (.StringValue value) rfl
      | Array =>
          cases children with
          | nil => exact hleaf rfl (.ArrayValue []) rfl
          | cons first others =>
              have htext : labelText .Array ((first :: others).map treeText) =
                  '[' :: (treeText first ++
                    ((others.flatMap fun tree => ',' :: treeText tree) ++ [']'])) := by
                rw [labelText, List.map_cons, joinParts_cons, List.flatMap_map, List.cons_append,
                  List.append_assoc]
              have hbehind : labelText .Array ((first :: others).map treeText) ++ rest =
                  '[' :: (treeText first ++
                    ((others.flatMap fun tree => ',' :: treeText tree) ++ ']' :: rest)) := by
                rw [htext, List.cons_append, List.append_assoc, List.append_assoc,
                  List.singleton_append]
              rw [htext, List.length_cons, List.length_append, List.length_append,
                List.length_singleton] at hfuel
              have hitems := parseItems_reads
                (fun tree htree => ih tree htree (hchildren tree htree)) before rest
                (show 2 * _ < fuel by omega) (height_below hdepth) (by omega)
              rw [hbehind]
              refine (parseArray_opened
                (treeText_opens (hchildren first List.mem_cons_self))).trans ?_
              rw [hitems]
              exact pushNode_flattens .Array (first :: others) before rest hnodes
      | Object keys =>
          obtain ⟨fields, rfl, rfl⟩ := exists_fields htakes
          cases fields with
          | nil => exact hleaf rfl (.ObjectValue []) rfl
          | cons first others =>
              have htext : labelText (.Object ((first :: others).map Prod.fst))
                    (((first :: others).map Prod.snd).map treeText) =
                  '{' :: (fieldText first ++
                    ((others.flatMap fun field => ',' :: fieldText field) ++ ['}'])) := by
                rw [labelText, fieldTexts, List.map_cons, joinParts_cons, List.flatMap_map,
                  List.cons_append, List.append_assoc]
              have hbehind : labelText (.Object ((first :: others).map Prod.fst))
                    (((first :: others).map Prod.snd).map treeText) ++ rest =
                  '{' :: (fieldText first ++
                    ((others.flatMap fun field => ',' :: fieldText field) ++ '}' :: rest)) := by
                rw [htext, List.cons_append, List.append_assoc, List.append_assoc,
                  List.singleton_append]
              rw [htext, List.length_cons, List.length_append, List.length_append,
                List.length_singleton] at hfuel
              have hmem {field : String × Rose WireLabel} (hfield : field ∈ first :: others) :
                  field.2 ∈ (first :: others).map Prod.snd := List.mem_map_of_mem hfield
              have hfields := parseFields_reads
                (fun field hfield => ih field.2 (hmem hfield) (hchildren field.2 (hmem hfield)))
                (fun field hfield => (hlabel.2 field.1 (List.mem_map_of_mem hfield)).2)
                [] before rest (keys_nodup hlabel.1) (show 2 * _ < fuel by omega)
                (fun field hfield => height_below hdepth field.2 (hmem hfield))
                (by
                  have hsizes : ((first :: others).map Prod.snd).map Rose.size =
                      (first :: others).map fun field => field.2.size := List.map_map
                  rw [← hsizes]
                  omega)
              rw [hbehind]
              refine (parseObject_opened first).trans ?_
              rw [hfields]
              exact pushNode_flattens (.Object _) _ before rest hnodes

/-! ## Documents -/

/-- The document that the parser makes of a tree. -/
def treeDocument (tree : Rose WireLabel) : WireJsonDocument :=
  ⟨tree.size - 1, nodesOf (tree.flatten 0)⟩

theorem parse_treeText {tree : Rose WireLabel} (h : tree.Each Acceptable)
    (hdepth : tree.height ≤ MAX_TOOL_ARGUMENT_DEPTH) (hnodes : tree.size ≤ MAX_TOOL_ARGUMENT_NODES) :
    parse (treeText tree) = .ok (treeDocument tree) := by
  have hread := reads_tree h (2 * (treeText tree).length + 2) 1 [] [] (by omega) (by omega)
    (by simpa using hnodes) nofun
  have hskip := skipWhitespace_opens (treeText_opens h) []
  rw [List.append_nil] at hskip hread
  unfold parse
  rw [hskip, hread]
  show Except.ok (WireJsonDocument.mk (0 + (tree.size - 1)) ([] ++ nodesOf (tree.flatten 0))) = _
  rw [Nat.zero_add]
  rfl

theorem WellFormed.acceptable {document : WireJsonDocument} {objectRoot : Bool}
    (h : WellFormed document objectRoot) {tree : Rose WireLabel}
    (htree : document.Denotes tree) : tree.Each Acceptable := by
  refine Arena.Denotes.each (fun entry hentry => ?_) htree
  obtain ⟨node, hnode, rfl⟩ := List.mem_map.1 hentry
  exact ⟨h.labels node hnode, node_takes node⟩

/-- The charge of a document is that of its tree. -/
theorem documentCharge_eq {document : WireJsonDocument}
    (honeTree : (arenaOf document.nodes).OneTree)
    (hroot : document.root + 1 = document.nodes.length) {tree : Rose WireLabel}
    (htree : document.Denotes tree) :
    documentCharge document = 4 + (4 + tree.sum labelCharge) := by
  have hlast : (arenaOf document.nodes).Denotes ((arenaOf document.nodes).length - 1) tree := by
    rw [arenaOf_length, ← hroot, Nat.add_sub_cancel]
    exact htree
  unfold documentCharge
  rw [honeTree.sum_eq labelCharge hlast]
  unfold arenaOf
  rw [List.map_map]
  rfl

theorem WellFormed.size_eq {document : WireJsonDocument} {objectRoot : Bool}
    (h : WellFormed document objectRoot) {tree : Rose WireLabel}
    (htree : document.Denotes tree) : tree.size = document.nodes.length := by
  rw [← arenaOf_length]
  refine h.oneTree.size_eq ?_
  rw [arenaOf_length, ← h.last]
  exact htree

theorem treeDocument_arena {tree : Rose WireLabel} (h : tree.Each Acceptable) :
    arenaOf (treeDocument tree).nodes = tree.flatten 0 :=
  arenaOf_nodesOf fun node hnode => (Rose.flatten_each tree h 0 node hnode).2

theorem treeDocument_denotes {tree : Rose WireLabel} (h : tree.Each Acceptable) :
    (treeDocument tree).Denotes tree := by
  have hdenotes := Rose.flatten_denotes tree []
  rw [List.length_nil, Nat.zero_add, List.nil_append] at hdenotes
  unfold WireJsonDocument.Denotes
  rw [treeDocument_arena h]
  exact hdenotes

theorem treeDocument_length (tree : Rose WireLabel) :
    (treeDocument tree).nodes.length = tree.size := by
  show (nodesOf (tree.flatten 0)).length = _
  rw [nodesOf_length, Rose.flatten_length]

theorem isObject_iff {node : WireJsonNode} :
    isObject node = true ↔ ∃ keys, node.label = .Object keys := by
  cases node <;> simp [isObject, WireJsonNode.label]

/-- The last node of a document is the root of its tree. -/
theorem getLast_label {document : WireJsonDocument}
    (hroot : document.root + 1 = document.nodes.length) {label : WireLabel}
    {children : List (Rose WireLabel)} (htree : document.Denotes (.node label children)) :
    ∃ node, document.nodes.getLast? = some node ∧ node.label = label := by
  obtain ⟨node, hnode, rfl, -⟩ := node_of_denotes htree
  refine ⟨node, ?_, rfl⟩
  rw [List.getLast?_eq_getElem?, ← hroot, Nat.add_sub_cancel, hnode]

/-- What the parser makes of the text of a document is well-formed as well. -/
theorem WellFormed.treeDocument {document : WireJsonDocument} {objectRoot : Bool}
    (h : WellFormed document objectRoot) {tree : Rose WireLabel}
    (htree : document.Denotes tree) : WellFormed (treeDocument tree) objectRoot := by
  have hok := h.acceptable htree
  have hsame := treeDocument_denotes hok
  have hsize := h.size_eq htree
  have hpos := tree.size_pos
  have hroot : (MCode.Validation.treeDocument tree).root + 1 =
      (MCode.Validation.treeDocument tree).nodes.length := by
    rw [treeDocument_length]
    show tree.size - 1 + 1 = _
    omega
  have honeTree : (arenaOf (MCode.Validation.treeDocument tree).nodes).OneTree := by
    rw [treeDocument_arena hok]
    exact tree.flatten_oneTree
  have hlabels : ∀ node ∈ (MCode.Validation.treeDocument tree).nodes, LabelOk node.label := by
    intro node hnode
    obtain ⟨entry, hentry, rfl⟩ := List.mem_map.1 hnode
    have hentryOk := tree.flatten_each hok 0 entry hentry
    rw [(nodeOf_label hentryOk.2).1]
    exact hentryOk.1
  refine ⟨?_, hroot, ?_, honeTree, hlabels, ?_, ?_⟩
  · rw [treeDocument_length, hsize]
    exact h.count
  · intro hobject
    obtain ⟨label, children⟩ := tree
    obtain ⟨old, hold, holdObject⟩ := h.object hobject
    obtain ⟨node, hnode, hlabel⟩ := getLast_label h.root htree
    obtain ⟨last, hlast, hlastLabel⟩ := getLast_label hroot hsame
    rw [hnode] at hold
    cases hold
    refine ⟨last, hlast, isObject_iff.2 ?_⟩
    rw [hlastLabel, ← hlabel]
    exact isObject_iff.1 holdObject
  · intro other hother
    rw [hother.unique hsame]
    exact h.depth tree htree
  · rw [documentCharge_eq honeTree hroot hsame, ← documentCharge_eq h.oneTree h.root htree]
    exact h.charge

/-! ## Texts determine trees -/

/-- A text of `x` that is followed by the end of a value is no text of anything else. -/
def Separates {β : Type} (text : β → Text) (valid : β → Prop) (x : β) : Prop :=
  ∀ (y : β) (rest rest' : Text), valid y → EndsValue rest → EndsValue rest' →
    text x ++ rest = text y ++ rest' → x = y ∧ rest = rest'

section Parts

variable {β : Type} {text : β → Text} {valid : β → Prop} {close : Char}

theorem endsValue_parts (hclose : endsToken close = true) (xs : List β) (rest : Text) :
    EndsValue ((xs.flatMap fun x => ',' :: text x) ++ close :: rest) := by
  cases xs with
  | nil =>
      intro c hc
      cases hc
      exact hclose
  | cons x xs =>
      intro c hc
      cases hc
      rfl

theorem parts_inj (hclose : endsToken close = true) (hcomma : close ≠ ',') {xs ys : List β}
    {rest rest' : Text} (hxs : ∀ x ∈ xs, Separates text valid x) (hys : ∀ y ∈ ys, valid y)
    (h : (xs.flatMap fun x => ',' :: text x) ++ close :: rest =
      (ys.flatMap fun y => ',' :: text y) ++ close :: rest') : xs = ys ∧ rest = rest' := by
  induction xs generalizing ys with
  | nil =>
      cases ys with
      | nil => exact ⟨rfl, (List.cons.inj h).2⟩
      | cons y ys => exact absurd (List.cons.inj h).1 hcomma
  | cons x xs ih =>
      cases ys with
      | nil => exact absurd (List.cons.inj h).1.symm hcomma
      | cons y ys =>
          rw [List.flatMap_cons, List.flatMap_cons, List.append_assoc, List.append_assoc] at h
          obtain ⟨rfl, htail⟩ := hxs x List.mem_cons_self y _ _ (hys y List.mem_cons_self)
            (endsValue_parts hclose xs rest) (endsValue_parts hclose ys rest')
            (List.cons.inj h).2
          obtain ⟨rfl, hrest⟩ := ih (fun x hx => hxs x (List.mem_cons_of_mem _ hx))
            (fun y hy => hys y (List.mem_cons_of_mem _ hy)) htail
          exact ⟨rfl, hrest⟩

/-- The parts of a container, up to its bracket, are those of one list. -/
theorem container_inj (hclose : endsToken close = true) (hcomma : close ≠ ',')
    (hopen : ∀ y, valid y → ∃ c behind, text y = c :: behind ∧ c ≠ close) {xs ys : List β}
    {rest rest' : Text} (hxs : ∀ x ∈ xs, Separates text valid x) (hvalid : ∀ x ∈ xs, valid x)
    (hys : ∀ y ∈ ys, valid y)
    (h : joinParts (xs.map text) 0 ++ close :: rest = joinParts (ys.map text) 0 ++ close :: rest') :
    xs = ys ∧ rest = rest' := by
  cases xs with
  | nil =>
      cases ys with
      | nil => exact ⟨rfl, (List.cons.inj h).2⟩
      | cons y ys =>
          obtain ⟨c, behind, htext, hc⟩ := hopen y (hys y List.mem_cons_self)
          rw [List.map_cons, joinParts_cons, htext] at h
          exact absurd (List.cons.inj h).1.symm hc
  | cons x xs =>
      cases ys with
      | nil =>
          obtain ⟨c, behind, htext, hc⟩ := hopen x (hvalid x List.mem_cons_self)
          rw [List.map_cons, joinParts_cons, htext] at h
          exact absurd (List.cons.inj h).1 hc
      | cons y ys =>
          rw [List.map_cons, List.map_cons, joinParts_cons, joinParts_cons, List.append_assoc,
            List.append_assoc, List.flatMap_map, List.flatMap_map] at h
          obtain ⟨rfl, htail⟩ := hxs x List.mem_cons_self y _ _ (hys y List.mem_cons_self)
            (endsValue_parts hclose xs rest) (endsValue_parts hclose ys rest') h
          obtain ⟨rfl, hrest⟩ := parts_inj hclose hcomma
            (fun x hx => hxs x (List.mem_cons_of_mem _ hx))
            (fun y hy => hys y (List.mem_cons_of_mem _ hy)) htail
          exact ⟨rfl, hrest⟩

end Parts

theorem serializeString_inj {value other : String} {rest otherRest : Text}
    (hvalue : ∀ c ∈ value.toList, isUnsafeChar c = false)
    (hother : ∀ c ∈ other.toList, isUnsafeChar c = false)
    (h : serializeString value ++ rest = serializeString other ++ otherRest) :
    value = other ∧ rest = otherRest := by
  have hread : parseString (serializeString value ++ rest) = .ok (value, rest) :=
    parseString_serialized hvalue
  rw [h, parseString_serialized hother] at hread
  cases hread
  exact ⟨rfl, rfl⟩

theorem number_inj {value other rest otherRest : Text} (hvalue : ∀ c ∈ value, IsNumberChar c)
    (hother : ∀ c ∈ other, IsNumberChar c) (hrest : EndsValue rest)
    (hotherRest : EndsValue otherRest) (h : value ++ rest = other ++ otherRest) :
    value = other ∧ rest = otherRest := by
  obtain ⟨htoken, hend⟩ := number_token hvalue hrest
  obtain ⟨htoken', hend'⟩ := number_token hother hotherRest
  rw [h] at htoken hend
  exact ⟨htoken.symm.trans htoken', hend.symm.trans hend'⟩

/-- The kind of a label. -/
def kindOf : WireLabel → Nat
  | .Null => 0
  | .Boolean _ => 1
  | .Number _ => 2
  | .Text _ => 3
  | .Array => 4
  | .Object _ => 5

/-- The kind of the values that start with a character. -/
def kindAt (c : Char) : Nat :=
  if c = 'n' then 0
  else if c = 't' || c = 'f' then 1
  else if c = '-' || isAsciiDigit c then 2
  else if c = '"' then 3
  else if c = '[' then 4
  else 5

theorem labelText_kind {label : WireLabel} (h : LabelOk label) (texts : List Text) :
    ∃ c behind, labelText label texts = c :: behind ∧ kindAt c = kindOf label := by
  cases label with
  | Null => exact ⟨'n', _, rfl, rfl⟩
  | Boolean value => cases value <;> exact ⟨_, _, rfl, rfl⟩
  | Number value =>
      obtain ⟨c, behind, htext, hc⟩ := numberGrammar_head h.2
      refine ⟨c, behind, htext, ?_⟩
      rcases hc with rfl | hc
      · rfl
      · have hletter (other : Char) (hother : isAsciiDigit other = false) : c ≠ other := by
          rintro rfl
          rw [hc] at hother
          cases hother
        unfold kindAt
        rw [if_neg (hletter 'n' rfl), if_neg (by simp [hletter 't' rfl, hletter 'f' rfl]),
          if_pos (by simp [hc])]
        rfl
  | Text value => exact ⟨'"', _, rfl, rfl⟩
  | Array => exact ⟨'[', _, rfl, rfl⟩
  | Object keys => exact ⟨'{', _, rfl, rfl⟩

/-- A safe key and an acceptable tree. -/
def ValidField (field : String × Rose WireLabel) : Prop :=
  (∀ c ∈ field.1.toList, isUnsafeChar c = false) ∧ field.2.Each Acceptable

theorem fieldText_separates {field : String × Rose WireLabel}
    (hkey : ∀ c ∈ field.1.toList, isUnsafeChar c = false)
    (htree : Separates treeText (Rose.Each Acceptable) field.2) :
    Separates fieldText ValidField field := by
  rintro ⟨key, tree⟩ rest rest' ⟨hother, hok⟩ hrest hrest' h
  rw [fieldText_append, fieldText_append] at h
  obtain ⟨hsame, htail⟩ := serializeString_inj hkey hother h
  obtain ⟨rfl, hend⟩ := htree tree rest rest' hok hrest hrest' (List.cons.inj htail).2
  exact ⟨Prod.ext hsame rfl, hend⟩

/-- The text of a tree is that of no other tree. -/
theorem treeText_separates {tree : Rose WireLabel} (h : tree.Each Acceptable) :
    Separates treeText (Rose.Each Acceptable) tree := by
  induction tree using Rose.induction with
  | node label children ih =>
      obtain ⟨⟨hlabel, htakes⟩, hchildren⟩ := Rose.each_node.1 h
      rintro ⟨label', children'⟩ rest rest' hok hrest hrest' heq
      obtain ⟨⟨hlabel', htakes'⟩, hchildren'⟩ := Rose.each_node.1 hok
      rw [treeText_node, treeText_node] at heq
      have hkind : kindOf label = kindOf label' := by
        obtain ⟨c, behind, htext, hc⟩ := labelText_kind hlabel (children.map treeText)
        obtain ⟨c', behind', htext', hc'⟩ := labelText_kind hlabel' (children'.map treeText)
        rw [htext, htext'] at heq
        rw [← hc, ← hc', (List.cons.inj heq).1]
      cases label with
      | Null =>
          cases label' with
          | Null =>
              obtain rfl : children = [] := List.length_eq_zero_iff.1 htakes
              obtain rfl : children' = [] := List.length_eq_zero_iff.1 htakes'
              exact ⟨rfl, List.append_cancel_left heq⟩
          | _ => cases hkind
      | Boolean value =>
          cases label' with
          | Boolean value' =>
              obtain rfl : children = [] := List.length_eq_zero_iff.1 htakes
              obtain rfl : children' = [] := List.length_eq_zero_iff.1 htakes'
              cases value <;> cases value'
              · exact ⟨rfl, List.append_cancel_left heq⟩
              · cases (List.cons.inj heq).1
              · cases (List.cons.inj heq).1
              · exact ⟨rfl, List.append_cancel_left heq⟩
          | _ => cases hkind
      | Number value =>
          cases label' with
          | Number value' =>
              obtain rfl : children = [] := List.length_eq_zero_iff.1 htakes
              obtain rfl : children' = [] := List.length_eq_zero_iff.1 htakes'
              obtain ⟨hsame, hend⟩ := number_inj (numberGrammar_le hlabel.2)
                (numberGrammar_le hlabel'.2) hrest hrest' heq
              rw [String.toList_inj.1 hsame]
              exact ⟨rfl, hend⟩
          | _ => cases hkind
      | Text value =>
          cases label' with
          | Text value' =>
              obtain rfl : children = [] := List.length_eq_zero_iff.1 htakes
              obtain rfl : children' = [] := List.length_eq_zero_iff.1 htakes'
              obtain ⟨rfl, hend⟩ := serializeString_inj hlabel.2 hlabel'.2 heq
              exact ⟨rfl, hend⟩
          | _ => cases hkind
      | Array =>
          cases label' with
          | Array =>
              rw [labelText, labelText, List.cons_append, List.cons_append, List.append_assoc,
                List.append_assoc] at heq
              obtain ⟨rfl, hend⟩ := container_inj (show endsToken ']' = true from rfl) (by decide)
                (fun tree htree => by
                  obtain ⟨c, behind, htext, -, hclose⟩ := treeText_opens htree
                  exact ⟨c, behind, htext, hclose⟩)
                (fun tree htree => ih tree htree (hchildren tree htree)) hchildren hchildren'
                (List.cons.inj heq).2
              exact ⟨rfl, hend⟩
          | _ => cases hkind
      | Object keys =>
          cases label' with
          | Object keys' =>
              obtain ⟨fields, rfl, rfl⟩ := exists_fields htakes
              obtain ⟨fields', rfl, rfl⟩ := exists_fields htakes'
              have hvalid : ∀ field ∈ fields, ValidField field := fun field hfield =>
                ⟨(hlabel.2 field.1 (List.mem_map_of_mem hfield)).2,
                  hchildren field.2 (List.mem_map_of_mem hfield)⟩
              have hvalid' : ∀ field ∈ fields', ValidField field := fun field hfield =>
                ⟨(hlabel'.2 field.1 (List.mem_map_of_mem hfield)).2,
                  hchildren' field.2 (List.mem_map_of_mem hfield)⟩
              rw [labelText, labelText, fieldTexts, fieldTexts, List.cons_append,
                List.cons_append, List.append_assoc, List.append_assoc] at heq
              obtain ⟨rfl, hend⟩ := container_inj (show endsToken '}' = true from rfl) (by decide)
                (fun field _ => ⟨'"', _, rfl, by decide⟩)
                (fun field hfield => fieldText_separates (hvalid field hfield).1
                  (ih field.2 (List.mem_map_of_mem hfield) (hvalid field hfield).2))
                hvalid hvalid' (List.cons.inj heq).2
              exact ⟨rfl, hend⟩
          | _ => cases hkind

/-! ## The arguments that are accepted -/

/-- A document that is accepted is serialized as its tree. -/
theorem serialized_tree {document : WireJsonDocument} {objectRoot : Bool} {text : Text}
    (h : WellFormed document objectRoot) {tree : Rose WireLabel} (htree : document.Denotes tree)
    (htext : canonicalSerialize document = some (.ok text)) :
    treeSerialized tree = .ok text ∧ text = treeText tree := by
  rw [canonicalSerialize_eq h.any htree] at htext
  have hok := Option.some.inj htext
  exact ⟨hok, treeSerialized_ok hok⟩

/-- Documents with one text denote one tree. -/
theorem same_tree {document other : WireJsonDocument} {objectRoot otherRoot : Bool} {text : Text}
    (h : WellFormed document objectRoot) (hother : WellFormed other otherRoot)
    (htext : canonicalSerialize document = some (.ok text))
    (hotherText : canonicalSerialize other = some (.ok text)) {tree : Rose WireLabel} :
    document.Denotes tree ↔ other.Denotes tree := by
  obtain ⟨mine, hmine⟩ := h.exists_tree
  obtain ⟨theirs, htheirs⟩ := hother.exists_tree
  have hsame : treeText mine ++ [] = treeText theirs ++ [] := by
    rw [← (serialized_tree h hmine htext).2, ← (serialized_tree hother htheirs hotherText).2]
  obtain ⟨rfl, -⟩ := treeText_separates (h.acceptable hmine) theirs [] []
    (hother.acceptable htheirs) nofun nofun hsame
  constructor
  · intro htree
    rwa [htree.unique hmine]
  · intro htree
    rwa [htree.unique htheirs]

/-- The limits of the parser. -/
def WithinLimits (document : WireJsonDocument) (stats : WireJsonStats) (text : Text) : Prop :=
  utf8Len text ≤ MAX_TOOL_ARGUMENT_BYTES ∧ stats.depth ≤ MAX_TOOL_ARGUMENT_DEPTH ∧
    document.nodes.length ≤ MAX_TOOL_ARGUMENT_NODES ∧
    stats.logicalCharge ≤ MAX_TOOL_ARGUMENT_CHARGE

/-- The parser makes a document of the same tree. -/
theorem parse_serialized {document : WireJsonDocument} {objectRoot : Bool} {text : Text}
    (h : WellFormed document objectRoot) {tree : Rose WireLabel} (htree : document.Denotes tree)
    (htext : canonicalSerialize document = some (.ok text))
    (hnodes : document.nodes.length ≤ MAX_TOOL_ARGUMENT_NODES) :
    parse text = .ok (treeDocument tree) := by
  rw [(serialized_tree h htree htext).2]
  -- the two bounds on the depth are one number
  have hdepth : tree.height ≤ MAX_TOOL_ARGUMENT_DEPTH := h.depth tree htree
  exact parse_treeText (h.acceptable htree) hdepth (by rwa [h.size_eq htree])

theorem validateToolArguments_ok {value : String} :
    validateToolArguments value = some (.ok ()) ↔ ∃ document stats,
      validateWireJson document true = .ok stats ∧
        canonicalSerialize document = some (.ok value.toList) ∧
        WithinLimits document stats value.toList := by
  unfold validateToolArguments
  constructor
  · intro h
    split at h
    · cases h
    rename_i hbytes
    split at h
    · cases h
    rename_i document _
    split at h
    · cases h
    rename_i hnodes
    split at h
    · cases h
    rename_i stats hvalid
    split at h
    · cases h
    rename_i hlimits
    obtain ⟨serialized, hserialized, hresult⟩ := Option.map_eq_some_iff.1 h
    obtain ⟨text, rfl, htext⟩ := bind_eq_ok.1 hresult
    have hsame : text = value.toList := by
      by_contra hne
      rw [if_pos (by simpa using hne)] at htext
      cases htext
    subst hsame
    rw [Bool.or_eq_true, decide_eq_true_eq, decide_eq_true_eq, not_or] at hlimits
    exact ⟨document, stats, hvalid, hserialized, by omega, by omega, by omega, by omega⟩
  · rintro ⟨document, stats, hvalid, hserialized, hbytes, hdepth, hnodes, hcharge⟩
    obtain ⟨hformed, hchargeEq, hdepthEq⟩ := validateWireJson_ok.1 hvalid
    obtain ⟨tree, htree⟩ := hformed.exists_tree
    have hparsed := parse_serialized hformed htree hserialized hnodes
    have hlength : (treeDocument tree).nodes.length = document.nodes.length := by
      rw [treeDocument_length, hformed.size_eq htree]
    have hsame := treeDocument_denotes (hformed.acceptable htree)
    have hagain := hformed.treeDocument htree
    have hcharges : documentCharge (treeDocument tree) = documentCharge document := by
      rw [documentCharge_eq hagain.oneTree hagain.root hsame,
        documentCharge_eq hformed.oneTree hformed.root htree]
    have hvalidAgain : validateWireJson (treeDocument tree) true = .ok stats := by
      refine validateWireJson_ok.2 ⟨hagain, ?_, fun other hother => ?_⟩
      · rw [hcharges, hchargeEq]
      · rw [hother.unique hsame]
        exact hdepthEq tree htree
    have htext : canonicalSerialize (treeDocument tree) = some (.ok value.toList) := by
      rw [canonicalSerialize_eq hagain.any hsame, (serialized_tree hformed htree hserialized).1]
    rw [if_neg (by omega), hparsed]
    dsimp only
    rw [if_neg (by omega), hvalidAgain]
    dsimp only
    rw [if_neg (by rw [Bool.or_eq_true, decide_eq_true_eq, decide_eq_true_eq]; omega), htext]
    show some (if (value.toList != value.toList) = true then _ else _) = _
    rw [if_neg (by simp)]

/-- The check of the arguments returns. -/
theorem validateToolArguments_returns (value : String) :
    (validateToolArguments value).isSome = true := by
  unfold validateToolArguments
  split
  · rfl
  split
  · rfl
  split
  · rfl
  split
  · rfl
  rename_i document _ _ _ stats hvalid
  split
  · rfl
  have hformed := (validateWireJson_ok.1 hvalid).1
  obtain ⟨tree, htree⟩ := hformed.exists_tree
  rw [canonicalSerialize_eq hformed.any htree]
  rfl

/-- The arguments that are accepted are the canonical texts of objects within the limits
of the parser; it reads a canonical text as the tree it is written from, and a canonical
text is that of one tree. -/
theorem tool_arguments_are_canonical :
    (∀ value, validateToolArguments value = some (.ok ()) ↔ ∃ document stats,
      validateWireJson document true = .ok stats ∧
        canonicalSerialize document = some (.ok value.toList) ∧
        WithinLimits document stats value.toList) ∧
    (∀ document objectRoot stats text, validateWireJson document objectRoot = .ok stats →
      canonicalSerialize document = some (.ok text) →
      document.nodes.length ≤ MAX_TOOL_ARGUMENT_NODES →
      ∃ parsed, parse text = .ok parsed ∧
        ∀ tree, parsed.Denotes tree ↔ document.Denotes tree) ∧
    ∀ document other objectRoot otherRoot stats otherStats text,
      validateWireJson document objectRoot = .ok stats →
      validateWireJson other otherRoot = .ok otherStats →
      canonicalSerialize document = some (.ok text) →
      canonicalSerialize other = some (.ok text) →
      ∀ tree, document.Denotes tree ↔ other.Denotes tree := by
  refine ⟨fun value => validateToolArguments_ok, ?_, ?_⟩
  · intro document objectRoot stats text hvalid htext hnodes
    have hformed := (validateWireJson_ok.1 hvalid).1
    obtain ⟨tree, htree⟩ := hformed.exists_tree
    have hsame := treeDocument_denotes (hformed.acceptable htree)
    refine ⟨treeDocument tree, parse_serialized hformed htree htext hnodes, fun other => ?_⟩
    constructor
    · intro hother
      rwa [hother.unique hsame]
    · intro hother
      rwa [hother.unique htree]
  · intro document other objectRoot otherRoot stats otherStats text hvalid hother htext hotherText
      tree
    exact same_tree (validateWireJson_ok.1 hvalid).1 (validateWireJson_ok.1 hother).1 htext
      hotherText

end MCode.Validation
