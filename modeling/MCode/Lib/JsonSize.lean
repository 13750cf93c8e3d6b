import MCode.Lib.Json

/-!
# The size of JSON texts

The bytes of the compact text of a tree, member by member.  A text is never read
as a tree whose compact text would be longer than what was read.
-/

namespace MCode.Lib.Json

/-! ## Texts -/

/-- The bytes of a text in UTF-8. -/
def textSize (text : List Char) : Nat := (text.map Char.utf8Size).sum

@[simp] theorem textSize_nil : textSize [] = 0 := rfl

@[simp] theorem textSize_cons (c : Char) (text : List Char) :
    textSize (c :: text) = c.utf8Size + textSize text := rfl

@[simp] theorem textSize_append (left right : List Char) :
    textSize (left ++ right) = textSize left + textSize right := by
  unfold textSize
  rw [List.map_append, List.sum_append]

theorem length_le_textSize (text : List Char) : text.length ≤ textSize text := by
  induction text with
  | nil => exact Nat.le_refl 0
  | cons c text ih =>
      have hpos := c.utf8Size_pos
      rw [List.length_cons, textSize_cons]
      omega

theorem utf8ByteSize_ofList (text : List Char) :
    (String.ofList text).utf8ByteSize = textSize text := by
  induction text with
  | nil => rfl
  | cons c text ih =>
      have happend : String.ofList (c :: text) = String.singleton c ++ String.ofList text := by
        rw [← String.toList_inj]
        simp
      rw [happend, String.utf8ByteSize_append, String.utf8ByteSize_singleton, ih, textSize_cons]

theorem textSize_toList (value : String) : textSize value.toList = value.utf8ByteSize := by
  rw [← utf8ByteSize_ofList, String.ofList_toList]

/-- How many digits a number has. -/
def digits (value : Nat) : Nat := (Nat.toDigits 10 value).length

theorem digits_pos (value : Nat) : 0 < digits value := Nat.length_toDigits_pos

theorem digits_le {value size : Nat} (hsize : 0 < size) : digits value ≤ size ↔ value < 10 ^ size :=
  Nat.length_toDigits_le_iff (by decide) hsize

theorem digits_succ (value : Nat) : digits (value + 1) ≤ digits value + 1 := by
  have hlt := (digits_le (digits_pos value)).1 (Nat.le_refl _)
  apply (digits_le (Nat.succ_pos _)).2
  rw [Nat.pow_succ]
  omega

theorem textSize_toDigits (value : Nat) : textSize (Nat.toDigits 10 value) = digits value := by
  have hdigits : ∀ c ∈ Nat.toDigits 10 value, c.utf8Size = 1 := by
    intro c hc
    have hdigit := Nat.isDigit_of_mem_toDigits (by decide) (by decide) hc
    rw [Char.isDigit_iff_toNat] at hdigit
    rw [Char.utf8Size_eq_one_iff]
    show c.toNat ≤ 127
    have hnine : '9'.toNat = 57 := rfl
    omega
  unfold textSize digits
  rw [List.map_congr_left hdigits, List.map_const', List.sum_replicate_nat, Nat.mul_one]

/-! ## Trees -/

def size (depth : Nat) (tree : Json) : Nat := textSize (compact depth tree)

/-- Two quotes and a colon. -/
def memberSize (depth : Nat) (member : String × Json) : Nat :=
  member.1.utf8ByteSize + 3 + size depth member.2

/-- Elements of these sizes, with commas between them. -/
def listSize (sizes : List Nat) : Nat := sizes.sum + (sizes.length - 1)

theorem textSize_joined (texts : List (List Char)) :
    textSize (joined texts) = listSize (texts.map textSize) := by
  induction texts with
  | nil => rfl
  | cons text texts ih =>
      by_cases htexts : texts = []
      · subst htexts
        rfl
      · have hlength : 0 < texts.length := List.length_pos_iff.2 htexts
        have hcomma : ','.utf8Size = 1 := rfl
        rw [joined_cons _ htexts, textSize_append, textSize_cons, ih, hcomma]
        unfold listSize
        simp only [List.map_cons, List.sum_cons, List.length_cons, List.length_map]
        omega

theorem listSize_perm {sizes others : List Nat} (h : sizes.Perm others) :
    listSize sizes = listSize others := by
  unfold listSize
  rw [h.sum_nat, h.length_eq]

theorem textSize_quoted (value : String) : textSize (quoted value) = value.utf8ByteSize + 2 := by
  have hquote : '"'.utf8Size = 1 := rfl
  unfold quoted
  rw [textSize_append, textSize_cons, textSize_cons, textSize_nil, hquote, textSize_toList]
  omega

@[simp] theorem size_null (depth : Nat) : size depth .null = 4 := by
  unfold size
  rw [compact]
  rfl

@[simp] theorem size_natural (depth value : Nat) : size depth (.natural value) = digits value := by
  unfold size
  rw [compact]
  exact textSize_toDigits value

@[simp] theorem size_string (depth : Nat) (value : String) :
    size depth (.string value) = value.utf8ByteSize + 2 := by
  unfold size
  rw [compact]
  exact textSize_quoted value

theorem size_array (depth : Nat) (items : List Json) :
    size (depth + 1) (.array items) = 2 + listSize (items.map (size depth)) := by
  have hbrackets : '['.utf8Size = 1 ∧ ']'.utf8Size = 1 := ⟨rfl, rfl⟩
  have hitems : (items.map (compact depth)).map textSize = items.map (size depth) := by
    rw [List.map_map]
    rfl
  unfold size at hitems ⊢
  rw [compact, List.cons_append, textSize_cons, textSize_append, textSize_joined, hitems,
    textSize_cons, textSize_nil, hbrackets.1, hbrackets.2]
  omega

theorem size_object (depth : Nat) (members : List (String × Json)) :
    size (depth + 1) (.object members) = 2 + listSize (members.map (memberSize depth)) := by
  have hbraces : '{'.utf8Size = 1 ∧ '}'.utf8Size = 1 := ⟨rfl, rfl⟩
  have hmembers : (members.map fun member => quoted member.1 ++ ':' :: compact depth member.2).map
      textSize = members.map (memberSize depth) := by
    rw [List.map_map]
    apply List.map_congr_left
    intro member hmember
    have hcolon : ':'.utf8Size = 1 := rfl
    show textSize (quoted member.1 ++ ':' :: compact depth member.2) = _
    rw [textSize_append, textSize_cons, textSize_quoted, hcolon]
    unfold memberSize size
    omega
  show textSize (compact (depth + 1) (.object members)) = _
  rw [compact, List.cons_append, textSize_cons, textSize_append, textSize_joined, hmembers,
    textSize_cons, textSize_nil, hbraces.1, hbraces.2]
  omega

/-- The order of the members does not matter. -/
theorem size_object_perm (depth : Nat) {members others : List (String × Json)}
    (h : members.Perm others) :
    size (depth + 1) (.object members) = size (depth + 1) (.object others) := by
  rw [size_object, size_object, listSize_perm (h.map (memberSize depth))]

/-- The braces, the names, the colons and the commas of an object. -/
def layoutSize (names : List String) : Nat :=
  2 + listSize (names.map fun name => name.utf8ByteSize + 3)

/-- An object is its layout and its values. -/
theorem size_object_layout (depth : Nat) (members : List (String × Json)) :
    size (depth + 1) (.object members) =
      layoutSize (members.map Prod.fst) + (members.map fun member => size depth member.2).sum := by
  have hsum : (members.map (memberSize depth)).sum =
      (members.map fun member => member.1.utf8ByteSize + 3).sum +
        (members.map fun member => size depth member.2).sum := by
    induction members with
    | nil => rfl
    | cons member members ih =>
        rw [List.map_cons, List.map_cons, List.map_cons, List.sum_cons, List.sum_cons,
          List.sum_cons, ih]
        unfold memberSize
        omega
  have hnames : (members.map Prod.fst).map (fun name => name.utf8ByteSize + 3) =
      members.map fun member => member.1.utf8ByteSize + 3 := by
    rw [List.map_map]
    rfl
  rw [size_object]
  unfold layoutSize listSize
  rw [hnames, hsum, List.length_map, List.length_map]
  omega

/-! ## Reading -/

/-- What is read from a text is no longer than the text. -/
def Consumes {α : Type} (readOne : List Char → Option (α × List Char)) (measure : α → Nat) : Prop :=
  ∀ text a rest, readOne text = some (a, rest) → measure a + textSize rest ≤ textSize text

theorem ofDigitChars_lt {text : List Char} (hdigits : ∀ c ∈ text, c.isDigit = true) (start : Nat) :
    Nat.ofDigitChars 10 text start < 10 ^ text.length * (start + 1) := by
  induction text generalizing start with
  | nil => simp
  | cons c text ih =>
      have hc := Char.isDigit_iff_toNat.1 (hdigits c List.mem_cons_self)
      have hnine : '9'.toNat = 57 ∧ '0'.toNat = 48 := ⟨rfl, rfl⟩
      rw [Nat.ofDigitChars_cons, List.length_cons, Nat.pow_succ, Nat.mul_assoc]
      apply Nat.lt_of_lt_of_le (ih (fun d hd => hdigits d (List.mem_cons_of_mem _ hd)) _)
      apply Nat.mul_le_mul_left
      omega

theorem readQuoted_consumes {text : List Char} {value : String} {rest : List Char}
    (h : readQuoted text = some (value, rest)) :
    value.utf8ByteSize + 1 + textSize rest = textSize text := by
  have hparts : text.takeWhile (· != '"') ++ text.dropWhile (· != '"') = text :=
    List.takeWhile_append_dropWhile
  have hstop : ∀ c ∈ (text.dropWhile (· != '"')).head?, (c != '"') = false := by
    intro c hc
    have hhead := @List.head?_dropWhile_not _ (· != '"') text
    rw [hc] at hhead
    exact hhead
  unfold readQuoted at h
  split at h
  · cases h
  · rename_i c more hmore
    cases h
    rw [hmore] at hparts hstop
    have hc : c = '"' := by simpa using hstop c rfl
    have hquote : '"'.utf8Size = 1 := rfl
    rw [utf8ByteSize_ofList]
    conv_rhs => rw [← hparts]
    rw [textSize_append, textSize_cons, hc, hquote]
    omega

theorem readScalar_consumes (depth : Nat) : Consumes readScalar (size depth) := by
  intro text tree rest h
  unfold readScalar at h
  split at h
  · rename_i hne
    cases h
    have hlt := @ofDigitChars_lt (text.takeWhile Char.isDigit) (fun c hc => List.mem_takeWhile_imp hc) 0
    rw [Nat.zero_add, Nat.mul_one] at hlt
    have hle := (digits_le (List.length_pos_iff.2 hne)).2 hlt
    have hlength := length_le_textSize (text.takeWhile Char.isDigit)
    rw [size_natural]
    conv_rhs => rw [← @List.takeWhile_append_dropWhile _ Char.isDigit text]
    rw [textSize_append]
    omega
  · split at h
    · cases h
      rw [size_null]
      show 4 + textSize rest ≤ 1 + (1 + (1 + (1 + textSize rest)))
      omega
    · cases h
      unfold size
      rw [compact]
      show (1 + (1 + (1 + (1 + 0)))) + textSize rest ≤ 1 + (1 + (1 + (1 + textSize rest)))
      omega
    · cases h
      unfold size
      rw [compact]
      show (1 + (1 + (1 + (1 + (1 + 0))))) + textSize rest ≤
        1 + (1 + (1 + (1 + (1 + textSize rest))))
      omega
    · rename_i more hnot
      obtain ⟨⟨value, behind⟩, hread, heq⟩ := Option.map_eq_some_iff.1 h
      cases heq
      have hquoted := readQuoted_consumes hread
      have hquote : '"'.utf8Size = 1 := rfl
      rw [size_string, textSize_cons, hquote]
      dsimp only
      omega
    · cases h

/-- The closing character is one byte more. -/
theorem readList_consumes {α : Type} {readOne : List Char → Option (α × List Char)}
    {measure : α → Nat} (hone : Consumes readOne measure) (close : Char) (fuel : Nat)
    {text : List Char} {items : List α} {rest : List Char}
    (h : readList readOne close fuel text = some (items, rest)) :
    listSize (items.map measure) + 1 + textSize rest ≤ textSize text ∧ items ≠ [] := by
  induction fuel generalizing text items rest with
  | zero => cases h
  | succ fuel ih =>
      unfold readList at h
      split at h
      · cases h
      · cases h
      · rename_i a c more hread
        have hfirst := hone _ _ _ hread
        rw [textSize_cons] at hfirst
        have hpos := c.utf8Size_pos
        split at h
        · obtain ⟨⟨others, behind⟩, hrest, heq⟩ := Option.map_eq_some_iff.1 h
          cases heq
          obtain ⟨hsize, hne⟩ := ih hrest
          have hlength : 0 < others.length := List.length_pos_iff.2 hne
          unfold listSize at hsize ⊢
          simp only [List.map_cons, List.sum_cons, List.length_cons, List.length_map] at hsize ⊢
          exact ⟨by omega, List.cons_ne_nil _ _⟩
        · split at h
          · cases h
            unfold listSize
            simp only [List.map_cons, List.map_nil, List.sum_cons, List.sum_nil, List.length_cons,
              List.length_nil]
            exact ⟨by omega, List.cons_ne_nil _ _⟩
          · cases h

theorem readContainer_consumes {α : Type} {readOne : List Char → Option (α × List Char)}
    {measure : α → Nat} (hone : Consumes readOne measure) {close : Char} {text : List Char}
    {items : List α} {rest : List Char}
    (h : readContainer readOne close text = some (items, rest)) :
    listSize (items.map measure) + 1 + textSize rest ≤ textSize text := by
  unfold readContainer at h
  split at h
  · rename_i read hread
    cases h
    exact (readList_consumes hone close _ hread).1
  · split at h
    · rename_i hclose
      cases h
      cases text with
      | nil => cases hclose
      | cons c text =>
          have hpos := c.utf8Size_pos
          show 0 + (0 - 1) + 1 + textSize text ≤ c.utf8Size + textSize text
          omega
    · cases h

theorem readMember_consumes {readOne : List Char → Option (Json × List Char)} {depth : Nat}
    (hone : Consumes readOne (size depth)) : Consumes (readMember readOne) (memberSize depth) := by
  intro text member rest h
  unfold readMember at h
  split at h
  · rename_i more
    split at h
    · rename_i name behind hname
      obtain ⟨⟨value, last⟩, hvalue, heq⟩ := Option.map_eq_some_iff.1 h
      cases heq
      have hquoted := readQuoted_consumes hname
      have hread := hone _ _ _ hvalue
      have hmarks : ':'.utf8Size = 1 ∧ '"'.utf8Size = 1 := ⟨rfl, rfl⟩
      rw [textSize_cons, hmarks.1] at hquoted
      rw [textSize_cons, hmarks.2]
      unfold memberSize
      dsimp only
      omega
    · cases h
  · cases h

theorem readValue_consumes (depth : Nat) : Consumes (readValue depth) (size depth) := by
  induction depth with
  | zero =>
      intro text tree rest h
      rw [readValue] at h
      · exact readScalar_consumes 0 text tree rest h
      · intro less more hless
        cases hless
      · intro less more hless
        cases hless
  | succ depth ih =>
      intro text tree rest h
      have hopen : '['.utf8Size = 1 ∧ '{'.utf8Size = 1 := ⟨rfl, rfl⟩
      unfold readValue at h
      split at h
      · rename_i less more heq
        obtain rfl := Nat.succ.inj heq
        obtain ⟨⟨items, behind⟩, hread, hsame⟩ := Option.map_eq_some_iff.1 h
        cases hsame
        have hitems := readContainer_consumes ih hread
        rw [size_array, textSize_cons, hopen.1]
        dsimp only
        omega
      · rename_i less more heq
        obtain rfl := Nat.succ.inj heq
        obtain ⟨⟨members, behind⟩, hread, hsame⟩ := Option.map_eq_some_iff.1 h
        cases hsame
        have hmembers := readContainer_consumes (readMember_consumes ih) hread
        rw [size_object, textSize_cons, hopen.2]
        dsimp only
        omega
      · exact readScalar_consumes (depth + 1) _ _ _ h

/-- The compact text of the tree that a text is read as. -/
theorem read_size {depth : Nat} {text : List Char} {tree : Json}
    (h : read depth text = some tree) : size depth tree ≤ textSize text := by
  unfold read at h
  split at h
  · rename_i found rest hread
    split at h
    · cases h
      have hconsumes := readValue_consumes depth _ _ _ hread
      omega
    · cases h
  · cases h

end MCode.Lib.Json
