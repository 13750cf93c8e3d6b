import Mathlib

/-!
# JSON trees

A tree of JSON values, objects with their members in order and with duplicates.
A tree is `plain` if its strings can be written without an escape, its numbers
are 64-bit naturals and its containers are not too deep; plain trees have a
compact text, and `read` reads it back.
-/

namespace MCode.Lib

inductive Json where
  | null
  | bool (value : Bool)
  | natural (value : Nat)
  /-- Any other number, as it is spelled. -/
  | number (text : String)
  | string (value : String)
  | array (items : List Json)
  | object (members : List (String × Json))

namespace Json

def plainChar (c : Char) : Bool :=
  0x20 ≤ c.toNat && c.toNat < 0x7f && c != '"' && c != '\\'

theorem plainChar_iff {c : Char} :
    plainChar c ↔ (0x20 ≤ c.toNat ∧ c.toNat < 0x7f) ∧ c.toNat ≠ 0x22 ∧ c.toNat ≠ 0x5c := by
  have hquote : c = '"' ↔ c.toNat = 0x22 := ⟨fun h => by rw [h]; rfl, fun h => Char.toNat_inj.1 h⟩
  have hslash : c = '\\' ↔ c.toNat = 0x5c := ⟨fun h => by rw [h]; rfl, fun h => Char.toNat_inj.1 h⟩
  unfold plainChar
  rw [Bool.and_eq_true, Bool.and_eq_true, Bool.and_eq_true, decide_eq_true_eq, decide_eq_true_eq,
    bne_iff_ne, bne_iff_ne, Ne, hquote, Ne, hslash, and_assoc (b := c.toNat ≠ 0x22)]

def plainString (value : String) : Bool := value.toList.all plainChar

/-- Plain trees of at most so many nested containers. -/
def plain : Nat → Json → Bool
  | _, .null => true
  | _, .bool _ => true
  | _, .natural value => value < 2 ^ 64
  | _, .number _ => false
  | _, .string value => plainString value
  | 0, .array _ => false
  | 0, .object _ => false
  | depth + 1, .array items => items.all (plain depth)
  | depth + 1, .object members => members.all fun member =>
      plainString member.1 && plain depth member.2

theorem plain_mono {depth more : Nat} (hle : depth ≤ more) {tree : Json} (h : tree.plain depth) :
    tree.plain more := by
  induction depth generalizing more tree with
  | zero =>
      cases tree with
      | null => rw [plain]
      | bool value => rw [plain]
      | natural value =>
          rw [plain] at h ⊢
          exact h
      | number text => cases h
      | string value =>
          rw [plain] at h ⊢
          exact h
      | array items => cases h
      | object members => cases h
  | succ depth ih =>
      obtain ⟨more, rfl⟩ := Nat.exists_eq_add_of_le' (Nat.le_trans (Nat.succ_le_succ depth.zero_le) hle)
      have hless : depth ≤ more := Nat.le_of_succ_le_succ hle
      cases tree with
      | null => rw [plain]
      | bool value => rw [plain]
      | natural value =>
          rw [plain] at h ⊢
          exact h
      | number text => cases h
      | string value =>
          rw [plain] at h ⊢
          exact h
      | array items =>
          rw [plain, List.all_eq_true] at h ⊢
          exact fun item hitem => ih hless (h item hitem)
      | object members =>
          rw [plain, List.all_eq_true] at h ⊢
          intro member hmember
          have hplain := Bool.and_eq_true_iff.1 (h member hmember)
          exact Bool.and_eq_true_iff.2 ⟨hplain.1, ih hless hplain.2⟩

/-! ## Writing -/

def quoted (value : String) : List Char := '"' :: value.toList ++ ['"']

/-- Texts with commas between them. -/
def joined : List (List Char) → List Char
  | [] => []
  | [text] => text
  | text :: more => text ++ ',' :: joined more

/-- The compact text of a plain tree. -/
def compact : Nat → Json → List Char
  | _, .null => ['n', 'u', 'l', 'l']
  | _, .bool true => ['t', 'r', 'u', 'e']
  | _, .bool false => ['f', 'a', 'l', 's', 'e']
  | _, .natural value => Nat.toDigits 10 value
  | _, .number text => text.toList
  | _, .string value => quoted value
  | 0, .array _ => []
  | 0, .object _ => []
  | depth + 1, .array items => '[' :: joined (items.map (compact depth)) ++ [']']
  | depth + 1, .object members =>
      '{' :: joined (members.map fun member => quoted member.1 ++ ':' :: compact depth member.2)
        ++ ['}']

/-! ## Reading -/

def readQuoted (text : List Char) : Option (String × List Char) :=
  match text.dropWhile (· != '"') with
  | [] => none
  | _ :: rest => some (String.ofList (text.takeWhile (· != '"')), rest)

def readScalar (text : List Char) : Option (Json × List Char) :=
  if text.takeWhile Char.isDigit ≠ [] then
    some (.natural (Nat.ofDigitChars 10 (text.takeWhile Char.isDigit) 0),
      text.dropWhile Char.isDigit)
  else
    match text with
    | 'n' :: 'u' :: 'l' :: 'l' :: rest => some (.null, rest)
    | 't' :: 'r' :: 'u' :: 'e' :: rest => some (.bool true, rest)
    | 'f' :: 'a' :: 'l' :: 's' :: 'e' :: rest => some (.bool false, rest)
    | '"' :: rest => (readQuoted rest).map fun read => (.string read.1, read.2)
    | _ => none

/-- At least one element, up to the closing character. -/
def readList {α : Type} (readOne : List Char → Option (α × List Char)) (close : Char) :
    Nat → List Char → Option (List α × List Char)
  | 0, _ => none
  | fuel + 1, text =>
      match readOne text with
      | none => none
      | some (_, []) => none
      | some (a, c :: rest) =>
          if c = ',' then (readList readOne close fuel rest).map fun read => (a :: read.1, read.2)
          else if c = close then some ([a], rest)
          else none

def readMember (readOne : List Char → Option (Json × List Char)) :
    List Char → Option ((String × Json) × List Char)
  | '"' :: text =>
      match readQuoted text with
      | some (name, ':' :: rest) => (readOne rest).map fun read => ((name, read.1), read.2)
      | _ => none
  | _ => none

/-- A container whose elements and end are read by `readOne` and `close`. -/
def readContainer {α : Type} (readOne : List Char → Option (α × List Char)) (close : Char)
    (text : List Char) : Option (List α × List Char) :=
  match readList readOne close text.length text with
  | some read => some read
  | none => if text.head? = some close then some ([], text.tail) else none

def readValue : Nat → List Char → Option (Json × List Char)
  | depth + 1, '[' :: text =>
      (readContainer (readValue depth) ']' text).map fun read => (.array read.1, read.2)
  | depth + 1, '{' :: text =>
      (readContainer (readMember (readValue depth)) '}' text).map fun read => (.object read.1, read.2)
  | _, text => readScalar text

/-- One value and white space behind it. -/
def read (depth : Nat) (text : List Char) : Option Json :=
  match readValue depth text with
  | some (tree, rest) => if rest.all Char.isWhitespace then some tree else none
  | none => none

/-! ## Round trip -/

theorem readQuoted_quoted {value : String} (h : plainString value) (rest : List Char) :
    readQuoted (value.toList ++ '"' :: rest) = some (value, rest) := by
  have hfree : ∀ c ∈ value.toList, (c != '"') = true := by
    intro c hc
    have hplain := List.all_eq_true.1 h c hc
    unfold plainChar at hplain
    simp only [Bool.and_eq_true] at hplain
    exact hplain.1.2
  unfold readQuoted
  rw [List.dropWhile_append_of_pos hfree, List.takeWhile_append_of_pos hfree]
  simp

/-- A number ends here. -/
def Stops (rest : List Char) : Prop := ∀ c ∈ rest.head?, c.isDigit = false

theorem stops_cons {c : Char} (h : c.isDigit = false) (rest : List Char) : Stops (c :: rest) := by
  intro d hd
  cases hd
  exact h

theorem readScalar_digits (value : Nat) {rest : List Char} (h : Stops rest) :
    readScalar (Nat.toDigits 10 value ++ rest) = some (.natural value, rest) := by
  have hdigits : ∀ c ∈ Nat.toDigits 10 value, c.isDigit = true := fun c hc =>
    Nat.isDigit_of_mem_toDigits (by decide) (by decide) hc
  have hne : Nat.toDigits 10 value ≠ [] := Nat.toDigits_ne_nil
  have htake : (Nat.toDigits 10 value ++ rest).takeWhile Char.isDigit = Nat.toDigits 10 value := by
    rw [List.takeWhile_append_of_pos hdigits]
    cases rest with
    | nil => simp
    | cons c rest => simp [h c rfl]
  have hdrop : (Nat.toDigits 10 value ++ rest).dropWhile Char.isDigit = rest := by
    rw [List.dropWhile_append_of_pos hdigits]
    cases rest with
    | nil => simp
    | cons c rest => simp [h c rfl]
  unfold readScalar
  rw [htake, hdrop, if_pos hne, Nat.ofDigitChars_ten_toDigits]

/-- Scalars are read at any depth. -/
theorem readValue_scalar (depth : Nat) {c : Char} (hopen : c ≠ '[' ∧ c ≠ '{') (text : List Char) :
    readValue depth (c :: text) = readScalar (c :: text) := by
  cases depth with
  | zero => rfl
  | succ depth =>
      rw [readValue]
      · exact fun _ rest _ h => hopen.1 (List.cons.inj h).1
      · exact fun _ rest _ h => hopen.2 (List.cons.inj h).1

theorem readValue_digits (depth value : Nat) {rest : List Char} (h : Stops rest) :
    readValue depth (Nat.toDigits 10 value ++ rest) = some (.natural value, rest) := by
  rw [← readScalar_digits value h]
  cases hdigits : Nat.toDigits 10 value with
  | nil => exact absurd hdigits Nat.toDigits_ne_nil
  | cons c more =>
      have hdigit : c.isDigit = true :=
        Nat.isDigit_of_mem_toDigits (b := 10) (n := value) (by decide) (by decide)
          (by rw [hdigits]; exact List.mem_cons_self)
      apply readValue_scalar
      constructor
      · rintro rfl
        exact absurd hdigit (by decide)
      · rintro rfl
        exact absurd hdigit (by decide)

theorem joined_cons (text : List Char) {more : List (List Char)} (h : more ≠ []) :
    joined (text :: more) = text ++ ',' :: joined more := by
  cases more with
  | nil => exact absurd rfl h
  | cons next more => rfl

/-- A list is read if its elements are, in front of a comma or the end. -/
theorem readList_joined {α : Type} {readOne : List Char → Option (α × List Char)}
    {write : α → List Char} {close : Char} (hclose : close ≠ ',') {items : List α}
    (hone : ∀ a ∈ items, ∀ rest, readOne (write a ++ ',' :: rest) = some (a, ',' :: rest) ∧
      readOne (write a ++ close :: rest) = some (a, close :: rest))
    (hne : items ≠ []) (fuel : Nat) (hfuel : items.length ≤ fuel) (rest : List Char) :
    readList readOne close fuel (joined (items.map write) ++ close :: rest) =
      some (items, rest) := by
  induction items generalizing fuel with
  | nil => exact absurd rfl hne
  | cons a items ih =>
      obtain ⟨fuel, rfl⟩ := Nat.exists_eq_add_of_le' (Nat.one_le_of_lt (Nat.lt_of_lt_of_le
        (by simp : 0 < (a :: items).length) hfuel))
      unfold readList
      by_cases hitems : items = []
      · subst hitems
        have hlast := (hone a List.mem_cons_self rest).2
        show (match readOne (write a ++ close :: rest) with
          | none => none
          | some (_, []) => none
          | some (b, c :: rest) => _) = _
        rw [hlast]
        dsimp only
        rw [if_neg hclose, if_pos rfl]
      · have hmore := (hone a List.mem_cons_self (joined (items.map write) ++ close :: rest)).1
        rw [List.map_cons, joined_cons _ (by simpa using hitems), List.append_assoc,
          List.cons_append, hmore]
        dsimp only
        rw [if_pos rfl, ih (fun b hb => hone b (List.mem_cons_of_mem _ hb)) hitems fuel
          (by simpa using hfuel)]
        rfl

theorem length_joined {texts : List (List Char)} (hne : texts ≠ []) :
    texts.length ≤ (joined texts).length + 1 := by
  induction texts with
  | nil => exact absurd rfl hne
  | cons text texts ih =>
      by_cases htexts : texts = []
      · subst htexts
        simp [joined]
      · have hle := ih htexts
        rw [joined_cons _ htexts, List.length_append, List.length_cons, List.length_cons]
        omega

theorem readMember_compact {readOne : List Char → Option (Json × List Char)}
    {write : Json → List Char} {member : String × Json} (hname : plainString member.1)
    {rest : List Char} (hone : readOne (write member.2 ++ rest) = some (member.2, rest)) :
    readMember readOne ((quoted member.1 ++ ':' :: write member.2) ++ rest) =
      some (member, rest) := by
  have hread := readQuoted_quoted hname (':' :: (write member.2 ++ rest))
  unfold quoted
  simp only [List.cons_append, List.append_assoc, List.nil_append]
  rw [readMember, hread]
  show (readOne (write member.2 ++ rest)).map _ = _
  rw [hone]
  rfl

/-- Scalars, at any depth. -/
theorem readValue_scalars (depth : Nat) {tree : Json} (h : tree.plain 0) {rest : List Char}
    (hrest : Stops rest) :
    readValue depth (compact depth tree ++ rest) = some (tree, rest) := by
  cases tree with
  | null =>
      rw [compact]
      exact readValue_scalar depth (by decide) _
  | bool value =>
      cases value with
      | true =>
          rw [compact]
          exact readValue_scalar depth (by decide) _
      | false =>
          rw [compact]
          exact readValue_scalar depth (by decide) _
  | natural value =>
      rw [compact]
      exact readValue_digits depth value hrest
  | number text => cases h
  | string value =>
      have hread := readQuoted_quoted h rest
      rw [compact, quoted, List.append_assoc, List.cons_append, readValue_scalar depth (by decide)]
      show (readQuoted (value.toList ++ '"' :: rest)).map _ = _
      rw [hread]
      rfl
  | array items => cases h
  | object members => cases h

/-- A container is read if its elements are. -/
theorem readContainer_compact {α : Type} {readOne : List Char → Option (α × List Char)}
    {write : α → List Char} {close : Char} (hclose : close.isDigit = false ∧ close ≠ ',')
    (hend : ∀ rest, readOne (close :: rest) = none) {items : List α}
    (hone : ∀ a ∈ items, ∀ rest, Stops rest → readOne (write a ++ rest) = some (a, rest))
    (rest : List Char) :
    readContainer readOne close (joined (items.map write) ++ close :: rest) =
      some (items, rest) := by
  unfold readContainer
  by_cases hne : items = []
  · subst hne
    have hnone : readList readOne close (close :: rest).length (close :: rest) = none := by
      rw [List.length_cons, readList, hend]
    show (match readList readOne close (close :: rest).length (close :: rest) with
      | some read => some read
      | none => if (close :: rest).head? = some close then some ([], rest) else none) = _
    rw [hnone]
    simp
  · have hlength := @length_joined (items.map write) (by simpa using hne)
    rw [List.length_map] at hlength
    rw [readList_joined hclose.2 _ hne]
    · rw [List.length_append, List.length_cons]
      omega
    · intro a ha rest
      exact ⟨hone a ha _ (stops_cons (by decide) rest), hone a ha _ (stops_cons hclose.1 rest)⟩

/-- Every plain tree is read back. -/
theorem readValue_compact (depth : Nat) (tree : Json) (h : tree.plain depth) {rest : List Char}
    (hrest : Stops rest) :
    readValue depth (compact depth tree ++ rest) = some (tree, rest) := by
  induction depth generalizing tree rest with
  | zero => exact readValue_scalars 0 h hrest
  | succ depth ih =>
      cases tree with
      | array items =>
          rw [plain, List.all_eq_true] at h
          have hread : readContainer (readValue depth) ']'
              (joined (items.map (compact depth)) ++ ']' :: rest) = some (items, rest) := by
            apply readContainer_compact (by decide)
            · exact fun rest => readValue_scalar depth (by decide) rest
            · exact fun item hitem rest hrest => ih item (h item hitem) hrest
          rw [compact, List.append_assoc, List.cons_append, readValue, List.singleton_append, hread]
          rfl
      | object members =>
          rw [plain, List.all_eq_true] at h
          have hread : readContainer (readMember (readValue depth)) '}'
              (joined (members.map fun member => quoted member.1 ++ ':' :: compact depth member.2)
                ++ '}' :: rest) = some (members, rest) := by
            apply readContainer_compact (by decide)
            · exact fun rest => rfl
            · intro member hmember rest hrest
              have hplain := Bool.and_eq_true_iff.1 (h member hmember)
              exact readMember_compact hplain.1 (ih member.2 hplain.2 hrest)
          rw [compact, List.append_assoc, List.cons_append, readValue, List.singleton_append, hread]
          rfl
      | null => exact @readValue_scalars _ .null h rest hrest
      | bool value => exact @readValue_scalars _ (.bool value) h rest hrest
      | natural value => exact @readValue_scalars _ (.natural value) h rest hrest
      | number text => cases h
      | string value => exact @readValue_scalars _ (.string value) h rest hrest

theorem read_compact {depth : Nat} {tree : Json} (h : tree.plain depth) {space : List Char}
    (hspace : space.all Char.isWhitespace) :
    read depth (compact depth tree ++ space) = some tree := by
  have hstops : Stops space := by
    intro c hc
    have hwhite := List.all_eq_true.1 hspace c (List.mem_of_mem_head? hc)
    simp only [Char.isWhitespace, Bool.or_eq_true, decide_eq_true_eq] at hwhite
    rcases hwhite with ((rfl | rfl) | rfl) | rfl
    all_goals rfl
  unfold read
  rw [readValue_compact depth tree h hstops]
  dsimp only
  rw [if_pos hspace]

/-! ## Characters -/

theorem mem_joined {texts : List (List Char)} {c : Char} (h : c ∈ joined texts) :
    c = ',' ∨ ∃ text ∈ texts, c ∈ text := by
  induction texts with
  | nil => cases h
  | cons text texts ih =>
      by_cases hne : texts = []
      · subst hne
        exact Or.inr ⟨text, List.mem_cons_self, h⟩
      · rw [joined_cons _ hne, List.mem_append, List.mem_cons] at h
        rcases h with h | rfl | h
        · exact Or.inr ⟨text, List.mem_cons_self, h⟩
        · exact Or.inl rfl
        · rcases ih h with hcomma | ⟨other, hother, hmem⟩
          · exact Or.inl hcomma
          · exact Or.inr ⟨other, List.mem_cons_of_mem _ hother, hmem⟩

theorem quoted_unescaped {value : String} (h : plainString value) : '\\' ∉ quoted value := by
  unfold quoted
  intro hmem
  rcases List.mem_append.1 hmem with hmem | hmem
  · rcases List.mem_cons.1 hmem with heq | hmem
    · exact absurd heq (by decide)
    · have hplain := List.all_eq_true.1 h _ hmem
      exact absurd hplain (by decide)
  · exact absurd hmem (by decide)

/-- A plain tree is written without an escape. -/
theorem compact_unescaped {depth : Nat} {tree : Json} (h : tree.plain depth) :
    '\\' ∉ compact depth tree := by
  have hscalar : ∀ (depth : Nat) (tree : Json), tree.plain 0 → '\\' ∉ compact depth tree := by
    intro depth tree h
    cases tree with
    | null => rw [compact]; decide
    | bool value =>
        cases value with
        | true => rw [compact]; decide
        | false => rw [compact]; decide
    | natural value =>
        rw [compact]
        intro hmem
        exact absurd (Nat.isDigit_of_mem_toDigits (by decide) (by decide) hmem) (by decide)
    | number text => cases h
    | string value =>
        rw [compact]
        exact quoted_unescaped h
    | array items => cases h
    | object members => cases h
  induction depth generalizing tree with
  | zero => exact hscalar 0 tree h
  | succ depth ih =>
      cases tree with
      | array items =>
          rw [plain, List.all_eq_true] at h
          rw [compact, List.cons_append, List.mem_cons, List.mem_append]
          rintro (heq | hmem | hmem)
          · exact absurd heq (by decide)
          · rcases mem_joined hmem with heq | ⟨text, htext, hmem⟩
            · exact absurd heq (by decide)
            · obtain ⟨item, hitem, rfl⟩ := List.mem_map.1 htext
              exact ih (h item hitem) hmem
          · exact absurd hmem (by decide)
      | object members =>
          rw [plain, List.all_eq_true] at h
          rw [compact, List.cons_append, List.mem_cons, List.mem_append]
          rintro (heq | hmem | hmem)
          · exact absurd heq (by decide)
          · rcases mem_joined hmem with heq | ⟨text, htext, hmem⟩
            · exact absurd heq (by decide)
            · obtain ⟨member, hmember, rfl⟩ := List.mem_map.1 htext
              have hplain := Bool.and_eq_true_iff.1 (h member hmember)
              rcases List.mem_append.1 hmem with hmem | hmem
              · exact quoted_unescaped hplain.1 hmem
              · rcases List.mem_cons.1 hmem with heq | hmem
                · exact absurd heq (by decide)
                · exact ih hplain.2 hmem
          · exact absurd hmem (by decide)
      | null => exact hscalar _ .null h
      | bool value => exact hscalar _ (.bool value) h
      | natural value => exact hscalar _ (.natural value) h
      | number text => cases h
      | string value => exact hscalar _ (.string value) h

end Json

end MCode.Lib
