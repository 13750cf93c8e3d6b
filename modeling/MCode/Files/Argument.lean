import MCode.Files.Prepare

/-!
# Path arguments

`resolve_relative_argument` of `mcode-tools/src/builtin/fs_search`, on Unix: a
path that a tool was given is resolved below the session root without asking
the file system.  An absolute one goes through a stack of components and is cut
at the root, a relative one through a path buffer that its components are
pushed to and popped from.

`std::path` is modelled on the bytes of a path, as far as the two need it: the
components that a path is read as, and how a buffer grows and shrinks.
-/

namespace MCode.Files

open MCode.Lib

/-! ## Components -/

deriving instance DecidableEq for Component

namespace Component

/-- `Component::as_os_str`. -/
def asOsStr : Component → OsStr
  | .RootDir => [0x2F]
  | .CurDir => [0x2E]
  | .ParentDir => [0x2E, 0x2E]
  | .Normal name => name

def isNormal : Component → Bool
  | .Normal _ => true
  | _ => false

/-- What stands between two separators, if it is a component of its own. -/
def parseSingle (piece : OsStr) : Option Component :=
  if piece = [] ∨ piece = [0x2E] then none
  else if piece = [0x2E, 0x2E] then some .ParentDir
  else some (.Normal piece)

end Component

open Component

/-- `Path::is_absolute`. -/
def isAbsolute (path : OsStr) : Bool := path.head? == some 0x2F

/-- `include_cur_dir`: a leading dot is a component, where no name goes on behind it. -/
def includeCurDir (path : OsStr) : Bool := path.head? == some 0x2E && path[1]?.all (· == 0x2F)

/-- What a path starts with, before its pieces. -/
def lead (path : OsStr) : List Component :=
  if isAbsolute path then [.RootDir] else if includeCurDir path then [.CurDir] else []

/-- The pieces that are components.  Neither repeated separators nor dots leave any. -/
def body (path : OsStr) : List Component := (path.splitOn 0x2F).filterMap parseSingle

/-- `Path::components`. -/
def components (path : OsStr) : List Component := lead path ++ body path

/-! ## Path buffers -/

/-- `PathBuf::push`. -/
def push (front path : OsStr) : OsStr :=
  if isAbsolute path then path
  else if front.getLast?.any (· != 0x2F) then front ++ 0x2F :: path
  else front ++ path

/-- The pieces without the last ones that are no components. -/
def trimRight (pieces : List OsStr) : List OsStr :=
  pieces.rdropWhile fun piece => parseSingle piece == none

/-- `Path::parent`. -/
def parent (path : OsStr) : Option OsStr :=
  let front := path.take (lead path).length
  let pieces := trimRight ((path.drop front.length).splitOn 0x2F)
  if pieces ≠ [] then some (front ++ [0x2F].intercalate (trimRight pieces.dropLast))
  else if front = [0x2E] then some []
  else none

/-- `FromIterator for PathBuf`: the components are pushed to an empty buffer. -/
def collect (parts : List Component) : OsStr :=
  parts.foldl (fun out part => push out part.asOsStr) []

/-! ## Resolving an argument -/

/-- The loop of `lexical_normalize`, with the stack of components. -/
def normalizeParts (parts : List Component) : List Component → List Component
  | [] => parts
  | .CurDir :: path => normalizeParts parts path
  | .ParentDir :: path =>
      if parts.getLast?.any isNormal then normalizeParts parts.dropLast path
      else normalizeParts (parts ++ [.ParentDir]) path
  | other :: path => normalizeParts (parts ++ [other]) path

def lexicalNormalize (path : OsStr) : OsStr := collect (normalizeParts [] (components path))

def lexicalComponentsEqual : Component → Component → Bool
  | .Normal left, .Normal right => left == right
  | .RootDir, .RootDir | .CurDir, .CurDir | .ParentDir, .ParentDir => true
  | _, _ => false

def stripPrefixLexical (root candidate : OsStr) : Option OsStr :=
  let root := components root
  let candidate := components candidate
  if candidate.length < root.length then none
  else if !(root.zip candidate).all fun pair => lexicalComponentsEqual pair.1 pair.2 then none
  else
    let suffix := candidate.drop root.length
    if suffix.any fun component => !component.isNormal then none else some (collect suffix)

/-- The loop of `normalize_anchored_relative`, with the path buffer. -/
def normalizeAnchored (out : OsStr) : List Component → Option OsStr
  | [] => some out
  | .CurDir :: path => normalizeAnchored out path
  | .Normal part :: path => normalizeAnchored (push out part) path
  | .ParentDir :: path =>
      match parent out with
      | none => none
      | some out => normalizeAnchored out path
  | .RootDir :: _ => none

def resolveRelativeArgument (root : OsStr) (aliasRoot : Option OsStr) (raw : List Char) :
    Option OsStr :=
  let argument := Utf8.encode raw
  if isAbsolute argument then
    let normalized := lexicalNormalize argument
    (stripPrefixLexical root normalized).or
      (aliasRoot.bind fun aliasRoot => stripPrefixLexical aliasRoot normalized)
  else normalizeAnchored [] (components argument)

/-! ## Pieces -/

/-- A component that stands between separators, and that a path of its bytes alone has. -/
def Component.Single (part : Component) : Prop :=
  parseSingle part.asOsStr = some part ∧ 0x2F ∉ part.asOsStr

theorem body_nil : body [] = [] := rfl

theorem body_append (front rest : OsStr) :
    body (front ++ 0x2F :: rest) = body front ++ body rest := by
  unfold body
  rw [List.splitOn_append_cons_self, List.filterMap_append]

theorem parseSingle_asOsStr {piece : OsStr} {part : Component}
    (h : parseSingle piece = some part) : part.asOsStr = piece := by
  unfold parseSingle at h
  split at h
  · cases h
  split at h
  next hpiece =>
    cases h
    rw [hpiece]
    rfl
  next =>
    cases h
    rfl

theorem single_of_mem_body {path : OsStr} {part : Component} (h : part ∈ body path) :
    part.Single := by
  obtain ⟨piece, hpiece, hpart⟩ := List.mem_filterMap.1 h
  have hbytes := parseSingle_asOsStr hpart
  constructor
  · rw [hbytes]
    exact hpart
  · rw [hbytes]
    exact Paths.not_mem_of_mem_splitOn hpiece

namespace Component.Single

variable {part : Component}

theorem ne_nil (h : part.Single) : part.asOsStr ≠ [] := by
  intro hnil
  have hparse := h.1
  rw [hnil] at hparse
  cases hparse

theorem ne_dot (h : part.Single) : part.asOsStr ≠ [0x2E] := by
  intro hdot
  have hparse := h.1
  rw [hdot] at hparse
  cases hparse

theorem not_curDir (h : part.Single) : part ≠ .CurDir := by
  rintro rfl
  exact h.ne_dot rfl

theorem not_rootDir (h : part.Single) : part ≠ .RootDir := by
  rintro rfl
  exact h.2 (List.mem_singleton.2 rfl)

theorem not_absolute (h : part.Single) : isAbsolute part.asOsStr = false := by
  have hsep := h.2
  cases hbytes : part.asOsStr with
  | nil => rfl
  | cons byte bytes =>
      rw [hbytes] at hsep
      have hbyte : byte ≠ 0x2F := by
        rintro rfl
        exact hsep List.mem_cons_self
      simpa [isAbsolute] using hbyte

theorem not_includeCurDir (h : part.Single) : includeCurDir part.asOsStr = false := by
  have hsep := h.2
  have hdot := h.ne_dot
  match hbytes : part.asOsStr with
  | [] => rfl
  | [byte] =>
      rw [hbytes] at hdot
      have hbyte : byte ≠ 0x2E := by
        rintro rfl
        exact hdot rfl
      simp [includeCurDir, hbyte]
  | byte :: next :: bytes =>
      rw [hbytes] at hsep
      have hnext : next ≠ 0x2F := by
        rintro rfl
        exact hsep (List.mem_cons_of_mem _ List.mem_cons_self)
      simp [includeCurDir, hnext]

theorem body_eq (h : part.Single) : body part.asOsStr = [part] := by
  unfold body
  rw [List.splitOn_eq_singleton h.2]
  show List.filterMap parseSingle [part.asOsStr] = [part]
  rw [List.filterMap_cons_some h.1, List.filterMap_nil]

theorem components_eq (h : part.Single) : components part.asOsStr = [part] := by
  unfold components lead
  rw [h.not_absolute, h.not_includeCurDir, h.body_eq]
  rfl

end Component.Single

/-! ## Pushing -/

/-- What is pushed to a path that is not empty goes behind it. -/
theorem push_eq {front : OsStr} (hfront : front ≠ []) {path : OsStr}
    (hpath : isAbsolute path = false) :
    ∃ more, push front path = front ++ more ∧ body (push front path) = body front ++ body path ∧
      (front = [0x2E] → more.head? = some 0x2F) := by
  unfold push
  rw [if_neg (by rw [hpath]; exact Bool.false_ne_true)]
  split
  next => exact ⟨0x2F :: path, rfl, body_append front path, fun _ => rfl⟩
  next hsep =>
    obtain ⟨start, last, rfl⟩ : ∃ start last, front = start ++ [last] :=
      ⟨_, _, (List.dropLast_append_getLast hfront).symm⟩
    have hlast : last = 0x2F := by simpa using hsep
    subst hlast
    refine ⟨path, rfl, ?_, ?_⟩
    · rw [List.append_assoc, List.singleton_append, body_append, body_append, body_nil,
        List.append_nil]
    · intro hdot
      have hlast := congrArg List.getLast? hdot
      simp at hlast

theorem components_push {front : OsStr} (hfront : front ≠ []) {path : OsStr}
    (hpath : isAbsolute path = false) :
    components (push front path) = components front ++ body path := by
  obtain ⟨more, hmore, hbody, hdot⟩ := push_eq hfront hpath
  have hlead : lead (push front path) = lead front := by
    rw [hmore]
    unfold lead isAbsolute includeCurDir
    match front, hfront, hdot with
    | [byte], _, hdot =>
        cases more with
        | nil => rfl
        | cons next more =>
            by_cases hbyte : byte = 0x2E
            · subst hbyte
              have hnext : next = 0x2F := by simpa using hdot rfl
              subst hnext
              rfl
            · simp [hbyte]
    | byte :: next :: front, _, _ => rfl
  unfold components
  rw [hlead, hbody, List.append_assoc]

theorem push_ne_nil {front path : OsStr} (hfront : front ≠ []) : push front path ≠ [] := by
  unfold push
  split
  next h =>
    rintro rfl
    cases h
  split
  next => simp
  next => simp [hfront]

theorem components_pushes {parts : List Component} (hparts : ∀ part ∈ parts, part.Single)
    {front : OsStr} (hfront : front ≠ []) :
    components (parts.foldl (fun out part => push out part.asOsStr) front) =
      components front ++ parts := by
  induction parts generalizing front with
  | nil => simp
  | cons part parts ih =>
      have hpart := hparts part List.mem_cons_self
      rw [List.foldl_cons, ih (fun other h => hparts other (List.mem_cons_of_mem _ h))
        (push_ne_nil hfront), components_push hfront hpart.not_absolute, hpart.body_eq,
        List.append_assoc]
      rfl

/-- A relative path of components that were collected has these. -/
theorem components_collect {parts : List Component} (hparts : ∀ part ∈ parts, part.Single) :
    components (collect parts) = parts := by
  cases parts with
  | nil => rfl
  | cons part parts =>
      have hpart := hparts part List.mem_cons_self
      have hpush : push [] part.asOsStr = part.asOsStr := by
        unfold push
        rw [if_neg (by rw [hpart.not_absolute]; exact Bool.false_ne_true)]
        rfl
      unfold collect
      rw [List.foldl_cons, hpush, components_pushes
        (fun other h => hparts other (List.mem_cons_of_mem _ h)) hpart.ne_nil, hpart.components_eq]
      rfl

/-- So has an absolute one. -/
theorem components_collect_root {parts : List Component} (hparts : ∀ part ∈ parts, part.Single) :
    components (collect (.RootDir :: parts)) = .RootDir :: parts := by
  unfold collect
  rw [List.foldl_cons]
  exact components_pushes hparts (List.cons_ne_nil _ _)

/-! ## Popping -/

theorem single_of_normal {path name : OsStr} (h : .Normal name ∈ components path) :
    (Component.Normal name).Single := by
  unfold components lead at h
  obtain hlead | hbody := List.mem_append.1 h
  · split at hlead
    · simp at hlead
    split at hlead <;> simp at hlead
  · exact single_of_mem_body hbody

theorem collect_append (parts : List Component) (part : Component) :
    collect (parts ++ [part]) = push (collect parts) part.asOsStr := by
  unfold collect
  rw [List.foldl_append]
  rfl

theorem collect_ne_nil {parts : List Component} (hparts : ∀ part ∈ parts, part.Single)
    (hne : parts ≠ []) : collect parts ≠ [] := by
  intro hnil
  have hcomponents := components_collect hparts
  rw [hnil] at hcomponents
  exact hne hcomponents.symm

theorem getLast_collect {parts : List Component} (hparts : ∀ part ∈ parts, part.Single) :
    (collect parts).getLast? ≠ some 0x2F := by
  induction parts using List.reverseRecOn with
  | nil => exact nofun
  | append_singleton parts part _ =>
      have hpart := hparts part (List.mem_append_right _ (List.mem_singleton_self part))
      have hlast : (collect (parts ++ [part])).getLast? = part.asOsStr.getLast? := by
        rw [collect_append]
        unfold push
        rw [if_neg (by rw [hpart.not_absolute]; exact Bool.false_ne_true)]
        split
        · rw [← List.singleton_append, ← List.append_assoc,
            List.getLast?_append_of_ne_nil _ hpart.ne_nil]
        · exact List.getLast?_append_of_ne_nil _ hpart.ne_nil
      rw [hlast]
      intro hsep
      exact hpart.2 (List.mem_of_getLast? hsep)

/-- The buffer holds the components with one separator between any two. -/
theorem collect_eq {parts : List Component} (hparts : ∀ part ∈ parts, part.Single) :
    collect parts = [0x2F].intercalate (parts.map asOsStr) := by
  induction parts using List.reverseRecOn with
  | nil => rfl
  | append_singleton parts part ih =>
      have hpart := hparts part (List.mem_append_right _ (List.mem_singleton_self part))
      have hbefore := fun other h => hparts other (List.mem_append_left [part] h)
      rw [collect_append]
      unfold push
      rw [if_neg (by rw [hpart.not_absolute]; exact Bool.false_ne_true)]
      by_cases hnil : parts = []
      · subst hnil
        show part.asOsStr = [0x2F].intercalate [part.asOsStr]
        rw [List.intercalate_singleton]
      · have hne := collect_ne_nil hbefore hnil
        have hsep := getLast_collect hbefore
        have hlast : (collect parts).getLast?.any (· != 0x2F) = true := by
          rw [List.getLast?_eq_some_getLast hne] at hsep ⊢
          simpa using hsep
        rw [if_pos hlast, List.map_append, List.map_singleton,
          Paths.intercalate_append (by simpa using hnil) (List.cons_ne_nil _ _),
          List.intercalate_singleton, ih hbefore]

theorem trimRight_map {parts : List Component} (hparts : ∀ part ∈ parts, part.Single) :
    trimRight (parts.map asOsStr) = parts.map asOsStr := by
  unfold trimRight
  rw [List.rdropWhile_eq_self_iff]
  intro hne
  have hlast := List.getLast_mem hne
  obtain ⟨part, hpart, hbytes⟩ := List.mem_map.1 hlast
  rw [← hbytes, (hparts part hpart).1]
  exact Bool.false_ne_true

theorem lead_collect {parts : List Component} (hparts : ∀ part ∈ parts, part.Single) :
    lead (collect parts) = [] := by
  have hcomponents : lead (collect parts) ++ body (collect parts) = parts :=
    components_collect hparts
  cases hlead : lead (collect parts) with
  | nil => rfl
  | cons part rest =>
      have hmem : part ∈ parts := by
        rw [← hcomponents, hlead]
        exact List.mem_cons_self
      have hsingle := hparts part hmem
      unfold lead at hlead
      split at hlead
      · cases hlead
        exact absurd rfl hsingle.not_rootDir
      split at hlead
      · cases hlead
        exact absurd rfl hsingle.not_curDir
      · cases hlead

/-- `pop` takes the last component off, if there is one. -/
theorem parent_collect {parts : List Component} (hparts : ∀ part ∈ parts, part.Single) :
    parent (collect parts) = if parts.isEmpty then none else some (collect parts.dropLast) := by
  by_cases hnil : parts = []
  · subst hnil
    rfl
  · have hdrop := fun other h => hparts other (List.mem_of_mem_dropLast (a := other) h)
    have hpieces : (collect parts).splitOn 0x2F = parts.map asOsStr := by
      rw [collect_eq hparts]
      apply List.splitOn_intercalate
      · intro bytes hbytes
        obtain ⟨part, hpart, rfl⟩ := List.mem_map.1 hbytes
        exact (hparts part hpart).2
      · simpa using hnil
    unfold parent
    rw [lead_collect hparts]
    simp only [List.length_nil, List.take_zero, List.drop_zero, List.nil_append]
    rw [hpieces, trimRight_map hparts, if_pos (by simpa using hnil), if_neg (by simpa using hnil),
      ← List.map_dropLast, trimRight_map hdrop, collect_eq hdrop]

/-! ## The relative normalizer -/

/-- The parts of a relative path, as its components have them. -/
def Relative (path : List Component) : Prop := ∀ part ∈ path, part = .CurDir ∨ part.Single

theorem Relative.tail {part : Component} {path : List Component} (h : Relative (part :: path)) :
    Relative path := fun other hother => h other (List.mem_cons_of_mem _ hother)

theorem relative_components {path : OsStr} (h : isAbsolute path = false) :
    Relative (components path) := by
  intro part hpart
  unfold components lead at hpart
  rw [h, if_neg Bool.false_ne_true] at hpart
  obtain hlead | hbody := List.mem_append.1 hpart
  · split at hlead
    · exact .inl (List.mem_singleton.1 hlead)
    · cases hlead
  · exact .inr (single_of_mem_body hbody)

/-- Each name is a component of its own. -/
def AllSingle (names : List OsStr) : Prop := ∀ name ∈ names, (Component.Normal name).Single

theorem AllSingle.map {names : List OsStr} (h : AllSingle names) :
    ∀ part ∈ names.map Component.Normal, part.Single := by
  intro part hpart
  obtain ⟨name, hname, rfl⟩ := List.mem_map.1 hpart
  exact h name hname

theorem AllSingle.append {names : List OsStr} (h : AllSingle names) {part : OsStr}
    (hpart : (Component.Normal part).Single) : AllSingle (names ++ [part]) := by
  intro name hname
  obtain hname | hname := List.mem_append.1 hname
  · exact h name hname
  · rw [List.mem_singleton.1 hname]
    exact hpart

/-- The path buffer holds the names that are out. -/
theorem normalizeAnchored_eq {names : List OsStr} (hnames : AllSingle names) {path : List Component}
    (hpath : Relative path) :
    normalizeAnchored (collect (names.map .Normal)) path =
      (normalizeAnchoredRelative names path).map fun names => collect (names.map .Normal) := by
  induction path generalizing names with
  | nil => rfl
  | cons part path ih =>
      have hhead := hpath part List.mem_cons_self
      cases part with
      | CurDir => exact ih hnames hpath.tail
      | RootDir => rfl
      | Normal part =>
          have hpart : (Component.Normal part).Single := hhead.resolve_left nofun
          show normalizeAnchored (push (collect (names.map .Normal)) part) path = _
          have hpush := collect_append (names.map .Normal) (.Normal part)
          rw [← List.map_singleton (f := Component.Normal), ← List.map_append] at hpush
          rw [show push (collect (names.map .Normal)) part = _ from hpush.symm]
          exact ih (hnames.append hpart) hpath.tail
      | ParentDir =>
          unfold normalizeAnchored normalizeAnchoredRelative
          rw [parent_collect hnames.map, List.isEmpty_map, ← List.map_dropLast]
          split
          next hnone =>
            split at hnone
            next hempty => rw [if_pos hempty]; rfl
            next => cases hnone
          next out hsome =>
            split at hsome
            next => cases hsome
            next hempty =>
              cases hsome
              rw [if_neg hempty]
              exact ih (fun name h => hnames name (List.mem_of_mem_dropLast h)) hpath.tail

/-- Some prefix has more `..` than names, where as many names stand before it. -/
def Escapes (depth : Nat) (path : List Component) : Prop :=
  ∃ front, front <+: path ∧ depth + front.countP isNormal < front.count .ParentDir

theorem escapes_cons {depth : Nat} {part : Component} {path : List Component} :
    Escapes depth (part :: path) ↔
      ∃ front, front <+: path ∧
        depth + (part :: front).countP isNormal < (part :: front).count .ParentDir := by
  constructor
  · rintro ⟨front, hfront, hcount⟩
    cases front with
    | nil => simp at hcount
    | cons other front =>
        obtain ⟨rfl, hrest⟩ := List.cons_prefix_cons.1 hfront
        exact ⟨front, hrest, hcount⟩
  · rintro ⟨front, hfront, hcount⟩
    exact ⟨part :: front, List.cons_prefix_cons.2 ⟨rfl, hfront⟩, hcount⟩

/-- The walk fails where it would leave the directory that it started in. -/
theorem normalizeAnchoredRelative_none {names : List OsStr} {path : List Component}
    (hpath : Relative path) :
    normalizeAnchoredRelative names path = none ↔ Escapes names.length path := by
  induction path generalizing names with
  | nil =>
      constructor
      · intro h
        cases h
      · rintro ⟨front, hfront, hcount⟩
        rw [List.prefix_nil.1 hfront] at hcount
        simp at hcount
  | cons part path ih =>
      have hhead := hpath part List.mem_cons_self
      cases part with
      | CurDir =>
          rw [escapes_cons]
          exact ih hpath.tail
      | RootDir => exact absurd rfl (hhead.resolve_left nofun).not_rootDir
      | Normal part =>
          show normalizeAnchoredRelative (names ++ [part]) path = none ↔ _
          rw [escapes_cons, ih hpath.tail]
          unfold Escapes
          rw [List.length_append]
          apply exists_congr
          intro front
          apply and_congr_right
          intro _
          simp only [List.countP_cons, List.count_cons, isNormal, List.length_singleton]
          rw [show (Component.Normal part == .ParentDir) = false from rfl]
          simp only [Bool.false_eq_true, if_false, if_true]
          omega
      | ParentDir =>
          rw [escapes_cons]
          unfold normalizeAnchoredRelative
          by_cases hnames : names = []
          · subst hnames
            rw [if_pos (show ([] : List OsStr).isEmpty = true from rfl)]
            refine iff_of_true rfl ⟨[], List.nil_prefix, by decide⟩
          · have hlength := List.length_pos_iff.2 hnames
            rw [if_neg (by simpa using hnames), ih hpath.tail]
            unfold Escapes
            rw [List.length_dropLast]
            apply exists_congr
            intro front
            apply and_congr_right
            intro _
            simp only [List.countP_cons, List.count_cons, isNormal, beq_self_eq_true]
            simp only [Bool.false_eq_true, if_false, if_true]
            omega

theorem normalizeAnchoredRelative_names {names result : List OsStr} (hnames : AllSingle names)
    {path : List Component} (hpath : Relative path)
    (h : normalizeAnchoredRelative names path = some result) : AllSingle result := by
  induction path generalizing names with
  | nil =>
      cases h
      exact hnames
  | cons part path ih =>
      have hhead := hpath part List.mem_cons_self
      cases part with
      | CurDir => exact ih hnames hpath.tail h
      | RootDir => cases h
      | Normal part => exact ih (hnames.append (hhead.resolve_left nofun)) hpath.tail h
      | ParentDir =>
          unfold normalizeAnchoredRelative at h
          split at h
          · cases h
          · exact ih (fun name hname => hnames name (List.mem_of_mem_dropLast hname)) hpath.tail h

/-! ## The stack of components -/

theorem normalizeParts_append (parts front path : List Component) :
    normalizeParts parts (front ++ path) = normalizeParts (normalizeParts parts front) path := by
  induction front generalizing parts with
  | nil => rfl
  | cons part front ih =>
      cases part with
      | CurDir => exact ih parts
      | RootDir => exact ih _
      | Normal name => exact ih _
      | ParentDir =>
          simp only [List.cons_append, normalizeParts]
          split
          · exact ih _
          · exact ih _

theorem normalizeParts_names (parts : List Component) (names : List OsStr) :
    normalizeParts parts (names.map .Normal) = parts ++ names.map .Normal := by
  induction names generalizing parts with
  | nil => exact (List.append_nil parts).symm
  | cons name names ih =>
      show normalizeParts (parts ++ [.Normal name]) (names.map .Normal) = _
      rw [ih, List.append_assoc]
      rfl

/-- The stack does below its base what the names do on their own. -/
theorem normalizeParts_relative {base : List Component} {names result : List OsStr}
    {path : List Component} (h : normalizeAnchoredRelative names path = some result) :
    normalizeParts (base ++ names.map .Normal) path = base ++ result.map .Normal := by
  induction path generalizing names with
  | nil =>
      cases h
      rfl
  | cons part path ih =>
      cases part with
      | CurDir => exact ih h
      | RootDir => cases h
      | Normal part =>
          show normalizeParts (base ++ names.map .Normal ++ [.Normal part]) path = _
          rw [List.append_assoc, ← List.map_singleton (f := Component.Normal), ← List.map_append]
          exact ih h
      | ParentDir =>
          unfold normalizeAnchoredRelative at h
          split at h
          next => cases h
          next hempty =>
            obtain ⟨before, last, rfl⟩ : ∃ before last, names = before ++ [last] :=
              ⟨_, _, (List.dropLast_append_getLast (by simpa using hempty)).symm⟩
            have hstack : base ++ (before ++ [last]).map Component.Normal =
                (base ++ before.map .Normal) ++ [.Normal last] := by
              rw [List.map_append, List.append_assoc]
              rfl
            rw [List.dropLast_concat] at h
            unfold normalizeParts
            rw [hstack, List.getLast?_concat, List.dropLast_concat,
              if_pos (show (some (Component.Normal last)).any isNormal = true from rfl)]
            exact ih h

/-- Behind the root, the stack holds what stands between separators only. -/
theorem normalizeParts_root {parts path : List Component} (hparts : ∀ part ∈ parts, part.Single)
    (hpath : ∀ part ∈ path, part.Single) :
    ∃ rest, normalizeParts (.RootDir :: parts) path = .RootDir :: rest ∧
      ∀ part ∈ rest, part.Single := by
  induction path generalizing parts with
  | nil => exact ⟨parts, rfl, hparts⟩
  | cons part path ih =>
      have hpart := hpath part List.mem_cons_self
      have hrest := fun other h => hpath other (List.mem_cons_of_mem part h)
      have hpush : ∀ other ∈ parts ++ [part], other.Single := by
        intro other hother
        obtain hother | hother := List.mem_append.1 hother
        · exact hparts other hother
        · rw [List.mem_singleton.1 hother]
          exact hpart
      cases part with
      | CurDir => exact absurd rfl hpart.not_curDir
      | RootDir => exact absurd rfl hpart.not_rootDir
      | Normal name => exact ih hpush hrest
      | ParentDir =>
          unfold normalizeParts
          split
          next hlast =>
            have hne : parts ≠ [] := by
              rintro rfl
              cases hlast
            rw [List.dropLast_cons_of_ne_nil hne]
            exact ih (fun other h => hparts other (List.mem_of_mem_dropLast h)) hrest
          next => exact ih hpush hrest

/-! ## The root -/

/-- The root is absolute, and there is nothing to normalize about it. -/
def NormalRoot (root : OsStr) : Prop :=
  ∃ names : List OsStr, components root = .RootDir :: names.map .Normal

/-- The path is the root or goes down from it by names. -/
def Below (root path : OsStr) : Prop :=
  ∃ names : List OsStr, components path = components root ++ names.map .Normal

theorem lexicalComponentsEqual_iff {left right : Component} :
    lexicalComponentsEqual left right = true ↔ left = right := by
  cases left <;> cases right <;> simp [lexicalComponentsEqual]

theorem zip_all_iff {root candidate : List Component} (h : root.length ≤ candidate.length) :
    ((root.zip candidate).all fun pair => lexicalComponentsEqual pair.1 pair.2) = true ↔
      root <+: candidate := by
  induction root generalizing candidate with
  | nil => simp
  | cons part root ih =>
      cases candidate with
      | nil => simp at h
      | cons other candidate =>
          rw [List.zip_cons_cons, List.all_cons, Bool.and_eq_true, lexicalComponentsEqual_iff,
            ih (Nat.le_of_succ_le_succ h), List.cons_prefix_cons]

theorem all_normal_iff {suffix : List Component} :
    (suffix.any fun component => !component.isNormal) = false ↔
      ∃ names : List OsStr, suffix = names.map .Normal := by
  induction suffix with
  | nil => exact iff_of_true rfl ⟨[], rfl⟩
  | cons part suffix ih =>
      rw [List.any_cons, Bool.or_eq_false_iff, ih]
      constructor
      · rintro ⟨hpart, names, rfl⟩
        cases part with
        | Normal name => exact ⟨name :: names, rfl⟩
        | CurDir => cases hpart
        | RootDir => cases hpart
        | ParentDir => cases hpart
      · rintro ⟨names, hnames⟩
        cases names with
        | nil => cases hnames
        | cons name names =>
            cases hnames
            exact ⟨rfl, names, rfl⟩

theorem stripPrefixLexical_eq_some {root candidate result : OsStr} :
    stripPrefixLexical root candidate = some result ↔
      ∃ names : List OsStr, components candidate = components root ++ names.map .Normal ∧
        result = collect (names.map .Normal) := by
  unfold stripPrefixLexical
  dsimp only
  by_cases hlength : (components candidate).length < (components root).length
  · rw [if_pos hlength]
    constructor
    · intro h
      cases h
    · rintro ⟨names, hnames, -⟩
      rw [hnames, List.length_append] at hlength
      omega
  · have hzip := zip_all_iff (Nat.le_of_not_lt hlength)
    rw [if_neg hlength]
    by_cases hprefix : components root <+: components candidate
    · obtain ⟨suffix, hsuffix⟩ := hprefix
      rw [if_neg (by rw [hzip.2 ⟨suffix, hsuffix⟩]; exact Bool.false_ne_true), ← hsuffix,
        List.drop_left]
      have hnormal := @all_normal_iff suffix
      cases hany : suffix.any fun component => !component.isNormal with
      | true =>
          have hnone : ¬∃ names : List OsStr, suffix = names.map .Normal := by
            rw [← hnormal, hany]
            exact Bool.noConfusion
          constructor
          · intro h
            cases h
          · rintro ⟨names, hnames, -⟩
            exact absurd ⟨names, List.append_cancel_left hnames⟩ hnone
      | false =>
          obtain ⟨names, rfl⟩ := hnormal.1 hany
          constructor
          · intro h
            cases h
            exact ⟨names, rfl, rfl⟩
          · rintro ⟨others, hothers, rfl⟩
            rw [← List.append_cancel_left hothers]
            rfl
    · rw [if_pos (by
        rw [Bool.not_eq_true', ← Bool.not_eq_true, hzip]
        exact hprefix)]
      constructor
      · intro h
        cases h
      · rintro ⟨names, hnames, -⟩
        exact absurd ⟨_, hnames.symm⟩ hprefix

theorem stripPrefixLexical_eq_none {root candidate : OsStr} :
    stripPrefixLexical root candidate = none ↔ ¬Below root candidate := by
  rw [← Option.not_isSome_iff_eq_none, not_iff_not, Option.isSome_iff_exists]
  constructor
  · rintro ⟨result, h⟩
    obtain ⟨names, hnames, -⟩ := stripPrefixLexical_eq_some.1 h
    exact ⟨names, hnames⟩
  · rintro ⟨names, hnames⟩
    exact ⟨_, stripPrefixLexical_eq_some.2 ⟨names, hnames, rfl⟩⟩

theorem NormalRoot.ne_nil {root : OsStr} (h : NormalRoot root) : root ≠ [] := by
  rintro rfl
  obtain ⟨names, hnames⟩ := h
  cases hnames

theorem NormalRoot.normalizeParts_eq {root : OsStr} (h : NormalRoot root) :
    normalizeParts [] (components root) = components root := by
  obtain ⟨names, hnames⟩ := h
  rw [hnames]
  exact normalizeParts_names [.RootDir] names

theorem body_of_relative {path : OsStr} (h : isAbsolute path = false) (parts : List Component) :
    normalizeParts parts (components path) = normalizeParts parts (body path) := by
  unfold components lead
  rw [h, if_neg Bool.false_ne_true]
  split
  · rfl
  · rfl

/-- The normalized components of an absolute path are those of the buffer that they fill. -/
theorem components_lexicalNormalize {path : OsStr} {rest : List Component}
    (hpath : components path = .RootDir :: rest) (hrest : ∀ part ∈ rest, part.Single) :
    components (lexicalNormalize path) = normalizeParts [] (components path) := by
  have hstart : normalizeParts [] (.RootDir :: rest) = normalizeParts [.RootDir] rest := rfl
  have hempty : ∀ part ∈ ([] : List Component), part.Single :=
    fun _ h => absurd h List.not_mem_nil
  obtain ⟨stack, hstack, hsingle⟩ := normalizeParts_root hempty hrest
  unfold lexicalNormalize
  rw [hpath, hstart, hstack]
  exact components_collect_root hsingle

theorem push_absolute {front path : OsStr} (h : isAbsolute path = true) : push front path = path :=
  if_pos h

theorem isAbsolute_collect {parts : List Component} (hparts : ∀ part ∈ parts, part.Single) :
    isAbsolute (collect parts) = false := by
  have hlead := lead_collect hparts
  unfold lead at hlead
  split at hlead
  next => cases hlead
  next h => exact Bool.eq_false_iff.2 h

/-- AllSingle are joined with the root behind the root's components. -/
theorem components_push_names {root : OsStr} (hroot : root ≠ []) {names : List OsStr}
    (hnames : AllSingle names) :
    components (push root (collect (names.map .Normal))) =
      components root ++ names.map .Normal := by
  have hbody : body (collect (names.map .Normal)) = names.map Component.Normal := by
    have hcomponents := components_collect hnames.map
    unfold components at hcomponents
    rwa [lead_collect hnames.map] at hcomponents
  rw [components_push hroot (isAbsolute_collect hnames.map), hbody]

/-- What the names come to, where the argument is relative. -/
theorem components_lexicalNormalize_push {root argument : OsStr} (hroot : NormalRoot root)
    (hargument : isAbsolute argument = false) {names : List OsStr}
    (h : normalizeAnchoredRelative [] (components argument) = some names) :
    components (lexicalNormalize (push root argument)) = components root ++ names.map .Normal := by
  have hpush := components_push hroot.ne_nil hargument
  obtain ⟨above, habove⟩ := id hroot
  have hrest : ∀ part ∈ above.map .Normal ++ body argument, part.Single := by
    intro part hpart
    obtain hpart | hpart := List.mem_append.1 hpart
    · obtain ⟨name, -, rfl⟩ := List.mem_map.1 hpart
      have hmem : Component.Normal name ∈ components root := by
        rw [habove]
        exact List.mem_cons_of_mem _ hpart
      exact single_of_normal hmem
    · exact single_of_mem_body hpart
  have hcomponents : components (push root argument) =
      .RootDir :: (above.map .Normal ++ body argument) := by
    rw [hpush, habove, List.cons_append]
  calc components (lexicalNormalize (push root argument))
      = normalizeParts [] (components (push root argument)) :=
        components_lexicalNormalize hcomponents hrest
    _ = normalizeParts (components root) (body argument) := by
        rw [hpush, normalizeParts_append, hroot.normalizeParts_eq]
    _ = normalizeParts (components root ++ ([] : List OsStr).map .Normal)
        (components argument) := by
        rw [List.map_nil, List.append_nil, body_of_relative hargument]
    _ = components root ++ names.map .Normal := normalizeParts_relative h

theorem resolve_absolute {root : OsStr} {raw : List Char}
    (h : isAbsolute (Utf8.encode raw) = true) :
    resolveRelativeArgument root none raw =
      stripPrefixLexical root (lexicalNormalize (Utf8.encode raw)) := by
  unfold resolveRelativeArgument
  rw [if_pos h]
  exact Option.or_none

theorem resolve_relative {root : OsStr} {raw : List Char}
    (h : isAbsolute (Utf8.encode raw) = false) :
    resolveRelativeArgument root none raw =
      (normalizeAnchoredRelative [] (components (Utf8.encode raw))).map fun names =>
        collect (names.map .Normal) := by
  have hnames : AllSingle [] := fun _ hname => absurd hname List.not_mem_nil
  unfold resolveRelativeArgument
  dsimp only
  rw [h, if_neg Bool.false_ne_true]
  exact normalizeAnchored_eq hnames (relative_components h)

/-- An argument that resolves leads to names, and joined with the root to what the joined
argument normalizes to. -/
theorem resolve_names {root : OsStr} (hroot : NormalRoot root) {raw : List Char} {path : OsStr}
    (h : resolveRelativeArgument root none raw = some path) :
    ∃ names, path = collect (names.map .Normal) ∧ AllSingle names ∧
      components (lexicalNormalize (push root (Utf8.encode raw))) =
        components root ++ names.map .Normal := by
  cases habsolute : isAbsolute (Utf8.encode raw) with
  | true =>
      rw [resolve_absolute habsolute] at h
      obtain ⟨names, hnames, rfl⟩ := stripPrefixLexical_eq_some.1 h
      refine ⟨names, rfl, ?_, ?_⟩
      · intro name hname
        have hmem : .Normal name ∈ components (lexicalNormalize (Utf8.encode raw)) := by
          rw [hnames]
          exact List.mem_append_right _ (List.mem_map_of_mem hname)
        exact single_of_normal hmem
      · rw [push_absolute habsolute]
        exact hnames
  | false =>
      rw [resolve_relative habsolute] at h
      obtain ⟨names, hnames, rfl⟩ := Option.map_eq_some_iff.1 h
      have hempty : AllSingle [] := fun _ hname => absurd hname List.not_mem_nil
      refine ⟨names, rfl, ?_, components_lexicalNormalize_push hroot habsolute hnames⟩
      exact normalizeAnchoredRelative_names hempty (relative_components habsolute) hnames

/-- A path argument stays below the root: what it resolves to is made of names, and joined
with the root it is what the joined argument normalizes to.  A relative argument fails
exactly where a prefix of it has more `..` than names, an absolute one exactly where it
does not normalize to the root or below it. -/
theorem resolveRelativeArgument_below {root : OsStr} (hroot : NormalRoot root) (raw : List Char) :
    (∀ path, resolveRelativeArgument root none raw = some path →
      (∃ names : List OsStr, components path = names.map .Normal) ∧
        components (push root path) =
          components (lexicalNormalize (push root (Utf8.encode raw)))) ∧
      (isAbsolute (Utf8.encode raw) = false →
        (resolveRelativeArgument root none raw = none ↔
          ∃ front, front <+: components (Utf8.encode raw) ∧
            front.countP isNormal < front.count .ParentDir)) ∧
      (isAbsolute (Utf8.encode raw) = true →
        (resolveRelativeArgument root none raw = none ↔
          ¬Below root (lexicalNormalize (Utf8.encode raw)))) := by
  refine ⟨?_, ?_, ?_⟩
  · intro path hpath
    obtain ⟨names, rfl, hnames, hnormal⟩ := resolve_names hroot hpath
    refine ⟨⟨names, components_collect hnames.map⟩, ?_⟩
    rw [hnormal]
    exact components_push_names hroot.ne_nil hnames
  · intro hrelative
    have hnone := @normalizeAnchoredRelative_none [] _ (relative_components hrelative)
    rw [resolve_relative hrelative, Option.map_eq_none_iff, hnone]
    unfold Escapes
    simp only [List.length_nil, Nat.zero_add]
  · intro habsolute
    rw [resolve_absolute habsolute]
    exact stripPrefixLexical_eq_none

/-- Below `/w`, the argument `a/../b` is `b`. -/
theorem resolveRelativeArgument_below_sibling :
    components (push [0x2F, 0x77] [0x62]) =
      components (lexicalNormalize (push [0x2F, 0x77] (Utf8.encode "a/../b".toList))) :=
  ((resolveRelativeArgument_below ⟨[[0x77]], by decide⟩ "a/../b".toList).1 [0x62] (by decide)).2

end MCode.Files
