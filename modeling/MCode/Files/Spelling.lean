import MCode.Files.Prepare

/-!
# What decides whether a file can be bound

The proof of a spelling looks at every entry of every directory on the way
through `meta_from_stat`, which was written for the target of an open: it
refuses a link, a FIFO, a socket or a device.  So a file can be bound exactly
when its path is not too deep and the directories on the way list nothing but
regular files and directories.
-/

namespace MCode.Files

open MCode.Lib MCode.Tools

variable {rule : NameRule}

/-! ## The tree -/

/-- The names of a directory differ for the system. -/
inductive Node.Sound (rule : NameRule) : Node → Prop
  | node {stat : Stat} {entries : List (Name × Node)}
      (names : entries.Pairwise fun entry other =>
        rule.same entry.1 other.1 = false ∧ rule.same other.1 entry.1 = false)
      (nodes : ∀ entry ∈ entries, Node.Sound rule entry.2) : Node.Sound rule (.node stat entries)

theorem Node.Sound.names {parent : Node} (h : parent.Sound rule) :
    parent.entries.Pairwise fun entry other =>
      rule.same entry.1 other.1 = false ∧ rule.same other.1 entry.1 = false := by
  cases h with
  | node names _ => exact names

theorem Node.Sound.nodes {parent : Node} (h : parent.Sound rule) :
    ∀ entry ∈ parent.entries, entry.2.Sound rule := by
  cases h with
  | node _ nodes => exact nodes

/-- What the component names in the directory: its spelling there and the node. -/
def Names (rule : NameRule) (parent : Node) (component : OsStr) (entry : Name × Node) : Prop :=
  ∃ name, validateComponentName component = .ok name ∧ rule.lookup parent name = some entry

/-- The entry is the only one of its directory with its identity, on the device
of the directory, which is not too wide. -/
structure Sole (parent : Node) (entry : Name × Node) : Prop where
  device : entry.2.stat.identity.device = parent.stat.identity.device
  unique : ∀ other ∈ parent.entries, other.2.stat.identity = entry.2.stat.identity →
    other = entry
  width : parent.entries.length ≤ MAX_DIR_WIDTH

/-- The components lead from a directory through directories to a regular file,
with these spellings and through these parents. -/
inductive Leads (rule : NameRule) : Node → List OsStr → List OsStr → List Node → Prop
  | file {parent : Node} {component : OsStr} {entry : Name × Node}
      (hnames : Names rule parent component entry) (hsole : Sole parent entry)
      (htype : entry.2.stat.fileType = .RegularFile) :
      Leads rule parent [component] [entry.1.bytes] [parent]
  | directory {parent : Node} {component : OsStr} {entry : Name × Node}
      {components spellings : List OsStr} {parents : List Node}
      (hnames : Names rule parent component entry) (hsole : Sole parent entry)
      (htype : entry.2.stat.fileType = .Directory)
      (hbelow : Leads rule entry.2 components spellings parents) :
      Leads rule parent (component :: components) (entry.1.bytes :: spellings)
        (parent :: parents)

/-- The directory lists nothing but regular files and directories. -/
def Plain (parent : Node) : Prop :=
  ∀ entry ∈ parent.entries,
    entry.2.stat.fileType = .RegularFile ∨ entry.2.stat.fileType = .Directory

/-! ## One directory -/

theorem metaFromStat_ok {stat : Stat} {fileMeta : FileMeta}
    (h : metaFromStat stat = .ok fileMeta) :
    (stat.fileType = .RegularFile ∨ stat.fileType = .Directory) ∧
      fileMeta.identity = stat.identity := by
  unfold metaFromStat at h
  split at h <;> cases h
  · rename_i htype
    exact ⟨Or.inl htype, rfl⟩
  · rename_i htype
    exact ⟨Or.inr htype, rfl⟩

theorem metaFromStat_plain {stat : Stat}
    (h : stat.fileType = .RegularFile ∨ stat.fileType = .Directory) :
    ∃ fileMeta, metaFromStat stat = .ok fileMeta ∧ fileMeta.identity = stat.identity := by
  cases h with
  | inl h => exact ⟨stat.meta .File, by simp [metaFromStat, h], rfl⟩
  | inr h => exact ⟨stat.meta .Directory, by simp [metaFromStat, h], rfl⟩

/-- The own name of an entry leads to it. -/
theorem lookup_own {entries : List (Name × Node)}
    (h : entries.Pairwise fun entry other =>
      rule.same entry.1 other.1 = false ∧ rule.same other.1 entry.1 = false)
    {entry : Name × Node} (hmem : entry ∈ entries) :
    entries.find? (fun other => rule.same entry.1 other.1) = some entry := by
  induction entries with
  | nil => exact absurd hmem (by simp)
  | cons first entries ih =>
      rw [List.pairwise_cons] at h
      cases List.mem_cons.1 hmem with
      | inl hfirst =>
          rw [hfirst, List.find?_cons_of_pos]
          exact rule.refl first.1
      | inr hrest =>
          rw [List.find?_cons_of_neg]
          · exact ih h.2 hrest
          · rw [(h.1 entry hrest).2]
            exact Bool.false_ne_true

theorem statat_own {parent : Node} (h : parent.Sound rule) {entry : Name × Node}
    (hmem : entry ∈ parent.entries) : rule.statat parent entry.1 = some entry.2.stat := by
  rw [NameRule.statat, NameRule.lookup, lookup_own h.names hmem]
  rfl

/-- The loop ends well only behind entries that `meta_from_stat` lets through. -/
theorem uniqueLoop_plain {parent : Node} (h : parent.Sound rule) {want : FileIdentity}
    {entries : List (Name × Node)} (hentries : entries ⊆ parent.entries) {found : Option Name}
    {scanned : Nat} {name : Name}
    (hok : uniqueLoop rule false parent want (entries.map fun entry => .Entry entry.1) found
      scanned = .ok name) :
    ∀ entry ∈ entries,
      entry.2.stat.fileType = .RegularFile ∨ entry.2.stat.fileType = .Directory := by
  induction entries generalizing found scanned with
  | nil => exact fun _ hmem => absurd hmem (by simp)
  | cons first entries ih =>
      have hfirst := statat_own h (hentries (List.mem_cons_self ..))
      rw [List.map_cons, uniqueLoop] at hok
      dsimp only [checkCancel] at hok
      by_cases hwide : MAX_DIR_WIDTH < scanned + 1
      · simp [hwide, bind, Except.bind] at hok
      · cases hmeta : metaFromStat first.2.stat with
        | error error => simp [hwide, hfirst, hmeta, bind, Except.bind] at hok
        | ok fileMeta =>
            have hrest : ∃ found, uniqueLoop rule false parent want
                (entries.map fun entry => .Entry entry.1) found (scanned + 1) = .ok name := by
              simp only [hwide, hfirst, hmeta, bind, Except.bind, if_false, Bool.false_eq_true]
                at hok
              split at hok
              · split at hok
                · exact absurd hok (by simp)
                · exact ⟨_, hok⟩
              · exact ⟨_, hok⟩
            obtain ⟨found, hrest⟩ := hrest
            intro entry hmem
            cases List.mem_cons.1 hmem with
            | inl hentry => exact hentry ▸ (metaFromStat_ok hmeta).1
            | inr hentry =>
                exact ih (fun _ hin => hentries (List.mem_cons_of_mem _ hin)) hrest entry hentry

/-- Behind entries of another identity the loop goes on as before. -/
theorem uniqueLoop_others {parent : Node} (h : parent.Sound rule) {want : FileIdentity}
    {entries : List (Name × Node)} (hentries : entries ⊆ parent.entries)
    (hplain : ∀ entry ∈ entries,
      entry.2.stat.fileType = .RegularFile ∨ entry.2.stat.fileType = .Directory)
    (hother : ∀ entry ∈ entries, entry.2.stat.identity ≠ want) (rest : List Listed)
    (found : Option Name) (scanned : Nat) (hwidth : scanned + entries.length ≤ MAX_DIR_WIDTH) :
    uniqueLoop rule false parent want ((entries.map fun entry => .Entry entry.1) ++ rest) found
        scanned =
      uniqueLoop rule false parent want rest found (scanned + entries.length) := by
  induction entries generalizing scanned with
  | nil => rfl
  | cons first entries ih =>
      rw [List.length_cons] at hwidth
      obtain ⟨fileMeta, hmeta, hidentity⟩ :=
        metaFromStat_plain (hplain first (List.mem_cons_self ..))
      have hne : fileMeta.identity ≠ want := by
        rw [hidentity]
        exact hother first (List.mem_cons_self ..)
      have hwide : ¬ MAX_DIR_WIDTH < scanned + 1 := by omega
      rw [List.map_cons, List.cons_append, uniqueLoop]
      simp only [checkCancel, hwide, statat_own h (hentries (List.mem_cons_self ..)), hmeta, hne,
        bind, Except.bind, if_false, Bool.false_eq_true]
      rw [ih (fun _ hin => hentries (List.mem_cons_of_mem _ hin))
        (fun entry hin => hplain entry (List.mem_cons_of_mem _ hin))
        (fun entry hin => hother entry (List.mem_cons_of_mem _ hin)) _ (by omega),
        List.length_cons, Nat.add_assoc, Nat.add_comm 1]

theorem uniqueComponentName_plain {parent : Node} (h : parent.Sound rule)
    {want : FileIdentity} {name : Name}
    (hok : uniqueComponentName rule false parent want = .ok name) : Plain parent := by
  rw [uniqueComponentName, readFrom, uniqueLoop, uniqueLoop] at hok
  exact uniqueLoop_plain h (List.Subset.refl _) hok

/-- In a plain directory the spelling of the sole entry is proved. -/
theorem uniqueComponentName_sole {parent : Node} (h : parent.Sound rule) {entry : Name × Node}
    (hmem : entry ∈ parent.entries) (hsole : Sole parent entry) (hplain : Plain parent) :
    uniqueComponentName rule false parent entry.2.stat.identity = .ok entry.1 := by
  obtain ⟨front, back, hsplit⟩ := List.append_of_mem hmem
  have hnames := h.names
  have hwidth := hsole.width
  rw [hsplit] at hnames
  rw [hsplit, List.length_append, List.length_cons] at hwidth
  have hfront : front ⊆ parent.entries := by
    rw [hsplit]
    exact List.subset_append_left _ _
  have hback : back ⊆ parent.entries := by
    rw [hsplit]
    exact fun _ hin => List.mem_append_right _ (List.mem_cons_of_mem _ hin)
  have hself : rule.same entry.1 entry.1 ≠ false := by simp [rule.refl]
  rw [List.pairwise_append] at hnames
  obtain ⟨-, hcons, hcross⟩ := hnames
  rw [List.pairwise_cons] at hcons
  have hotherFront : ∀ other ∈ front, other.2.stat.identity ≠ entry.2.stat.identity := by
    intro other hin hsame
    have heq := hsole.unique other (hfront hin) hsame
    rw [heq] at hin
    exact hself (hcross entry hin entry (List.mem_cons_self ..)).1
  have hotherBack : ∀ other ∈ back, other.2.stat.identity ≠ entry.2.stat.identity := by
    intro other hin hsame
    have heq := hsole.unique other (hback hin) hsame
    rw [heq] at hin
    exact hself (hcons.1 entry hin).1
  obtain ⟨fileMeta, hmeta, hidentity⟩ := metaFromStat_plain (hplain entry hmem)
  have hwide : ¬ MAX_DIR_WIDTH < 0 + front.length + 1 := by omega
  rw [uniqueComponentName, readFrom, uniqueLoop, uniqueLoop, hsplit, List.map_append,
    List.map_cons]
  show uniqueLoop rule false parent _ _ none 0 = _
  rw [uniqueLoop_others h hfront (fun other hin => hplain other (hfront hin)) hotherFront _ _
    _ (by omega), uniqueLoop]
  simp only [checkCancel, hwide, statat_own h hmem, hmeta, hidentity, bind, Except.bind, if_true,
    if_false, Option.isSome_none, Bool.false_eq_true]
  have hrest := uniqueLoop_others h hback (fun other hin => hplain other (hback hin)) hotherBack []
    (some entry.1) (0 + front.length + 1) (by omega)
  rw [List.append_nil] at hrest
  rw [hrest]
  rfl

/-! ## The walk -/

theorem openChild_names {parent : Node} {component : OsStr} {entry : Name × Node}
    (hnames : Names rule parent component entry) (hsole : Sole parent entry) (how : ChildOpen)
    (kind : FileKind)
    (htype : metaFromStat entry.2.stat = .ok (entry.2.stat.meta kind))
    (hhow : how = .Probe ∨ how = .Directory ∧ kind = .Directory) :
    openChild rule parent component how = .ok ⟨entry.2, entry.2.stat.meta kind⟩ := by
  obtain ⟨name, hvalid, hlookup⟩ := hnames
  have hdevice : parent.stat.identity.device = (entry.2.stat.meta kind).identity.device :=
    hsole.device.symm
  have hdirectory : ¬ (how = .Directory ∧ (entry.2.stat.meta kind).kind ≠ .Directory) := by
    intro hnot
    cases hhow with
    | inl hprobe =>
        rw [hprobe] at hnot
        exact absurd hnot.1 (by simp)
    | inr hdir => exact hnot.2 hdir.2
  have hfile : ¬ (how = .ExistingFile ∧ (entry.2.stat.meta kind).kind ≠ .File) := by
    intro hnot
    cases hhow with
    | inl hprobe =>
        rw [hprobe] at hnot
        exact absurd hnot.1 (by simp)
    | inr hdir =>
        rw [hdir.1] at hnot
        exact absurd hnot.1 (by simp)
  simp only [openChild, hvalid, hlookup, htype, bind, Except.bind]
  rw [if_neg (not_not.2 hdevice), if_neg hdirectory, if_neg hfile]

theorem Names.mem {parent : Node} {component : OsStr} {entry : Name × Node}
    (h : Names rule parent component entry) : entry ∈ parent.entries := by
  obtain ⟨name, _, hlookup⟩ := h
  exact List.mem_of_find?_eq_some hlookup

/-- The walk binds the file, under its spelling on disk, exactly when every
directory on the way is plain. -/
theorem walkPrepare_iff (raw : String) (access : FileAccess) {parent : Node}
    {components spellings : List OsStr} {parents : List Node} (hsound : parent.Sound rule)
    (h : Leads rule parent components spellings parents) (proven : List OsStr) :
    (∃ prepared, walkPrepare rule raw false access parent proven components = .ok prepared ∧
      prepared.key = posixRelativeKey (proven ++ spellings)) ↔
    ∀ directory ∈ parents, Plain directory := by
  induction h generalizing proven with
  | @file parent component entry hnames hsole htype =>
      have hopen := openChild_names hnames hsole .Probe .File
        (by simp [metaFromStat, htype]) (Or.inl rfl)
      obtain ⟨name, hvalid, _⟩ := id hnames
      have hwalk : walkPrepare rule raw false access parent proven [component] =
          (do
            let exact ← (uniqueComponentName rule false parent
              entry.2.stat.identity).mapError (mapOpenError raw)
            let key := posixRelativeKey (proven ++ [exact.bytes])
            .ok ⟨key, access, .Existing parent entry.2 exact (entry.2.stat.meta .File) key⟩) := by
        rw [walkPrepare]
        simp only [checkCancel, hvalid, List.isEmpty_nil, if_true, hopen, Except.mapError, bind,
          Except.bind, Bool.false_eq_true, if_false]
        rfl
      rw [hwalk]
      constructor
      · rintro ⟨prepared, hok, _⟩ directory hin
        obtain rfl : directory = parent := by simpa using hin
        cases hunique : uniqueComponentName rule false directory entry.2.stat.identity with
        | error error => simp [hunique, Except.mapError, bind, Except.bind] at hok
        | ok exact => exact uniqueComponentName_plain hsound hunique
      · intro hplain
        rw [uniqueComponentName_sole hsound hnames.mem hsole
          (hplain parent (List.mem_cons_self ..))]
        exact ⟨_, rfl, rfl⟩
  | @directory parent component entry components spellings parents hnames hsole htype hbelow ih =>
      have hopen := openChild_names hnames hsole .Directory .Directory
        (by simp [metaFromStat, htype]) (Or.inr ⟨rfl, rfl⟩)
      obtain ⟨name, hvalid, _⟩ := id hnames
      have hmore : components.isEmpty = false := by
        cases hbelow <;> rfl
      have hwalk : walkPrepare rule raw false access parent proven (component :: components) =
          (do
            let exact ← (uniqueComponentName rule false parent
              entry.2.stat.identity).mapError (mapOpenError raw)
            walkPrepare rule raw false access entry.2 (proven ++ [exact.bytes]) components) := by
        rw [walkPrepare]
        simp only [checkCancel, hvalid, hmore, hopen, Except.mapError, bind, Except.bind,
          Bool.false_eq_true, if_false]
        rfl
      have hbelowSound := hsound.nodes entry hnames.mem
      rw [hwalk]
      constructor
      · rintro ⟨prepared, hok, hkey⟩
        cases hunique : uniqueComponentName rule false parent entry.2.stat.identity with
        | error error => simp [hunique, Except.mapError, bind, Except.bind] at hok
        | ok exact =>
            have hplain := uniqueComponentName_plain hsound hunique
            rw [uniqueComponentName_sole hsound hnames.mem hsole hplain] at hok
            have hrest := (ih hbelowSound (proven ++ [entry.1.bytes])).1
              ⟨prepared, hok, by rw [List.append_assoc]; exact hkey⟩
            intro directory hin
            cases List.mem_cons.1 hin with
            | inl hfirst => exact hfirst ▸ hplain
            | inr hin => exact hrest directory hin
      · intro hplain
        rw [uniqueComponentName_sole hsound hnames.mem hsole
          (hplain parent (List.mem_cons_self ..))]
        obtain ⟨prepared, hok, hkey⟩ := (ih hbelowSound (proven ++ [entry.1.bytes])).2
          fun directory hin => hplain directory (List.mem_cons_of_mem _ hin)
        exact ⟨prepared, hok, by rw [hkey, List.append_assoc]; rfl⟩

/-- A regular file that is the only entry with its identity, behind directories
that are, can be bound exactly when its path has at most `MAX_WALK_DEPTH`
components and no directory on the way lists a link, a FIFO, a socket, a device
or an entry of unknown type. -/
theorem prepareFile_iff {cwd : Node} {path : List Component} {raw : String}
    {access : FileAccess} {components spellings : List OsStr} {parents : List Node}
    (hsound : cwd.Sound rule) (hcwd : cwd.stat.fileType = .Directory)
    (hpath : normalizeAnchoredRelative [] path = some components)
    (h : Leads rule cwd components spellings parents) :
    (∃ prepared, prepareFile rule cwd path raw false access = .ok prepared ∧
      prepared.key = posixRelativeKey spellings) ↔
    components.length ≤ MAX_WALK_DEPTH ∧ ∀ directory ∈ parents, Plain directory := by
  have hempty : components.isEmpty = false := by
    cases h <;> rfl
  have hroot : openAllowedRoot cwd = .ok cwd := by
    simp [openAllowedRoot, metaFromStat, hcwd, bind, Except.bind, Stat.meta]
  have hprepare : prepareFile rule cwd path raw false access =
      if MAX_WALK_DEPTH < components.length then
        .error (.InvalidArgs "path exceeds the maximum component depth")
      else walkPrepare rule raw false access cwd [] components := by
    simp only [prepareFile, checkCancel, hroot, hpath, hempty, Except.mapError, bind, Except.bind,
      Bool.false_eq_true, if_false]
  rw [hprepare]
  by_cases hdeep : MAX_WALK_DEPTH < components.length
  · rw [if_pos hdeep]
    constructor
    · rintro ⟨prepared, hok, _⟩
      exact absurd hok (by simp)
    · rintro ⟨hdepth, _⟩
      omega
  · rw [if_neg hdeep]
    have hwalk := walkPrepare_iff raw access hsound h []
    rw [List.nil_append] at hwalk
    rw [hwalk]
    exact ⟨fun hplain => ⟨by omega, hplain⟩, fun hboth => hboth.2⟩

/-! ## A file and a link beside it -/

def fileName : Name := ⟨[0x66], by decide, by decide, by decide⟩
def linkName : Name := ⟨[0x6C], by decide, by decide, by decide⟩

def nodeOf (fileType : FileType) (inode : Nat) (entries : List (Name × Node)) : Node :=
  .node ⟨fileType, ⟨1, inode⟩, 0, 0, 0, 1, 0, 0, 0⟩ entries

/-- A directory with one file. -/
def fileOnly : Node := nodeOf .Directory 1 [(fileName, nodeOf .RegularFile 2 [])]

/-- The same with a symbolic link beside the file. -/
def fileAndLink : Node :=
  nodeOf .Directory 1 [(fileName, nodeOf .RegularFile 2 []), (linkName, nodeOf .Symlink 3 [])]

theorem prepareFile_iff_fileOnly :
    ∃ prepared, prepareFile .exact fileOnly [.Normal [0x66]] "f" false .ExistingContent =
      .ok prepared ∧ prepared.key = posixRelativeKey [[0x66]] := by
  have hsound : fileOnly.Sound .exact :=
    .node (by simp) fun entry hin => by
      obtain rfl : entry = (fileName, nodeOf .RegularFile 2 []) := by simpa using hin
      exact .node (by simp) (by simp)
  have hnames : Names .exact fileOnly [0x66] (fileName, nodeOf .RegularFile 2 []) :=
    ⟨fileName, rfl, rfl⟩
  have hsole : Sole fileOnly (fileName, nodeOf .RegularFile 2 []) :=
    ⟨rfl, fun other hin _ => by simpa [fileOnly, nodeOf, Node.entries] using hin, by decide⟩
  refine (prepareFile_iff hsound rfl rfl (.file hnames hsole rfl)).2 ⟨by decide, ?_⟩
  intro directory hin entry hentry
  obtain rfl : directory = fileOnly := by simpa using hin
  obtain rfl : entry = (fileName, nodeOf .RegularFile 2 []) := by
    simpa [fileOnly, nodeOf, Node.entries] using hentry
  exact Or.inl rfl

/-- The file cannot be bound because of the link, although the path crosses none. -/
theorem sibling_link_refuses :
    (Names .exact fileAndLink [0x66] (fileName, nodeOf .RegularFile 2 [])) ∧
    Sole fileAndLink (fileName, nodeOf .RegularFile 2 []) ∧
    prepareFile .exact fileAndLink [.Normal [0x66]] "f" false .ExistingContent =
      .error (.InvalidArgs
        "path escapes the session cwd, crosses a link, or is not a regular file: f") := by
  refine ⟨⟨fileName, rfl, rfl⟩, ⟨rfl, fun other hin hsame => ?_, by decide⟩, rfl⟩
  have hcases : other = (fileName, nodeOf .RegularFile 2 []) ∨
      other = (linkName, nodeOf .Symlink 3 []) := by
    simpa [fileAndLink, nodeOf, Node.entries] using hin
  cases hcases with
  | inl hfile => exact hfile
  | inr hlink =>
      rw [hlink] at hsame
      exact absurd hsame (by decide)

end MCode.Files
