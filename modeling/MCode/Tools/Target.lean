import MCode.Tools.IgnoreRules
import MCode.Tools.WalkOrder

/-!
# The root of a search and its ignore rules

The root of a search is the session's directory or what an explicit path below
it names.  The ignore files are loaded on the way there, so the stacks of the
root are those of its directory, and the walk below it goes on with them.  Every
place the walk comes to is decided by the rules of the directories above it.
-/

namespace MCode.Tools

open MCode.Lib
open MCode.Lib.BestFirst (Forest)

variable {Builder Gitignore : Type} (crate : IgnoreCrate Builder Gitignore)

/-! ## Resolving -/

def openFinalTarget (parent : Handle) (name : Name) (walked : RelPath)
    (ignores : IgnoreStack Gitignore) (hidden : Bool) :
    Except IoError (ResolvedRoot Gitignore) := do
  let target ← openChildFile parent name none
  let hidden := hidden || nameIsHidden name
  let targetRelative := walked ++ [name]
  match target with
  | .File content => .ok ⟨.File content, targetRelative, ignores, hidden⟩
  | .Directory dir =>
      let ignores ← ingest crate ignores dir targetRelative
      .ok ⟨.Directory dir, targetRelative, ignores, hidden⟩

/-- The components of the path, one after the other. -/
def openComponents : Handle → RelPath → IgnoreStack Gitignore → Bool → RelPath →
    Except IoError (ResolvedRoot Gitignore)
  | _, _, _, _, [] => .error
      ⟨.InvalidInput, "empty relative path cannot be opened as a walked entry"⟩
  | parent, walked, ignores, hidden, [name] =>
      openFinalTarget crate parent name walked ignores hidden
  | parent, walked, ignores, hidden, name :: next :: rest => do
      let child ← openChildDirectory parent name
      let walked := walked ++ [name]
      let ignores ← ingest crate ignores child walked
      openComponents child walked ignores (hidden || nameIsHidden name) (next :: rest)

def openTargetWithIgnores (allowed : Handle) (relative : RelPath) :
    Except IoError (ResolvedRoot Gitignore) := do
  let ignores ← seedGitBoundary crate .default allowed
  let ignores ← ingest crate ignores allowed []
  if relative.isEmpty then .ok ⟨.Directory allowed, [], ignores, false⟩
  else openComponents crate allowed [] ignores false relative

theorem openFinalTarget_ok {parent : Handle} {name : Name} {walked : RelPath}
    {ignores : IgnoreStack Gitignore} {hidden : Bool} {root : ResolvedRoot Gitignore}
    (h : openFinalTarget crate parent name walked ignores hidden = .ok root) :
    (∃ content, openChildFile parent name none = .ok (.File content) ∧
      root = ⟨.File content, walked ++ [name], ignores, hidden || nameIsHidden name⟩) ∨
    ∃ dir inner, openChildDirectory parent name = .ok dir ∧
      ingest crate ignores dir (walked ++ [name]) = .ok inner ∧
      root = ⟨.Directory dir, walked ++ [name], inner, hidden || nameIsHidden name⟩ := by
  obtain ⟨target, htarget, h⟩ := Results.bind_ok.1 h
  cases target with
  | File content => exact Or.inl ⟨content, htarget, (Except.ok.inj h).symm⟩
  | Directory dir =>
      obtain ⟨inner, hinner, h⟩ := Results.bind_ok.1 h
      exact Or.inr ⟨dir, inner, openChildDirectory_ok.2 (openChildFile_directory_inv htarget),
        hinner, (Except.ok.inj h).symm⟩

/-- The stacks on the way to a root are those of its directory. -/
theorem openComponents_ruled {parent : Handle} {walked relative : RelPath}
    {ignores : IgnoreStack Gitignore} {hidden : Bool} {root : ResolvedRoot Gitignore}
    (hruled : Ruled crate parent walked ignores)
    (h : openComponents crate parent walked ignores hidden relative = .ok root) {dir : Handle}
    (hdir : root.target = .Directory dir) :
    Ruled crate dir root.targetRelative root.ignores := by
  induction relative generalizing parent walked ignores hidden with
  | nil => cases h
  | cons name rest ih =>
      cases rest with
      | nil =>
          rcases openFinalTarget_ok crate h with ⟨content, -, rfl⟩ | ⟨other, inner, hopen, hin, rfl⟩
          · cases hdir
          · injection hdir with hdir
            subst hdir
            exact hruled.step crate hopen hin
      | cons next rest =>
          obtain ⟨child, hopen, h⟩ := Results.bind_ok.1 h
          obtain ⟨inner, hinner, h⟩ := Results.bind_ok.1 h
          exact ih (hruled.step crate hopen hinner) h

theorem openTarget_ruled {cwd : Handle} {relative : RelPath} {root : ResolvedRoot Gitignore}
    (h : openTargetWithIgnores crate cwd relative = .ok root) {dir : Handle}
    (hdir : root.target = .Directory dir) :
    Ruled crate dir root.targetRelative root.ignores := by
  obtain ⟨seeded, hseeded, h⟩ := Results.bind_ok.1 h
  obtain ⟨ignores, hignores, h⟩ := Results.bind_ok.1 h
  have hstart := Ruled.start crate hseeded hignores
  by_cases hempty : relative.isEmpty = true
  · rw [if_pos hempty] at h
    injection h with h
    subst h
    injection hdir with hdir
    exact hdir ▸ hstart
  · rw [if_neg hempty] at h
    exact openComponents_ruled crate hstart h hdir

/-! ## The places of a walk -/

/-- The walk from the root comes to the place. -/
def ResolvedRoot.Reaches (root : ResolvedRoot Gitignore) (place : Place Gitignore) : Prop :=
  ∃ dir, root.target = .Directory dir ∧ ∃ first ∈ places (frameOf dir [] root.ignores),
    (walkForest crate root.targetRelative).Over first place

theorem of_mem_places {frame : WalkFrame Gitignore} {place : Place Gitignore}
    (h : place ∈ places frame) :
    place.dir = frame.dir ∧ place.rel = frame.rel ∧ place.ignores = frame.ignores := by
  obtain ⟨entry, -, rfl⟩ := List.mem_map.1 h
  exact ⟨rfl, rfl, rfl⟩

/-- Every place is decided with the stacks of its directory. -/
theorem ResolvedRoot.Reaches.ruled {cwd : Handle} {relative : RelPath}
    {root : ResolvedRoot Gitignore} (hroot : openTargetWithIgnores crate cwd relative = .ok root)
    {place : Place Gitignore} (h : root.Reaches crate place) :
    Ruled crate place.dir (root.targetRelative ++ place.rel) place.ignores := by
  obtain ⟨dir, hdir, first, hfirst, hover⟩ := h
  induction hover with
  | refl =>
      obtain ⟨hplaceDir, hrel, hignores⟩ := of_mem_places hfirst
      have hruled := openTarget_ruled crate hroot hdir
      rw [hplaceDir, hrel, hignores]
      show Ruled crate dir (root.targetRelative ++ []) root.ignores
      rwa [List.append_nil]
  | tail _ hchild ih =>
      obtain ⟨-, child, inner, hopen, hingest, hin⟩ := children_of_visited crate hchild
      obtain ⟨hplaceDir, hrel, hignores⟩ := of_mem_places hin
      rw [hplaceDir, hrel, hignores]
      rw [Place.path, ← List.append_assoc] at hingest
      have hruled := ih.step crate hopen hingest
      rw [List.append_assoc] at hruled
      exact hruled

/-- The exclude file of a repository rooted below the session's directory has no say on the path,
or ignores it from the session's directory as it does from the root of the repository. -/
def ExcludeAgrees (rel : RelPath) (dir : Handle) (path : RelPath) (isDir : Bool) : Prop :=
  ∀ root inner rules, (repository (scopes dir path)).getLast? = some (root, inner) →
    inner.length < (rel ++ path).length → excludeRules crate root = some rules →
    (verdicts crate dotIgnore isDir ((scopes dir path).take (rel.length + 1))).or
        (verdicts crate dotGitignore isDir (repository (scopes dir path))) = .None →
    ((crate.matched rules (rel ++ path) isDir).isIgnore = true ↔
      (crate.matched rules inner isDir).isIgnore = true)

theorem Match.or_isIgnore_congr {front first second : Match} :
    (front.or first).isIgnore = (front.or second).isIgnore ↔
      (front = .None → (first.isIgnore = true ↔ second.isIgnore = true)) := by
  cases front with
  | None =>
      rw [Match.none_or, Match.none_or, Bool.eq_iff_iff]
      simp
  | Ignore => simp [Match.or]
  | Whitelist => simp [Match.or]

/-- The verdict of the stacks of a directory is the one of the rules around it if and only if the
exclude file of its repository agrees. -/
theorem Ruled.isIgnored_iff {dir : Handle} {rel : RelPath} {stack : IgnoreStack Gitignore}
    (h : Ruled crate dir rel stack) (path : RelPath) (isDir : Bool) :
    (stack.isIgnored crate [] (rel ++ path) isDir =
        (reference crate rel.length dir path isDir).isIgnore) ↔
      ExcludeAgrees crate rel dir path isDir := by
  rw [IgnoreStack.isIgnored, joinRel_eq, List.nil_append, h.ignore, h.gitignore, h.exclude,
    reference, Match.or_isIgnore_congr, excludeAsked, ExcludeAgrees]
  cases hlast : (repository (scopes dir path)).getLast? with
  | none => simp
  | some scope =>
      obtain ⟨root, inner⟩ := scope
      dsimp only
      constructor
      · intro hall other path' rules hsame hbelow hrules hnone
        injection hsame with hsame
        obtain ⟨rfl, rfl⟩ := Prod.mk.inj hsame
        have hagrees := hall hnone
        rw [if_pos hbelow, hrules] at hagrees
        exact hagrees
      · intro hall hnone
        by_cases hbelow : inner.length < (rel ++ path).length
        · rw [if_pos hbelow]
          cases hrules : excludeRules crate root with
          | none => exact Iff.rfl
          | some rules => exact hall root inner rules rfl hbelow hrules hnone
        · rw [if_neg hbelow]

/-- The walk's verdict on a place is the one of the rules around it if and only if the exclude
file of the repository it is in agrees. -/
theorem place_isIgnored_iff {cwd : Handle} {relative : RelPath} {root : ResolvedRoot Gitignore}
    (hroot : openTargetWithIgnores crate cwd relative = .ok root) {place : Place Gitignore}
    (hplace : root.Reaches crate place) (isDir : Bool) :
    (place.ignores.isIgnored crate root.targetRelative place.path isDir =
        (reference crate (root.targetRelative ++ place.rel).length place.dir [place.entry.name]
          isDir).isIgnore) ↔
      ExcludeAgrees crate (root.targetRelative ++ place.rel) place.dir [place.entry.name] isDir := by
  have hsame : place.ignores.isIgnored crate root.targetRelative place.path isDir =
      place.ignores.isIgnored crate [] (root.targetRelative ++ place.rel ++ [place.entry.name])
        isDir := by
    rw [IgnoreStack.isIgnored, IgnoreStack.isIgnored, joinRel_eq, joinRel_eq, List.nil_append,
      Place.path, List.append_assoc]
  rw [hsame]
  exact (ResolvedRoot.Reaches.ruled crate hroot hplace).isIgnored_iff crate _ isDir

/-! ## A repository below the session's directory -/

/-- Rules that are the whole path behind a `/`. -/
def anchoredRules : IgnoreCrate (List (List Char)) (List (List Char)) where
  new := []
  addLine := fun builder line => .ok (builder ++ [line])
  build := .ok
  isEmpty := List.isEmpty
  matched := fun rules path _ => if rules.contains ('/' :: toPosix path) then .Ignore else .None

/-- The git directory of a repository whose exclude file has the rule `/b`. -/
def excludingGit : Node :=
  .Directory [(infoName, true, .Directory [(excludeName, true, .File [0x2F, 0x62])])]

theorem excludingGit_distinct : excludingGit.Distinct := by
  refine .Directory (by decide) (List.forall_mem_singleton.2 ?_)
  exact .Directory (by decide) (List.forall_mem_singleton.2 (.File _))

def repositoryEntries : List Entry :=
  [(dotGit, true, excludingGit), (nameB, true, .File [])]

/-- A directory with the repository `a` in it, which excludes its file `b`. -/
def nestedDir : Handle where
  entries := [(nameA, true, .Directory repositoryEntries)]
  above := []
  linked := by
    refine .Directory (by decide) (List.forall_mem_singleton.2 ?_)
    refine .Directory (by decide) (List.forall_mem_cons.2 ⟨excludingGit_distinct, ?_⟩)
    exact List.forall_mem_singleton.2 (.File _)

def nestedRoot : ResolvedRoot (List (List Char)) :=
  ⟨.Directory nestedDir, [], .default, false⟩

/-- The stacks in the repository. -/
def nestedStack : IgnoreStack (List (List Char)) :=
  ⟨true, [], [⟨[], [], .GitExclude, [['/', 'b']]⟩]⟩

def repositoryDir : Handle := nestedDir.descend nameA repositoryEntries rfl

def repositoryPlace : Place (List (List Char)) :=
  placeAt (frameOf nestedDir [] .default) (nextPlatform (nameA, true, .Directory repositoryEntries))

/-- The file `b` of the repository. -/
def excludedPlace : Place (List (List Char)) :=
  placeAt (frameOf repositoryDir [nameA] nestedStack) (nextPlatform (nameB, true, .File []))

theorem nestedRoot_opened : openTargetWithIgnores anchoredRules nestedDir [] = .ok nestedRoot := rfl

theorem repositoryDir_opened : openChildDirectory nestedDir nameA = .ok repositoryDir :=
  openChildDirectory_found rfl

theorem excludedPlace_reached : nestedRoot.Reaches anchoredRules excludedPlace := by
  have hlisted : (nameA, true, Node.Directory repositoryEntries) ∈ nestedDir.entries :=
    List.mem_singleton_self _
  have hlistedFile : (nameB, true, Node.File []) ∈ repositoryDir.entries :=
    List.mem_cons_of_mem _ (List.mem_singleton_self _)
  have hfirst : repositoryPlace ∈ places (frameOf nestedDir [] .default) :=
    mem_places_frameOf.2 ⟨_, hlisted, by decide, rfl⟩
  have hfile : excludedPlace ∈ places (frameOf repositoryDir [nameA] nestedStack) :=
    mem_places_frameOf.2 ⟨_, hlistedFile, by decide, rfl⟩
  have hchild : excludedPlace ∈ repositoryPlace.children anchoredRules [] :=
    mem_children anchoredRules rfl repositoryDir_opened rfl hfile
  refine ⟨nestedDir, rfl, repositoryPlace, hfirst, Forest.over_iff.2 (Or.inr ?_)⟩
  exact ⟨excludedPlace, hchild, Relation.ReflTransGen.refl⟩

theorem excludedPlace_isIgnored_iff :
    (excludedPlace.ignores.isIgnored anchoredRules [] [nameA, nameB] false =
        (reference anchoredRules 1 repositoryDir [nameB] false).isIgnore) ↔
      ExcludeAgrees anchoredRules [nameA] repositoryDir [nameB] false :=
  place_isIgnored_iff anchoredRules nestedRoot_opened excludedPlace_reached false

/-- The rule `/b` of the repository does not keep the walk from the file `b` at its root. -/
theorem place_not_ignored_as_referred :
    ∃ root place, openTargetWithIgnores anchoredRules nestedDir [] = .ok root ∧
      root.Reaches anchoredRules place ∧
      place.ignores.isIgnored anchoredRules root.targetRelative place.path false = false ∧
      (reference anchoredRules (root.targetRelative ++ place.rel).length place.dir
        [place.entry.name] false).isIgnore = true :=
  ⟨nestedRoot, excludedPlace, nestedRoot_opened, excludedPlace_reached, rfl, rfl⟩

end MCode.Tools
