import MCode.Lib.Results
import MCode.Tools.Ignore

/-!
# The rules the ignore stacks stand for

An entry is looked at from each directory above it: the entry's path relative to
the directory, and the ignore files the directory has.  The verdict on the entry
is the first one of the `.ignore` files from its directory up to the session's,
then of the `.gitignore` files up to the root of the repository it is in, then of
the `info/exclude` file of this repository.

The stacks that are built on the way down give the same verdicts, with one
exception: the exclude file of a repository below the session's directory is
matched against the path relative to the session's directory, not to the root of
the repository.
-/

namespace MCode.Tools

open MCode.Lib

variable {Builder Gitignore : Type} (crate : IgnoreCrate Builder Gitignore)

/-! ## Verdicts in order -/

@[simp] theorem Match.none_or (verdict : Match) : Match.None.or verdict = verdict := rfl

@[simp] theorem Match.or_none (verdict : Match) : verdict.or .None = verdict := by
  cases verdict <;> rfl

theorem Match.or_assoc (first second third : Match) :
    (first.or second).or third = first.or (second.or third) := by
  cases first <;> rfl

/-- The rules of a text that may be missing; none where it has no rules or cannot be loaded. -/
def rulesOf : Except IoError (Option (List Char)) → Option Gitignore
  | .ok (some text) =>
      match compileRules crate text with
      | .ok rules => if crate.isEmpty rules then none else some rules
      | .error _ => none
  | _ => none

def fileRules (dir : Handle) (file : Name) : Option Gitignore :=
  rulesOf crate (readChildText dir file)

/-- The text of the `info/exclude` file of the repository with this root. -/
def excludeText (worktree : Handle) : Except IoError (Option (List Char)) := do
  match ← probeGitEntry worktree with
  | none => .ok none
  | some kind =>
      let gitDir ← gitDirOf worktree kind
      let common ← resolveCommonDir gitDir
      match openChildDirectory common infoName with
      | .error error => if isNotFound error then .ok none else .error error
      | .ok info => readChildText info excludeName

def excludeRules (worktree : Handle) : Option Gitignore :=
  rulesOf crate (excludeText worktree)

/-- What rules say about a path; rules that do not exist say nothing. -/
def verdict (rules : Option Gitignore) (path : RelPath) (isDir : Bool) : Match :=
  match rules with
  | some rules => crate.matched rules path isDir
  | none => .None

/-- A directory above an entry, and the path of the entry relative to it. -/
abbrev Scope := Handle × RelPath

/-- The first verdict of the files of this name. -/
def verdicts (file : Name) (isDir : Bool) : List Scope → Match
  | [] => .None
  | scope :: rest =>
      (verdict crate (fileRules crate scope.1 file) scope.2 isDir).or (verdicts file isDir rest)

theorem verdicts_append (file : Name) (isDir : Bool) (first second : List Scope) :
    verdicts crate file isDir (first ++ second) =
      (verdicts crate file isDir first).or (verdicts crate file isDir second) := by
  induction first with
  | nil => rfl
  | cons scope first ih => rw [List.cons_append, verdicts, verdicts, ih, Match.or_assoc]

/-! ## Scopes -/

def scopesFrom : (entries : List Entry) → (above : List (Name × List Entry)) →
    Linked entries above → RelPath → List Scope
  | entries, [], linked, path => [(⟨entries, [], linked⟩, path)]
  | entries, (name, parent) :: above, linked, path =>
      (⟨entries, (name, parent) :: above, linked⟩, path) ::
        scopesFrom parent above linked.2 (name :: path)

/-- The directories from the given one up to the root, for a path below the given one. -/
def scopes (dir : Handle) (path : RelPath) : List Scope :=
  scopesFrom dir.entries dir.above dir.linked path

theorem scopes_child {dir child : Handle} {name : Name}
    (h : openChildDirectory dir name = .ok child) (path : RelPath) :
    scopes child path = (child, path) :: scopes dir (name :: path) := by
  obtain ⟨entries, hfound, rfl⟩ := openChildDirectory_ok.1 h
  rfl

theorem scopes_cons (dir : Handle) (path : RelPath) :
    scopes dir path = (dir, path) :: (scopes dir path).tail := by
  obtain ⟨entries, above, linked⟩ := dir
  cases above <;> rfl

def hasGit (dir : Handle) : Bool :=
  match probeGitEntry dir with
  | .ok (some _) => true
  | _ => false

/-- The scopes up to the first with a `.git` entry; none if there is none. -/
def repository : List Scope → List Scope
  | [] => []
  | scope :: rest =>
      if hasGit scope.1 then [scope]
      else
        match repository rest with
        | [] => []
        | more => scope :: more

theorem repository_root {dir : Handle} (h : hasGit dir = true) (path : RelPath) :
    repository (scopes dir path) = [(dir, path)] := by
  rw [scopes_cons, repository, if_pos h]

theorem repository_append (front rest : List Scope)
    (h : ∀ scope ∈ front, hasGit scope.1 = false) :
    repository (front ++ rest) =
      if repository rest = [] then [] else front ++ repository rest := by
  induction front with
  | nil => by_cases hrest : repository rest = [] <;> simp [hrest]
  | cons scope front ih =>
      rw [List.cons_append, repository, if_neg (by simp [h scope List.mem_cons_self]),
        ih fun other hother => h other (List.mem_cons_of_mem _ hother)]
      by_cases hrest : repository rest = []
      · simp [hrest]
      · rw [if_neg hrest, if_neg hrest]
        cases happend : front ++ repository rest with
        | nil => exact absurd (List.append_eq_nil_iff.1 happend).2 hrest
        | cons first more => rw [List.cons_append, happend]

/-- The verdict on an entry of a directory that is `depth` directories below the session's. -/
def reference (depth : Nat) (dir : Handle) (path : RelPath) (isDir : Bool) : Match :=
  ((verdicts crate dotIgnore isDir ((scopes dir path).take (depth + 1))).or
    (verdicts crate dotGitignore isDir (repository (scopes dir path)))).or
      (match (repository (scopes dir path)).getLast? with
      | some (root, inner) => verdict crate (excludeRules crate root) inner isDir
      | none => .None)

/-! ## Layers -/

theorem layerMatch_append (kind : IgnoreFileKind) (path : RelPath) (isDir : Bool)
    (first second : List (IgnoreLayer Gitignore)) :
    layerMatch crate kind path isDir (first ++ second) =
      (layerMatch crate kind path isDir first).or (layerMatch crate kind path isDir second) := by
  induction first with
  | nil => rfl
  | cons layer first ih =>
      rw [List.cons_append, layerMatch, layerMatch]
      by_cases hkind : layer.kind = kind
      · rw [if_pos hkind, if_pos hkind]
        cases layer.suffix path with
        | none => exact ih
        | some suffix =>
            show (crate.matched layer.matcher suffix isDir).or _ = _
            rw [ih, Match.or_assoc]
      · rw [if_neg hkind, if_neg hkind]
        exact ih

/-- The layer of a file with rules. -/
def fileLayers (rules : Option Gitignore) (base above : RelPath) (kind : IgnoreFileKind) :
    List (IgnoreLayer Gitignore) :=
  rules.toList.map fun rules => ⟨base, above, kind, rules⟩

theorem layerMatch_fileLayers {rules : Option Gitignore} {base above path suffix : RelPath}
    {kind : IgnoreFileKind} {isDir : Bool}
    (h : ∀ rules : Gitignore, IgnoreLayer.suffix ⟨base, above, kind, rules⟩ path = some suffix) :
    layerMatch crate kind path isDir (fileLayers rules base above kind) =
      verdict crate rules suffix isDir := by
  cases rules with
  | none => rfl
  | some rules => simp [fileLayers, layerMatch, verdict, h]

theorem layerMatch_other {rules : Option Gitignore} {base above path : RelPath}
    {kind other : IgnoreFileKind} {isDir : Bool} (h : other ≠ kind) :
    layerMatch crate kind path isDir (fileLayers rules base above other) = .None := by
  cases rules with
  | none => rfl
  | some rules => simp [fileLayers, layerMatch, h]

/-- A file above the session's directory. -/
theorem suffix_above {above : RelPath} (h : above ≠ []) (path : RelPath) (kind : IgnoreFileKind)
    (rules : Gitignore) :
    IgnoreLayer.suffix ⟨[], above, kind, rules⟩ path = some (above ++ path) := by
  simp [IgnoreLayer.suffix, h]

/-- A file of the session's directory. -/
theorem suffix_here (path : RelPath) (kind : IgnoreFileKind) (rules : Gitignore) :
    IgnoreLayer.suffix ⟨[], [], kind, rules⟩ path = some path := by
  simp [IgnoreLayer.suffix]

/-- A file of a directory below the session's. -/
theorem suffix_below {base : RelPath} (path : RelPath) (kind : IgnoreFileKind)
    (rules : Gitignore) :
    IgnoreLayer.suffix ⟨base, [], kind, rules⟩ (base ++ path) = some path := by
  by_cases hbase : base = []
  · simp [IgnoreLayer.suffix, hbase]
  · have hdrop : (base ++ path).dropPrefix? base = some path := by
      rw [List.dropPrefix?_eq_some_iff]
      exact ⟨base, rfl, beq_self_eq_true base⟩
    simp [IgnoreLayer.suffix, hbase, hdrop]

/-! ## Loading -/

def IgnoreStack.add (stack : IgnoreStack Gitignore) (kind : IgnoreFileKind)
    (layers : List (IgnoreLayer Gitignore)) : IgnoreStack Gitignore :=
  match kind with
  | .Ignore => { stack with ignoreHead := layers ++ stack.ignoreHead }
  | .Gitignore | .GitExclude => { stack with gitHead := layers ++ stack.gitHead }

theorem pushLayer_ok {stack next : IgnoreStack Gitignore} {base above : RelPath}
    {text : List Char} {kind : IgnoreFileKind}
    (h : pushLayer crate stack base above text kind = .ok next) :
    next = stack.add kind (fileLayers (rulesOf crate (.ok (some text))) base above kind) := by
  obtain ⟨rules, hrules, h⟩ := Results.bind_ok.1 h
  rw [rulesOf, hrules]
  by_cases hempty : crate.isEmpty rules = true
  · simp only [hempty, if_true] at h ⊢
    injection h with h
    subst h
    cases kind <;> rfl
  · simp only [hempty] at h ⊢
    cases kind <;> exact (Except.ok.inj h).symm

theorem pushFile_ok {stack next : IgnoreStack Gitignore} {dir : Handle} {file : Name}
    {base above : RelPath} {kind : IgnoreFileKind}
    (h : pushFile crate stack dir file base above kind = .ok next) :
    next = stack.add kind (fileLayers (fileRules crate dir file) base above kind) := by
  obtain ⟨text, htext, h⟩ := Results.bind_ok.1 h
  rw [fileRules, htext]
  cases text with
  | none =>
      injection h with h
      subst h
      cases kind <;> rfl
  | some text => exact pushLayer_ok crate h

theorem applyGitRoot_ok {stack next : IgnoreStack Gitignore} {worktree : Handle}
    {kind : GitEntryKind} {above : List Name} (hprobe : probeGitEntry worktree = .ok (some kind))
    (h : applyGitRoot crate stack worktree kind above = .ok next) :
    next = { stack with
      gitEnabled := true
      gitHead := fileLayers (excludeRules crate worktree) [] above .GitExclude ++
        stack.gitHead } := by
  obtain ⟨gitDir, hgitDir, h⟩ := Results.bind_ok.1 h
  obtain ⟨common, hcommon, h⟩ := Results.bind_ok.1 h
  have htext : excludeText worktree =
      match openChildDirectory common infoName with
      | .error error => if isNotFound error then .ok none else .error error
      | .ok info => readChildText info excludeName := by
    rw [excludeText, hprobe]
    show (gitDirOf worktree kind >>= fun gitDir => resolveCommonDir gitDir >>= _) = _
    rw [hgitDir]
    show (resolveCommonDir gitDir >>= _) = _
    rw [hcommon]
    rfl
  rw [excludeRules, htext]
  rw [ingestExcludeFromCommon] at h
  cases hinfo : openChildDirectory common infoName with
  | error error =>
      rw [hinfo] at h
      by_cases hmissing : isNotFound error = true
      · simp only [hmissing, if_true] at h ⊢
        injection h with h
        exact h.symm
      · simp [hmissing] at h
  | ok info =>
      rw [hinfo] at h
      exact pushFile_ok crate h

/-- What a directory adds to the layers of the repository. -/
def gitLayers (dir : Handle) (base : RelPath) (enabled : Bool) : List (IgnoreLayer Gitignore) :=
  if hasGit dir then
    fileLayers (fileRules crate dir dotGitignore) base [] .Gitignore ++
      fileLayers (excludeRules crate dir) [] [] .GitExclude
  else if enabled then fileLayers (fileRules crate dir dotGitignore) base [] .Gitignore
  else []

/-- A directory adds its files; what was there stays, but for the rules of a repository around
the one whose root the directory is. -/
theorem ingest_ok {stack next : IgnoreStack Gitignore} {dir : Handle} {base : RelPath}
    (h : ingest crate stack dir base = .ok next) :
    next.ignoreHead =
        fileLayers (fileRules crate dir dotIgnore) base [] .Ignore ++ stack.ignoreHead ∧
      next.gitHead = gitLayers crate dir base stack.gitEnabled ++
        (if hasGit dir && stack.gitEnabled then [] else stack.gitHead) ∧
      next.gitEnabled = (hasGit dir || stack.gitEnabled) := by
  obtain ⟨rooted, hrooted, h⟩ := Results.bind_ok.1 h
  obtain ⟨ruled, hruled, h⟩ := Results.bind_ok.1 h
  have hlast := pushFile_ok crate h
  subst hlast
  rw [ingestGitRoot] at hrooted
  rw [ingestGitignore] at hruled
  cases hprobe : probeGitEntry dir with
  | error error =>
      rw [hprobe] at hrooted
      cases hrooted
  | ok kind =>
      rw [hprobe] at hrooted
      cases kind with
      | none =>
          have hgit : hasGit dir = false := by rw [hasGit, hprobe]
          injection hrooted with hrooted
          subst hrooted
          by_cases henabled : stack.gitEnabled = true
          · rw [if_pos henabled] at hruled
            rw [pushFile_ok crate hruled]
            simp [IgnoreStack.add, gitLayers, hgit, henabled]
          · rw [if_neg henabled] at hruled
            injection hruled with hruled
            subst hruled
            simp [IgnoreStack.add, gitLayers, hgit, henabled]
      | some kind =>
          have hgit : hasGit dir = true := by rw [hasGit, hprobe]
          have hroot := applyGitRoot_ok crate hprobe hrooted
          rw [hroot, if_pos rfl] at hruled
          rw [pushFile_ok crate hruled]
          by_cases henabled : stack.gitEnabled = true
          · simp [IgnoreStack.add, gitLayers, hgit, henabled]
          · simp [IgnoreStack.add, gitLayers, hgit, henabled]

/-! ## The repository around the session's directory -/

/-- The target is below the directory, under these names. -/
def Reach : Handle → List Name → Handle → Prop
  | dir, [], target => dir = target
  | dir, name :: rest, target =>
      ∃ child, openChildDirectory dir name = .ok child ∧ Reach child rest target

/-- The scopes below the directory and above the target under these names. -/
def between (path : RelPath) : Handle → List Name → List Scope
  | _, [] => []
  | _, [_] => []
  | dir, name :: next :: rest =>
      match openChildDirectory dir name with
      | .error _ => []
      | .ok child => between path child (next :: rest) ++ [(child, next :: rest ++ path)]

theorem scopes_between {dir target : Handle} {name : Name} {names : List Name}
    (h : Reach dir (name :: names) target) (path : RelPath) :
    scopes target path =
      (target, path) :: between path dir (name :: names) ++
        scopes dir (name :: names ++ path) := by
  induction names generalizing dir name with
  | nil =>
      obtain ⟨child, hopen, rfl⟩ := h
      rw [scopes_child hopen]
      rfl
  | cons next rest ih =>
      obtain ⟨child, hopen, hreach⟩ := h
      rw [ih hreach, between, hopen, List.cons_append, List.cons_append,
        scopes_child hopen]
      simp

/-- The `.gitignore` files between the root of the repository and the session's directory. -/
theorem loadBetween_ok {stack next : IgnoreStack Gitignore} {dir target : Handle}
    {names : List Name} (hreach : Reach dir names target)
    (h : loadBetween crate stack dir names = .ok next) :
    next.ignoreHead = stack.ignoreHead ∧ next.gitEnabled = stack.gitEnabled ∧
      ∀ path isDir,
        layerMatch crate .Gitignore path isDir next.gitHead =
          (verdicts crate dotGitignore isDir (between path dir names)).or
            (layerMatch crate .Gitignore path isDir stack.gitHead) ∧
        layerMatch crate .GitExclude path isDir next.gitHead =
          layerMatch crate .GitExclude path isDir stack.gitHead := by
  induction names generalizing dir stack with
  | nil =>
      injection h with h
      subst h
      exact ⟨rfl, rfl, fun path isDir => ⟨rfl, rfl⟩⟩
  | cons name rest ih =>
      cases rest with
      | nil =>
          injection h with h
          subst h
          exact ⟨rfl, rfl, fun path isDir => ⟨rfl, rfl⟩⟩
      | cons other rest =>
          obtain ⟨child, hopen, h⟩ := Results.bind_ok.1 h
          obtain ⟨pushed, hpushed, h⟩ := Results.bind_ok.1 h
          obtain ⟨child', hopen', hreach⟩ := hreach
          obtain rfl : child = child' := by
            rw [hopen] at hopen'
            injection hopen'
          have hpush := pushFile_ok crate hpushed
          subst hpush
          obtain ⟨hignore, henabled, hgit⟩ := ih hreach h
          refine ⟨hignore, henabled, fun path isDir => ⟨?_, ?_⟩⟩
          · rw [(hgit path isDir).1, between, hopen, verdicts_append, verdicts, verdicts,
              Match.or_none, Match.or_assoc]
            congr 1
            rw [IgnoreStack.add, layerMatch_append]
            congr 1
            exact layerMatch_fileLayers crate fun rules => suffix_above (by simp) path _ rules
          · rw [(hgit path isDir).2, IgnoreStack.add, layerMatch_append,
              layerMatch_other crate (by simp), Match.none_or]

theorem scopes_root {dir : Handle} (h : openParentDirectory dir = .FilesystemRoot)
    (path : RelPath) : scopes dir path = [(dir, path)] := by
  obtain ⟨entries, above, linked⟩ := dir
  cases above with
  | nil => rfl
  | cons first above => cases h

theorem scopes_parent {dir parent : Handle} (h : openParentDirectory dir = .Parent parent) :
    ∃ name, childNameInParent dir = some name ∧ openChildDirectory parent name = .ok dir := by
  obtain ⟨entries, above, linked⟩ := dir
  cases above with
  | nil => cases h
  | cons first above =>
      obtain ⟨name, parentEntries⟩ := first
      injection h with h
      subst h
      exact ⟨name, rfl, openChildDirectory_ok.2 ⟨entries, linked.1, rfl⟩⟩

/-- What the seeds of a directory that is no root of a repository stand for. -/
inductive Seeded (cwd : Handle) : IgnoreStack Gitignore → Prop
  | outside (hnone : ∀ path, repository (scopes cwd path).tail = []) : Seeded cwd .default
  | inside {stack : IgnoreStack Gitignore} {root : Handle} {names : List Name}
      (hnames : names ≠ [])
      (hroot : ∀ path, repository (scopes cwd path).tail =
        between path root names ++ [(root, names ++ path)])
      (henabled : stack.gitEnabled = true) (hignore : stack.ignoreHead = [])
      (hgitignore : ∀ path isDir, layerMatch crate .Gitignore path isDir stack.gitHead =
        verdicts crate dotGitignore isDir (between path root names ++ [(root, names ++ path)]))
      (hexclude : ∀ path isDir, layerMatch crate .GitExclude path isDir stack.gitHead =
        verdict crate (excludeRules crate root) (names ++ path) isDir) : Seeded cwd stack

/-- The layers of the repository found above the session's directory. -/
theorem around_ok {cwd root : Handle} {names : List Name} {kind : GitEntryKind}
    {rooted stack : IgnoreStack Gitignore} (hnames : names ≠ []) (hreach : Reach root names cwd)
    (hprobe : probeGitEntry root = .ok (some kind))
    (happly : applyGitRoot crate .default root kind names = .ok rooted)
    (hload : loadAncestorGitignores crate rooted root names = .ok stack) :
    stack.gitEnabled = true ∧ stack.ignoreHead = [] ∧ ∀ path isDir,
      layerMatch crate .Gitignore path isDir stack.gitHead =
        verdicts crate dotGitignore isDir (between path root names ++ [(root, names ++ path)]) ∧
      layerMatch crate .GitExclude path isDir stack.gitHead =
        verdict crate (excludeRules crate root) (names ++ path) isDir := by
  obtain ⟨pushed, hpushed, hbetween⟩ := Results.bind_ok.1 hload
  have hrooted := applyGitRoot_ok crate hprobe happly
  have hpush := pushFile_ok crate hpushed
  subst hrooted
  subst hpush
  obtain ⟨hignore, henabled, hgit⟩ := loadBetween_ok crate hreach hbetween
  refine ⟨henabled, hignore, fun path isDir => ⟨?_, ?_⟩⟩
  · rw [(hgit path isDir).1, verdicts_append]
    congr 1
    rw [IgnoreStack.add, layerMatch_append, layerMatch_append,
      layerMatch_fileLayers crate fun rules => suffix_above hnames path _ rules,
      layerMatch_other crate (by simp)]
    rfl
  · rw [(hgit path isDir).2, IgnoreStack.add, layerMatch_append, layerMatch_append,
      layerMatch_fileLayers crate fun rules => suffix_above hnames path _ rules,
      layerMatch_other crate (by simp)]
    exact Match.or_none _

theorem seedParents_ok {cwd dir : Handle} {names : List Name} {hops : Nat}
    {stack : IgnoreStack Gitignore} (hreach : Reach dir names cwd)
    (hfront : ∀ path, ∃ front, (scopes cwd path).tail = front ++ (scopes dir (names ++ path)).tail ∧
      ∀ scope ∈ front, hasGit scope.1 = false)
    (h : seedParents crate .default hops dir names = .ok stack) : Seeded crate cwd stack := by
  induction hops generalizing dir names with
  | zero => cases h
  | succ hops ih =>
      rw [seedParents] at h
      cases hparent : openParentDirectory dir with
      | FilesystemRoot =>
          rw [hparent] at h
          injection h with h
          subst h
          refine Seeded.outside fun path => ?_
          obtain ⟨front, hscopes, hnone⟩ := hfront path
          rw [hscopes, scopes_root hparent, List.tail_cons, repository_append _ _ hnone]
          rfl
      | Parent parent =>
          obtain ⟨name, hname, hopen⟩ := scopes_parent hparent
          have hparentReach : Reach parent (name :: names) cwd := ⟨dir, hopen, hreach⟩
          have htail (path : RelPath) : (scopes dir path).tail = scopes parent (name :: path) := by
            rw [scopes_child hopen, List.tail_cons]
          rw [hparent, hname] at h
          cases hprobe : probeGitEntry parent with
          | error error =>
              simp only [hprobe] at h
              cases h
          | ok kind =>
              cases kind with
              | none =>
                  have hgit : hasGit parent = false := by rw [hasGit, hprobe]
                  simp only [hprobe] at h
                  refine ih hparentReach ?_ h
                  intro path
                  obtain ⟨front, hscopes, hnone⟩ := hfront path
                  refine ⟨front ++ [(parent, name :: names ++ path)], ?_, ?_⟩
                  · rw [hscopes, htail, List.append_assoc]
                    congr 1
                    exact scopes_cons parent _
                  · intro scope hscope
                    cases List.mem_append.1 hscope with
                    | inl hin => exact hnone scope hin
                    | inr hlast => exact List.mem_singleton.1 hlast ▸ hgit
              | some kind =>
                  have hgit : hasGit parent = true := by rw [hasGit, hprobe]
                  simp only [hprobe] at h
                  obtain ⟨rooted, hrooted, hload⟩ := Results.bind_ok.1 h
                  obtain ⟨henabled, hignore, hlayers⟩ :=
                    around_ok crate (by simp) hparentReach hprobe hrooted hload
                  refine Seeded.inside (by simp) ?_ henabled hignore
                    (fun path isDir => (hlayers path isDir).1)
                    (fun path isDir => (hlayers path isDir).2)
                  intro path
                  obtain ⟨front, hscopes, hnone⟩ := hfront path
                  have hbetween := congrArg List.tail (scopes_between hparentReach path)
                  rw [List.cons_append, List.tail_cons, hscopes, htail] at hbetween
                  rw [← List.append_cancel_right hbetween, hscopes, htail,
                    repository_append _ _ hnone, repository_root hgit]
                  rfl

theorem seedGitBoundary_ok {cwd : Handle} {stack : IgnoreStack Gitignore}
    (h : seedGitBoundary crate .default cwd = .ok stack) :
    (hasGit cwd = true ∧ stack = .default) ∨ (hasGit cwd = false ∧ Seeded crate cwd stack) := by
  rw [seedGitBoundary] at h
  cases hprobe : probeGitEntry cwd with
  | error error =>
      rw [hprobe] at h
      cases h
  | ok kind =>
      rw [hprobe] at h
      cases kind with
      | some kind =>
          injection h with h
          exact Or.inl ⟨by rw [hasGit, hprobe], h.symm⟩
      | none =>
          have hreach : Reach cwd [] cwd := rfl
          refine Or.inr ⟨by rw [hasGit, hprobe], seedParents_ok crate hreach ?_ h⟩
          intro path
          exact ⟨[], rfl, fun scope hscope => absurd hscope List.not_mem_nil⟩

/-! ## The stacks of a directory -/

/-- The verdict of the exclude file as the stacks give it: the file of a repository below the
session's directory is asked about the path from the session's directory. -/
def excludeAsked (rel path : RelPath) (isDir : Bool) (scopes : List Scope) : Match :=
  match (repository scopes).getLast? with
  | some (root, inner) =>
      verdict crate (excludeRules crate root)
        (if inner.length < (rel ++ path).length then rel ++ path else inner) isDir
  | none => .None

/-- The stacks of a directory at a path below the session's say what the files around it say. -/
structure Ruled (dir : Handle) (rel : RelPath) (stack : IgnoreStack Gitignore) : Prop where
  ignore : ∀ path isDir, layerMatch crate .Ignore (rel ++ path) isDir stack.ignoreHead =
    verdicts crate dotIgnore isDir ((scopes dir path).take (rel.length + 1))
  gitignore : ∀ path isDir, layerMatch crate .Gitignore (rel ++ path) isDir stack.gitHead =
    verdicts crate dotGitignore isDir (repository (scopes dir path))
  exclude : ∀ path isDir, layerMatch crate .GitExclude (rel ++ path) isDir stack.gitHead =
    excludeAsked crate rel path isDir (scopes dir path)
  enabled : ∀ path, stack.gitEnabled = true ↔ repository (scopes dir path) ≠ []
  off : stack.gitEnabled = false → stack.gitHead = []

/-- The layers of a directory itself. -/
theorem layerMatch_own (dir : Handle) (rel path : RelPath) (isDir : Bool) (file : Name)
    (kind : IgnoreFileKind) :
    layerMatch crate kind (rel ++ path) isDir
        (fileLayers (fileRules crate dir file) rel [] kind) =
      verdict crate (fileRules crate dir file) path isDir :=
  layerMatch_fileLayers crate fun rules => suffix_below path kind rules

theorem layerMatch_exclude (dir : Handle) (path : RelPath) (isDir : Bool) :
    layerMatch crate .GitExclude path isDir
        (fileLayers (excludeRules crate dir) [] [] .GitExclude) =
      verdict crate (excludeRules crate dir) path isDir :=
  layerMatch_fileLayers crate fun rules => suffix_here path .GitExclude rules

/-- The stacks at the root of a repository. -/
theorem layerMatch_gitRoot {dir : Handle} (hgit : hasGit dir = true) (rel path : RelPath)
    (enabled isDir : Bool) :
    layerMatch crate .Gitignore (rel ++ path) isDir (gitLayers crate dir rel enabled) =
        verdict crate (fileRules crate dir dotGitignore) path isDir ∧
      layerMatch crate .GitExclude (rel ++ path) isDir (gitLayers crate dir rel enabled) =
        verdict crate (excludeRules crate dir) (rel ++ path) isDir := by
  rw [gitLayers, if_pos hgit, layerMatch_append, layerMatch_append]
  constructor
  · rw [layerMatch_own, layerMatch_other crate (by simp), Match.or_none]
  · rw [layerMatch_exclude, layerMatch_other crate (by simp), Match.none_or]

/-- The stacks of a directory of the repository other than its root. -/
theorem layerMatch_inside {dir : Handle} (hgit : hasGit dir = false) (rel path : RelPath)
    (isDir : Bool) :
    layerMatch crate .Gitignore (rel ++ path) isDir (gitLayers crate dir rel true) =
        verdict crate (fileRules crate dir dotGitignore) path isDir ∧
      layerMatch crate .GitExclude (rel ++ path) isDir (gitLayers crate dir rel true) =
        .None := by
  rw [gitLayers, if_neg (by simp [hgit]), if_pos rfl]
  exact ⟨layerMatch_own crate dir rel path isDir _ _, layerMatch_other crate (by simp)⟩

theorem repository_cons {scope : Scope} {rest : List Scope} (h : hasGit scope.1 = false) :
    repository (scope :: rest) = if repository rest = [] then [] else scope :: repository rest :=
  repository_append [scope] rest (by simpa using h)

/-- The files of a subdirectory are added to those around it. -/
theorem Ruled.step {dir child : Handle} {rel : RelPath} {name : Name}
    {stack next : IgnoreStack Gitignore} (h : Ruled crate dir rel stack)
    (hopen : openChildDirectory dir name = .ok child)
    (hingest : ingest crate stack child (rel ++ [name]) = .ok next) :
    Ruled crate child (rel ++ [name]) next := by
  obtain ⟨hignore, hgit, henabled⟩ := ingest_ok crate hingest
  have hjoin (path : RelPath) : rel ++ [name] ++ path = rel ++ name :: path := by simp
  have hcases : (hasGit child = true ∧
        next.gitHead = gitLayers crate child (rel ++ [name]) stack.gitEnabled) ∨
      (hasGit child = false ∧ stack.gitEnabled = true ∧
        next.gitHead = gitLayers crate child (rel ++ [name]) true ++ stack.gitHead) ∨
      (hasGit child = false ∧ stack.gitEnabled = false ∧ next.gitHead = []) := by
    rw [hgit]
    cases hchild : hasGit child with
    | true =>
        cases hstack : stack.gitEnabled with
        | true => simp
        | false => simp [h.off hstack]
    | false =>
        cases hstack : stack.gitEnabled with
        | true => simp
        | false => simp [h.off hstack, gitLayers, hchild]
  constructor
  case ignore =>
    intro path isDir
    rw [hignore, layerMatch_append, layerMatch_own, hjoin, h.ignore, scopes_child hopen,
      List.length_append, List.length_singleton, List.take_succ_cons, verdicts]
  case gitignore =>
    intro path isDir
    rcases hcases with ⟨hchild, hhead⟩ | ⟨hchild, hstack, hhead⟩ | ⟨hchild, hstack, hhead⟩
    · rw [hhead, (layerMatch_gitRoot crate hchild _ _ _ _).1, repository_root hchild, verdicts,
        verdicts, Match.or_none]
    · rw [hhead, layerMatch_append, (layerMatch_inside crate hchild _ _ _).1, hjoin, h.gitignore,
        scopes_child hopen, repository_cons hchild, if_neg ((h.enabled _).1 hstack), verdicts]
    · have hnone : repository (scopes dir (name :: path)) = [] := by
        by_contra hne
        rw [(h.enabled _).2 hne] at hstack
        cases hstack
      rw [hhead, scopes_child hopen, repository_cons hchild, if_pos hnone]
      rfl
  case exclude =>
    intro path isDir
    rcases hcases with ⟨hchild, hhead⟩ | ⟨hchild, hstack, hhead⟩ | ⟨hchild, hstack, hhead⟩
    · have hlonger : path.length < (rel ++ [name] ++ path).length := by
        simp only [List.length_append, List.length_singleton]
        omega
      rw [hhead, (layerMatch_gitRoot crate hchild _ _ _ _).2, excludeAsked,
        repository_root hchild, List.getLast?_singleton]
      simp only [if_pos hlonger]
    · rw [hhead, layerMatch_append, (layerMatch_inside crate hchild _ _ _).2, Match.none_or,
        hjoin, h.exclude, excludeAsked, excludeAsked, scopes_child hopen,
        repository_cons hchild, if_neg ((h.enabled _).1 hstack),
        List.getLast?_cons_of_ne_nil ((h.enabled _).1 hstack), hjoin]
    · have hnone : repository (scopes dir (name :: path)) = [] := by
        by_contra hne
        rw [(h.enabled _).2 hne] at hstack
        cases hstack
      rw [hhead, excludeAsked, scopes_child hopen, repository_cons hchild, if_pos hnone]
      rfl
  case enabled =>
    intro path
    rw [henabled]
    cases hchild : hasGit child with
    | true => simp [repository_root hchild]
    | false =>
        rw [Bool.false_or, h.enabled (name :: path), scopes_child hopen, repository_cons hchild]
        by_cases hnone : repository (scopes dir (name :: path)) = []
        · simp [hnone]
        · simp [hnone]
  case off =>
    intro hoff
    rw [henabled, Bool.or_eq_false_iff] at hoff
    rcases hcases with ⟨hchild, -⟩ | ⟨-, hstack, -⟩ | ⟨-, -, hhead⟩
    · rw [hchild] at hoff
      cases hoff.1
    · rw [hstack] at hoff
      cases hoff.2
    · exact hhead

/-- The stacks of the session's directory. -/
theorem Ruled.start {cwd : Handle} {seeded stack : IgnoreStack Gitignore}
    (hseed : seedGitBoundary crate .default cwd = .ok seeded)
    (hingest : ingest crate seeded cwd [] = .ok stack) : Ruled crate cwd [] stack := by
  obtain ⟨hignore, hgit, henabled⟩ := ingest_ok crate hingest
  have hempty : seeded.ignoreHead = [] := by
    rcases seedGitBoundary_ok crate hseed with ⟨-, rfl⟩ | ⟨-, hseeded⟩
    · rfl
    · cases hseeded with
      | outside => rfl
      | inside _ _ _ hignore _ _ => exact hignore
  have hcases : (hasGit cwd = true ∧ stack.gitHead = gitLayers crate cwd [] false) ∨
      (hasGit cwd = false ∧ (∀ path, repository (scopes cwd path).tail = []) ∧
        stack.gitHead = [] ∧ seeded.gitEnabled = false) ∨
      (hasGit cwd = false ∧ (stack.gitHead = gitLayers crate cwd [] true ++ seeded.gitHead ∧
        seeded.gitEnabled = true) ∧ Seeded crate cwd seeded) := by
    rcases seedGitBoundary_ok crate hseed with ⟨hroot, rfl⟩ | ⟨hroot, hseeded⟩
    · left
      refine ⟨hroot, ?_⟩
      rw [hgit, hroot]
      exact List.append_nil _
    · right
      cases hseeded with
      | outside hnone =>
          left
          refine ⟨hroot, hnone, ?_, rfl⟩
          rw [hgit, gitLayers, hroot]
          rfl
      | @inside _ root names hnames hscopes hseeded hignore hgitignore hexclude =>
          right
          refine ⟨hroot, ⟨?_, hseeded⟩,
            Seeded.inside hnames hscopes hseeded hignore hgitignore hexclude⟩
          rw [hgit, hroot, hseeded]
          rfl
  constructor
  case ignore =>
    intro path isDir
    rw [hignore, hempty, List.append_nil, layerMatch_own, scopes_cons, List.length_nil,
      List.take_succ_cons, List.take_zero, verdicts, verdicts, Match.or_none]
  case gitignore =>
    intro path isDir
    rcases hcases with ⟨hroot, hhead⟩ | ⟨hroot, hnone, hhead, -⟩ | ⟨hroot, hhead, hinside⟩
    · rw [hhead, (layerMatch_gitRoot crate hroot _ _ _ _).1, repository_root hroot, verdicts,
        verdicts, Match.or_none]
    · rw [hhead, scopes_cons, repository_cons hroot, if_pos (hnone path)]
      rfl
    · cases hinside with
      | outside => cases hhead.2
      | @inside _ root names hnames hscopes hseeded hignore hgitignore hexclude =>
          rw [hhead.1, layerMatch_append, (layerMatch_inside crate hroot _ _ _).1, scopes_cons,
            repository_cons hroot, hscopes, if_neg (by simp), verdicts]
          congr 1
          exact hgitignore path isDir
  case exclude =>
    intro path isDir
    rcases hcases with ⟨hroot, hhead⟩ | ⟨hroot, hnone, hhead, -⟩ | ⟨hroot, hhead, hinside⟩
    · rw [hhead, (layerMatch_gitRoot crate hroot _ _ _ _).2, excludeAsked,
        repository_root hroot, List.getLast?_singleton]
      simp only [List.nil_append, ite_self]
    · rw [hhead, excludeAsked, scopes_cons, repository_cons hroot, if_pos (hnone path)]
      rfl
    · cases hinside with
      | outside => cases hhead.2
      | @inside _ root names hnames hscopes hseeded hignore hgitignore hexclude =>
          have hshorter : ¬(names ++ path).length < ([] ++ path).length := by
            simp only [List.length_append, List.nil_append]
            omega
          rw [hhead.1, layerMatch_append, (layerMatch_inside crate hroot _ _ _).2, Match.none_or,
            excludeAsked, scopes_cons, repository_cons hroot, hscopes, if_neg (by simp),
            ← List.cons_append, List.getLast?_concat]
          simp only [if_neg hshorter]
          exact hexclude path isDir
  case enabled =>
    intro path
    rw [henabled]
    rcases hcases with ⟨hroot, -⟩ | ⟨hroot, hnone, -, hoff⟩ | ⟨hroot, hhead, hinside⟩
    · simp [hroot, repository_root hroot]
    · rw [scopes_cons, repository_cons hroot, if_pos (hnone path), hroot, hoff]
      simp
    · cases hinside with
      | outside => cases hhead.2
      | @inside _ root names hnames hscopes hseeded hignore hgitignore hexclude =>
          rw [scopes_cons, repository_cons hroot, hscopes, if_neg (by simp), hhead.2]
          simp
  case off =>
    intro hoff
    rw [henabled, Bool.or_eq_false_iff] at hoff
    rcases hcases with ⟨hroot, -⟩ | ⟨-, -, hhead, -⟩ | ⟨-, hhead, -⟩
    · rw [hroot] at hoff
      cases hoff.1
    · exact hhead
    · rw [hhead.2] at hoff
      cases hoff.2

end MCode.Tools
