import MCode.Tools.FileTree

/-!
# Ignore files

A search skips what the ignore files of the directories around it say.  There
are three kinds: `.ignore` files, `.gitignore` files of a repository, and the
`info/exclude` file of its git directory.  The rules of one file are compiled
and matched by the `ignore` crate, which is a parameter; this module loads the
files, keeps the compiled rules on two stacks and asks them about paths.

The stacks are seeded with the files of the repository around the directory the
session runs in, and take in the files of each directory on the way down.
-/

namespace MCode.Tools

open MCode.Lib

/-! ## Texts -/

/-- A line without its ending. -/
def stripLineEnding : List Char → List Char
  | '\r' :: reversed => reversed.reverse
  | reversed => reversed.reverse

/-- The lines of a text behind the reversed beginning of its first line. -/
def linesBehind : List Char → List Char → List (List Char)
  | [], [] => []
  | reversed, [] => [reversed.reverse]
  | reversed, '\n' :: text => stripLineEnding reversed :: linesBehind [] text
  | reversed, c :: text => linesBehind (c :: reversed) text

def lines (text : List Char) : List (List Char) :=
  linesBehind [] text

/-- The characters with the property `White_Space`. -/
def isWhiteSpace (c : Char) : Bool :=
  ('\t' ≤ c && c ≤ '\r') || c = ' ' || c = '\x85' || c = '\xA0' || c = '\u1680' ||
    ('\u2000' ≤ c && c ≤ '\u200A') || c = '\u2028' || c = '\u2029' || c = '\u202F' ||
    c = '\u205F' || c = '\u3000'

def trim (text : List Char) : List Char :=
  ((text.dropWhile isWhiteSpace).reverse.dropWhile isWhiteSpace).reverse

def trimByteOrderMark (line : List Char) : List Char :=
  line.dropWhile (· = '\uFEFF')

/-! ## Git directories -/

def dotGit : Name := ⟨[0x2E, 0x67, 0x69, 0x74], by decide, by decide, by decide⟩

def dotGitignore : Name :=
  ⟨[0x2E, 0x67, 0x69, 0x74, 0x69, 0x67, 0x6E, 0x6F, 0x72, 0x65], by decide, by decide, by decide⟩

def dotIgnore : Name :=
  ⟨[0x2E, 0x69, 0x67, 0x6E, 0x6F, 0x72, 0x65], by decide, by decide, by decide⟩

def commondirName : Name :=
  ⟨[0x63, 0x6F, 0x6D, 0x6D, 0x6F, 0x6E, 0x64, 0x69, 0x72], by decide, by decide, by decide⟩

def infoName : Name := ⟨[0x69, 0x6E, 0x66, 0x6F], by decide, by decide, by decide⟩

def excludeName : Name :=
  ⟨[0x65, 0x78, 0x63, 0x6C, 0x75, 0x64, 0x65], by decide, by decide, by decide⟩

def MAX_GIT_PARENT_HOPS : Nat := 256

inductive GitEntryKind where
  | Directory
  | File
  deriving DecidableEq

def probeGitEntry (dir : Handle) : Except IoError (Option GitEntryKind) :=
  match openChildFile dir dotGit none with
  | .ok (.Directory _) => .ok (some .Directory)
  | .ok (.File _) => .ok (some .File)
  | .error error => if isNotFound error then .ok none else .error error

def parseGitdirLines : Nat → List (List Char) → Except IoError (List Char)
  | _, [] => .error
      ⟨.InvalidData, "search ignore files cannot be loaded: .git file has no gitdir"⟩
  | index, line :: rest =>
      let line := if index = 0 then trim (trimByteOrderMark line) else trim line
      match line.dropPrefix? "gitdir:".toList with
      | none => parseGitdirLines (index + 1) rest
      | some path =>
          if (trim path).isEmpty then
            .error ⟨.InvalidData, "search ignore files cannot be loaded: gitdir path is empty"⟩
          else .ok (trim path)

def parseGitdirFile (text : List Char) : Except IoError (List Char) :=
  parseGitdirLines 0 (lines text)

/-- A step of a path.  The steps that stay where they are (`.` and empty ones) are left out. -/
inductive Component where
  | ParentDir
  | Normal (text : List Char)

def components (path : List Char) : List Component :=
  (path.splitOn '/').filterMap fun component =>
    if component.isEmpty || component = ['.'] then none
    else if component = ['.', '.'] then some .ParentDir
    else some (.Normal component)

/-- Opens the directory with this name, which must be a single component. -/
def openNormal (dir : Handle) (text : List Char) : Except IoError Handle :=
  if h : Utf8.encode text ≠ [] ∧ 0x2F ∉ Utf8.encode text ∧ 0 ∉ Utf8.encode text then
    openChildDirectory dir ⟨Utf8.encode text, h.1, h.2.1, h.2.2⟩
  else .error ⟨.InvalidInput, "walked entry is not a single path component"⟩

/-- The steps of an absolute path from the root of the file system. -/
def openDirectoryNofollow : Handle → List Component → Except IoError Handle
  | current, [] => .ok current
  | current, .ParentDir :: rest =>
      match openParentDirectory current with
      | .Parent parent => openDirectoryNofollow parent rest
      | .FilesystemRoot => .error ⟨.InvalidInput, "path escaped past filesystem root"⟩
  | current, .Normal text :: rest => do
      openDirectoryNofollow (← openNormal current text) rest

/-- The steps of a relative path, at most so many of them upwards. -/
def openRelativeSteps : Nat → Handle → List Component → Except IoError Handle
  | _, current, [] => .ok current
  | 0, _, .ParentDir :: _ =>
      .error ⟨.Other, "search ignore files cannot be loaded: gitdir path is too deep"⟩
  | hops + 1, current, .ParentDir :: rest =>
      match openParentDirectory current with
      | .Parent parent => openRelativeSteps hops parent rest
      | .FilesystemRoot => .error ⟨.InvalidInput,
          "search ignore files cannot be loaded: gitdir path escaped past filesystem root"⟩
  | hops, current, .Normal text :: rest => do
      openRelativeSteps hops (← openNormal current text) rest

def openGitMetadataDir (base : Handle) (path : List Char) : Except IoError Handle :=
  if path.head? = some '/' then openDirectoryNofollow base.root (components path)
  else openRelativeSteps MAX_GIT_PARENT_HOPS base (components path)

def openGitdirFromFile (worktree : Handle) : Except IoError Handle := do
  match ← readChildText worktree dotGit with
  | none => .error ⟨.Other, "search ignore files cannot be loaded: .git file is empty"⟩
  | some text => openGitMetadataDir worktree (← parseGitdirFile text)

def resolveCommonDir (gitDir : Handle) : Except IoError Handle := do
  match ← readChildText gitDir commondirName with
  | none => .ok gitDir
  | some text =>
      let path := trim ((lines text).headD [])
      if path.isEmpty then
        .error ⟨.InvalidData, "search ignore files cannot be loaded: commondir is empty"⟩
      else openGitMetadataDir gitDir path

/-! ## Rules -/

inductive Match where
  | None
  | Ignore
  | Whitelist
  deriving DecidableEq

/-- The first verdict, or else the second. -/
def Match.or : Match → Match → Match
  | .None, other => other
  | verdict, _ => verdict

def Match.isIgnore : Match → Bool
  | .Ignore => true
  | _ => false

/-- The `ignore` crate: rules are added line by line, compiled, and matched against a path. -/
structure IgnoreCrate (Builder Gitignore : Type) where
  new : Builder
  addLine : Builder → List Char → Except String Builder
  build : Builder → Except String Gitignore
  isEmpty : Gitignore → Bool
  matched : Gitignore → RelPath → Bool → Match

variable {Builder Gitignore : Type} (crate : IgnoreCrate Builder Gitignore)

def addLines : Nat → Builder → List (List Char) → Except IoError Builder
  | _, builder, [] => .ok builder
  | index, builder, line :: rest =>
      let line := if index = 0 then trimByteOrderMark line else line
      match crate.addLine builder line with
      | .ok builder => addLines (index + 1) builder rest
      | .error error =>
          .error ⟨.InvalidData, s!"invalid ignore rule on line {index + 1}: {error}"⟩

/-- The rules of a text. -/
def compileRules (text : List Char) : Except IoError Gitignore := do
  match crate.build (← addLines crate 0 crate.new (lines text)) with
  | .ok gitignore => .ok gitignore
  | .error error => .error ⟨.InvalidData, s!"ignore rules cannot be compiled: {error}"⟩

/-! ## The stacks -/

inductive IgnoreFileKind where
  | Ignore
  | Gitignore
  | GitExclude
  deriving DecidableEq

structure IgnoreLayer (Gitignore : Type) where
  base : RelPath
  /-- From the directory of the file down to the directory the session runs in. -/
  ancestorPrefix : RelPath
  kind : IgnoreFileKind
  matcher : Gitignore

structure IgnoreStack (Gitignore : Type) where
  gitEnabled : Bool
  ignoreHead : List (IgnoreLayer Gitignore)
  gitHead : List (IgnoreLayer Gitignore)

def IgnoreStack.default : IgnoreStack Gitignore :=
  ⟨false, [], []⟩

def pushLayer (stack : IgnoreStack Gitignore) (base ancestorPrefix : RelPath) (text : List Char)
    (kind : IgnoreFileKind) : Except IoError (IgnoreStack Gitignore) := do
  let gitignore ← compileRules crate text
  if crate.isEmpty gitignore then .ok stack
  else
    let layer : IgnoreLayer Gitignore := ⟨base, ancestorPrefix, kind, gitignore⟩
    match kind with
    | .Ignore => .ok { stack with ignoreHead := layer :: stack.ignoreHead }
    | .Gitignore | .GitExclude => .ok { stack with gitHead := layer :: stack.gitHead }

/-- The layer of a file of the directory, if there is such a file. -/
def pushFile (stack : IgnoreStack Gitignore) (dir : Handle) (name : Name)
    (base ancestorPrefix : RelPath) (kind : IgnoreFileKind) :
    Except IoError (IgnoreStack Gitignore) := do
  match ← readChildText dir name with
  | none => .ok stack
  | some text => pushLayer crate stack base ancestorPrefix text kind

def ingestExcludeFromCommon (stack : IgnoreStack Gitignore) (common : Handle)
    (namesToCwd : List Name) : Except IoError (IgnoreStack Gitignore) :=
  match openChildDirectory common infoName with
  | .error error => if isNotFound error then .ok stack else .error error
  | .ok info => pushFile crate stack info excludeName [] namesToCwd .GitExclude

def gitDirOf (worktree : Handle) : GitEntryKind → Except IoError Handle
  | .Directory => openChildDirectory worktree dotGit
  | .File => openGitdirFromFile worktree

def applyGitRoot (stack : IgnoreStack Gitignore) (worktree : Handle) (kind : GitEntryKind)
    (namesToCwd : List Name) : Except IoError (IgnoreStack Gitignore) := do
  let gitDir ← gitDirOf worktree kind
  let common ← resolveCommonDir gitDir
  ingestExcludeFromCommon crate { stack with gitEnabled := true } common namesToCwd

/-- The `.gitignore` files below the root of the repository and above the session's directory. -/
def loadBetween (stack : IgnoreStack Gitignore) : Handle → List Name →
    Except IoError (IgnoreStack Gitignore)
  | _, [] => .ok stack
  | _, [_] => .ok stack
  | current, name :: next :: rest => do
      let current ← openChildDirectory current name
      let stack ← pushFile crate stack current dotGitignore [] (next :: rest) .Gitignore
      loadBetween stack current (next :: rest)

def loadAncestorGitignores (stack : IgnoreStack Gitignore) (gitRoot : Handle)
    (namesToCwd : List Name) : Except IoError (IgnoreStack Gitignore) := do
  let stack ← pushFile crate stack gitRoot dotGitignore [] namesToCwd .Gitignore
  loadBetween crate stack gitRoot namesToCwd

/-- The parents of the session's directory, at most so many, up to one with a `.git` entry. -/
def seedParents (stack : IgnoreStack Gitignore) : Nat → Handle → List Name →
    Except IoError (IgnoreStack Gitignore)
  | 0, _, _ => .error
      ⟨.Other, "search ignore files cannot be loaded: git boundary is too deep"⟩
  | hops + 1, current, namesToCwd =>
      match openParentDirectory current, childNameInParent current with
      | .Parent parent, some name =>
          match probeGitEntry parent with
          | .error error => .error error
          | .ok none => seedParents stack hops parent (name :: namesToCwd)
          | .ok (some kind) => do
              let stack ← applyGitRoot crate stack parent kind (name :: namesToCwd)
              loadAncestorGitignores crate stack parent (name :: namesToCwd)
      | _, _ => .ok stack

def seedGitBoundary (stack : IgnoreStack Gitignore) (allowed : Handle) :
    Except IoError (IgnoreStack Gitignore) :=
  match probeGitEntry allowed with
  | .error error => .error error
  | .ok (some _) => .ok stack
  | .ok none => seedParents crate stack MAX_GIT_PARENT_HOPS allowed []

/-- At the root of a repository the rules of the one around it end. -/
def ingestGitRoot (stack : IgnoreStack Gitignore) (dir : Handle) :
    Except IoError (IgnoreStack Gitignore) :=
  match probeGitEntry dir with
  | .error error => .error error
  | .ok none => .ok stack
  | .ok (some kind) =>
      let stack := if stack.gitEnabled then { stack with gitHead := [] } else stack
      applyGitRoot crate stack dir kind []

def ingestGitignore (stack : IgnoreStack Gitignore) (dir : Handle) (allowedRel : RelPath) :
    Except IoError (IgnoreStack Gitignore) :=
  if stack.gitEnabled then pushFile crate stack dir dotGitignore allowedRel [] .Gitignore
  else .ok stack

def ingest (stack : IgnoreStack Gitignore) (dir : Handle) (allowedRel : RelPath) :
    Except IoError (IgnoreStack Gitignore) := do
  let stack ← ingestGitRoot crate stack dir
  let stack ← ingestGitignore crate stack dir allowedRel
  pushFile crate stack dir dotIgnore allowedRel [] .Ignore

/-! ## Verdicts -/

/-- The path a layer matches: relative to the directory its file belongs to. -/
def IgnoreLayer.suffix (layer : IgnoreLayer Gitignore) (allowedRel : RelPath) : Option RelPath :=
  if !layer.ancestorPrefix.isEmpty then some (layer.ancestorPrefix ++ allowedRel)
  else if layer.base.isEmpty then some allowedRel
  else allowedRel.dropPrefix? layer.base

def layerMatch (kind : IgnoreFileKind) (allowedRel : RelPath) (isDir : Bool) :
    List (IgnoreLayer Gitignore) → Match
  | [] => .None
  | layer :: parent =>
      if layer.kind = kind then
        match layer.suffix allowedRel with
        | none => layerMatch kind allowedRel isDir parent
        | some suffix =>
            (crate.matched layer.matcher suffix isDir).or
              (layerMatch kind allowedRel isDir parent)
      else layerMatch kind allowedRel isDir parent

def IgnoreStack.isIgnored (stack : IgnoreStack Gitignore) (targetRelative walkRel : RelPath)
    (isDir : Bool) : Bool :=
  let allowedRel := joinRel targetRelative walkRel
  (((layerMatch crate .Ignore allowedRel isDir stack.ignoreHead).or
    (layerMatch crate .Gitignore allowedRel isDir stack.gitHead)).or
      (layerMatch crate .GitExclude allowedRel isDir stack.gitHead)).isIgnore

def nameIsHidden (name : Name) : Bool :=
  name.bytes.head? = some 0x2E

end MCode.Tools
