import MCode.Tools.Names
import MCode.Tools.Stream

/-!
# Binding a file

`prepare_file` of `mcode-tools/src/builtin/fs_io`, on Unix: a path is walked
from the session cwd one component at a time, each component is opened without
following links, and its spelling on disk is proved by going through its parent
directory: exactly one entry has the identity that was opened.

A file system is a tree of nodes that nothing changes in the meantime, so the
checks behind an open repeat those before it and are left out.  How the system
compares a name with an entry (case and all) is a parameter.
-/

namespace MCode.Files

open MCode.Lib MCode.Tools

/-! ## The file system -/

/-- `rustix::fs::FileType`. -/
inductive FileType where
  | RegularFile
  | Directory
  | Symlink
  | Fifo
  | Socket
  | CharacterDevice
  | BlockDevice
  | Unknown
  deriving DecidableEq

/-- `st_dev` and `st_ino`. -/
structure FileIdentity where
  device : Nat
  inode : Nat
  deriving DecidableEq

/-- What `stat` reports. -/
structure Stat where
  fileType : FileType
  identity : FileIdentity
  size : Nat
  mtimeSecs : Int
  mtimeNsecs : Nat
  nlink : Nat
  mode : Nat
  uid : Nat
  gid : Nat
  deriving DecidableEq

/-- A node, with the entries that it lists where it is a directory. -/
inductive Node where
  | node (stat : Stat) (entries : List (Name × Node))

def Node.stat : Node → Stat
  | .node stat _ => stat

def Node.entries : Node → List (Name × Node)
  | .node _ entries => entries

/-- How the system compares a name with the name of an entry. -/
structure NameRule where
  same : Name → Name → Bool
  refl : ∀ name, same name name = true

/-- Names are compared byte by byte. -/
def NameRule.exact : NameRule := ⟨fun name other => name = other, fun _ => by simp⟩

def NameRule.lookup (rule : NameRule) (parent : Node) (name : Name) : Option (Name × Node) :=
  parent.entries.find? fun entry => rule.same name entry.1

/-! ## Errors -/

inductive ErrorKind where
  | NotFound
  | InvalidInput
  | InvalidData
  | Interrupted
  | Other
  deriving DecidableEq

structure IoError where
  kind : ErrorKind
  message : String
  deriving DecidableEq

def checkCancel (cancel : Bool) : Except IoError Unit :=
  if cancel then .error ⟨.Interrupted, "file operation cancelled before completion"⟩ else .ok ()

def mapOpenError (raw : String) (error : IoError) : ToolError :=
  if error.kind = .Interrupted then .Execution error.message
  else if error.kind = .InvalidInput ∨ error.kind = .InvalidData then
    .InvalidArgs ("path escapes the session cwd, crosses a link, or is not a regular file: " ++ raw)
  else if error.kind = .NotFound then
    .Execution ("file does not exist or is inaccessible: " ++ raw ++ ": " ++ error.message)
  else .Execution ("file path is inaccessible: " ++ raw ++ ": " ++ error.message)

/-! ## Paths -/

/-- The bytes of a component, which may be none of an entry. -/
abbrev OsStr := List UInt8

/-- `std::path::Component` on Unix. -/
inductive Component where
  | RootDir
  | CurDir
  | ParentDir
  | Normal (name : OsStr)

/-- `normalize_anchored_relative`, onto the components that are out already. -/
def normalizeAnchoredRelative : List OsStr → List Component → Option (List OsStr)
  | out, [] => some out
  | out, .CurDir :: path => normalizeAnchoredRelative out path
  | out, .Normal part :: path => normalizeAnchoredRelative (out ++ [part]) path
  | out, .ParentDir :: path =>
      if out.isEmpty then none else normalizeAnchoredRelative out.dropLast path
  | _, .RootDir :: _ => none

/-- `validate_component_name`, with the name that it lets through. -/
def validateComponentName (name : OsStr) : Except IoError Name :=
  if h : name ≠ [] ∧ name.contains 0x2F = false ∧ name.contains 0 = false then
    if name = [0x2E] ∨ name = [0x2E, 0x2E] then
      .error ⟨.InvalidInput, "walked entry is not a single path component"⟩
    else .ok ⟨name, h.1, by simpa using h.2.1, by simpa using h.2.2⟩
  else .error ⟨.InvalidInput, "walked entry is not a single path component"⟩

/-- `posix_relative_key`. -/
def posixRelativeKey (relative : List OsStr) : List Char :=
  if relative.isEmpty then ['.']
  else relative.foldl
    (fun out component =>
      (if !out.isEmpty && out.getLast? != some '/' then out ++ ['/'] else out) ++
        Utf8.lossy component)
    []

/-! ## Opening a child -/

inductive FileKind where
  | File
  | Directory
  deriving DecidableEq

structure FileMeta where
  identity : FileIdentity
  kind : FileKind
  size : Nat
  mtimeSecs : Int
  mtimeNsecs : Nat
  nlink : Nat
  unixMode : Nat
  unixUid : Nat
  unixGid : Nat
  deriving DecidableEq

def Stat.meta (stat : Stat) (kind : FileKind) : FileMeta :=
  ⟨stat.identity, kind, stat.size, stat.mtimeSecs, stat.mtimeNsecs, stat.nlink, stat.mode,
    stat.uid, stat.gid⟩

def metaFromStat (stat : Stat) : Except IoError FileMeta :=
  match stat.fileType with
  | .RegularFile => .ok (stat.meta .File)
  | .Directory => .ok (stat.meta .Directory)
  | .Symlink => .error ⟨.InvalidInput, "symlink traversal is not permitted"⟩
  | .Fifo => .error ⟨.InvalidInput, "FIFO targets are not permitted"⟩
  | .Socket => .error ⟨.InvalidInput, "socket targets are not permitted"⟩
  | .CharacterDevice | .BlockDevice =>
      .error ⟨.InvalidInput, "device targets are not permitted"⟩
  | .Unknown =>
      .error ⟨.InvalidData, "opened object is neither a regular file nor a directory"⟩

inductive ChildOpen where
  | Directory
  | ExistingFile
  | Probe
  deriving DecidableEq

structure OpenedChild where
  file : Node
  fileMeta : FileMeta

def openChild (rule : NameRule) (parent : Node) (name : OsStr) (how : ChildOpen) :
    Except IoError OpenedChild := do
  let name ← validateComponentName name
  match rule.lookup parent name with
  | none => .error ⟨.NotFound, "path component does not exist"⟩
  | some (_, child) =>
      let named ← metaFromStat child.stat
      if parent.stat.identity.device ≠ named.identity.device then
        .error ⟨.InvalidInput, "mount traversal is not permitted"⟩
      else if how = .Directory ∧ named.kind ≠ .Directory then
        .error ⟨.InvalidData, "path component is not a directory"⟩
      else if how = .ExistingFile ∧ named.kind ≠ .File then
        .error ⟨.InvalidData, "path is not a regular file"⟩
      else .ok ⟨child, named⟩

/-! ## The spelling on disk -/

def MAX_DIR_WIDTH : Nat := 16384
def MAX_WALK_DEPTH : Nat := 256

/-- What reading a directory yields. -/
inductive Listed where
  | Dot
  | DotDot
  | Entry (name : Name)

def readFrom (parent : Node) : List Listed :=
  .Dot :: .DotDot :: parent.entries.map fun entry => .Entry entry.1

/-- `statat` of a listed name, without following a link. -/
def NameRule.statat (rule : NameRule) (parent : Node) (name : Name) : Option Stat :=
  (rule.lookup parent name).map fun entry => entry.2.stat

/-- The loop of `unique_component_name`. -/
def uniqueLoop (rule : NameRule) (cancel : Bool) (parent : Node) (want : FileIdentity) :
    List Listed → Option Name → Nat → Except IoError Name
  | [], found, _ =>
      match found with
      | some name => .ok name
      | none => .error ⟨.NotFound, "opened object has no unique on-disk file name"⟩
  | entry :: entries, found, scanned => do
      checkCancel cancel
      match entry with
      | .Dot | .DotDot => uniqueLoop rule cancel parent want entries found scanned
      | .Entry name =>
          if MAX_DIR_WIDTH < scanned + 1 then
            .error ⟨.Other, "directory is too wide to prove unique on-disk component spelling"⟩
          else
            match rule.statat parent name with
            | none => uniqueLoop rule cancel parent want entries found (scanned + 1)
            | some stat =>
                let fileMeta ← metaFromStat stat
                if fileMeta.identity = want then
                  if found.isSome then
                    .error ⟨.InvalidData, "multiple directory entries share the opened identity"⟩
                  else uniqueLoop rule cancel parent want entries (some name) (scanned + 1)
                else uniqueLoop rule cancel parent want entries found (scanned + 1)

def uniqueComponentName (rule : NameRule) (cancel : Bool) (parent : Node) (want : FileIdentity) :
    Except IoError Name :=
  uniqueLoop rule cancel parent want (readFrom parent) none 0

/-! ## The walk -/

inductive FileAccess where
  | ExistingContent
  | ExistingOrMissing
  deriving DecidableEq

inductive PreparedInner where
  | Existing (parent file : Node) (name : Name) (fileMeta : FileMeta) (key : List Char)
  | Missing (parent : Node) (remaining : List OsStr) (key : List Char)
      (parentIdentity : FileIdentity)

structure PreparedFile where
  key : List Char
  access : FileAccess
  inner : PreparedInner

def walkPrepare (rule : NameRule) (raw : String) (cancel : Bool) (access : FileAccess) :
    Node → List OsStr → List OsStr → Except ToolError PreparedFile
  | _, _, [] => .error (.InvalidArgs ("path must name a file inside the session cwd: " ++ raw))
  | parent, proven, name :: rest => do
      (checkCancel cancel).mapError fun error => .Execution error.message
      let _ ← (validateComponentName name).mapError (mapOpenError raw)
      match openChild rule parent name (if rest.isEmpty then .Probe else .Directory) with
      | .ok opened =>
          if rest.isEmpty then
            if opened.fileMeta.kind ≠ .File then
              .error (.InvalidArgs ("path is not a regular file: " ++ raw))
            else
              let exact ← (uniqueComponentName rule cancel parent
                opened.fileMeta.identity).mapError (mapOpenError raw)
              let key := posixRelativeKey (proven ++ [exact.bytes])
              .ok ⟨key, access, .Existing parent opened.file exact opened.fileMeta key⟩
          else if opened.fileMeta.kind ≠ .Directory then
            .error (.InvalidArgs
              ("path escapes the session cwd, crosses a link, or is not a regular file: " ++ raw))
          else
            let exact ← (uniqueComponentName rule cancel parent
              opened.fileMeta.identity).mapError (mapOpenError raw)
            walkPrepare rule raw cancel access opened.file (proven ++ [exact.bytes]) rest
      | .error error =>
          if error.kind = .NotFound then
            if access ≠ .ExistingOrMissing then .error (mapOpenError raw error)
            else
              let key := posixRelativeKey (proven ++ name :: rest)
              .ok ⟨key, access, .Missing parent (name :: rest) key parent.stat.identity⟩
          else .error (mapOpenError raw error)

/-- `open_allowed_root`. -/
def openAllowedRoot (cwd : Node) : Except IoError Node := do
  let fileMeta ← metaFromStat cwd.stat
  if fileMeta.kind ≠ .Directory then .error ⟨.InvalidInput, "session cwd is not a directory"⟩
  else .ok cwd

/-- `prepare_file` for a relative path; `cwd` is what the absolute cwd names. -/
def prepareFile (rule : NameRule) (cwd : Node) (path : List Component) (raw : String)
    (cancel : Bool) (access : FileAccess) : Except ToolError PreparedFile := do
  (checkCancel cancel).mapError fun error => .Execution error.message
  let allowed ← (openAllowedRoot cwd).mapError fun error =>
    .Execution ("session cwd is not accessible: " ++ error.message)
  match normalizeAnchoredRelative [] path with
  | none => .error (.InvalidArgs ("path escapes the session cwd: " ++ raw))
  | some components =>
      if MAX_WALK_DEPTH < components.length then
        .error (.InvalidArgs "path exceeds the maximum component depth")
      else if components.isEmpty then
        .error (.InvalidArgs "path must name a file inside the session cwd")
      else walkPrepare rule raw cancel access allowed [] components

end MCode.Files
