import MCode.Tools.Names

/-!
# Directory trees and the handles on them

A directory tree holds directories, regular files, links and entries of other
types; a directory lists its entries in the order in which the system enumerates
them, and says for each whether the enumeration reports its type.  The names in
a directory differ.

A handle is an open directory.  It knows the directories it stands in, so that
its parent can be opened, and carries the proof that they belong together.
Links are never followed.
-/

namespace MCode.Tools

open MCode.Lib

inductive Node where
  | Directory (entries : List (Name × Bool × Node))
  | File (content : List UInt8)
  | Link
  | Other

/-- The name, whether the enumeration reports the type, and what has the name. -/
abbrev Entry := Name × Bool × Node

abbrev Entry.name (entry : Entry) : Name := entry.1
abbrev Entry.reported (entry : Entry) : Bool := entry.2.1
abbrev Entry.node (entry : Entry) : Node := entry.2.2

/-- In each directory of the tree the names differ. -/
inductive Node.Distinct : Node → Prop
  | Directory {entries : List Entry} (names : (entries.map Entry.name).Nodup)
      (nodes : ∀ entry ∈ entries, entry.node.Distinct) : Node.Distinct (.Directory entries)
  | File (content : List UInt8) : Node.Distinct (.File content)
  | Link : Node.Distinct .Link
  | Other : Node.Distinct .Other

/-- The node with the name. -/
def lookup (entries : List Entry) (name : Name) : Option Node :=
  (entries.find? fun entry => entry.name = name).map Entry.node

theorem lookup_mem {entries : List Entry} {name : Name} {node : Node}
    (h : lookup entries name = some node) : ∃ reported, (name, reported, node) ∈ entries := by
  obtain ⟨entry, hfound, rfl⟩ := Option.map_eq_some_iff.1 h
  have hname : entry.name = name := by simpa using List.find?_some hfound
  exact ⟨entry.reported, hname ▸ List.mem_of_find?_eq_some hfound⟩

theorem lookup_of_mem {entries : List Entry} (hnodup : (entries.map Entry.name).Nodup)
    {entry : Entry} (h : entry ∈ entries) : lookup entries entry.name = some entry.node := by
  induction entries with
  | nil => cases h
  | cons first entries ih =>
      rw [List.map_cons, List.nodup_cons] at hnodup
      cases h with
      | head => simp [lookup]
      | tail _ h =>
          have hne : first.name ≠ entry.name := by
            intro hsame
            exact hnodup.1 (hsame ▸ List.mem_map_of_mem h)
          rw [lookup, List.find?_cons_of_neg (by simpa using hne)]
          exact ih hnodup.2 h

/-! ## Handles -/

/-- The directory stands in the first of the others under its name, and so on up to the root. -/
def Linked (entries : List Entry) : List (Name × List Entry) → Prop
  | [] => (Node.Directory entries).Distinct
  | (name, parent) :: above => lookup parent name = some (.Directory entries) ∧ Linked parent above

structure Handle where
  entries : List Entry
  above : List (Name × List Entry)
  linked : Linked entries above

theorem Linked.distinct {entries : List Entry} {above : List (Name × List Entry)}
    (h : Linked entries above) : (Node.Directory entries).Distinct := by
  induction above generalizing entries with
  | nil => exact h
  | cons first above ih =>
      obtain ⟨hfound, habove⟩ := h
      obtain ⟨reported, hmem⟩ := lookup_mem hfound
      cases ih habove with
      | Directory _ hnodes => exact hnodes _ hmem

theorem Handle.names_nodup (dir : Handle) : (dir.entries.map Entry.name).Nodup := by
  cases dir.linked.distinct with
  | Directory hnames _ => exact hnames

inductive EntryKind where
  | File
  | Directory
  deriving DecidableEq

inductive ErrorKind where
  | NotFound
  | NotADirectory
  | InvalidData
  | InvalidInput
  | Other
  deriving DecidableEq

structure IoError where
  kind : ErrorKind
  message : String
  deriving DecidableEq

def isNotFound (error : IoError) : Bool :=
  error.kind = .NotFound

/-- A child that has been opened: a directory, or a file with what can be read from it. -/
inductive Opened where
  | Directory (dir : Handle)
  | File (content : List UInt8)

/-- Opens a directory that is found under the name. -/
def Handle.descend (dir : Handle) (name : Name) (entries : List Entry)
    (h : lookup dir.entries name = some (.Directory entries)) : Handle where
  entries := entries
  above := (name, dir.entries) :: dir.above
  linked := ⟨h, dir.linked⟩

def openChildFile (parent : Handle) (name : Name) (expected : Option EntryKind) :
    Except IoError Opened :=
  match h : lookup parent.entries name with
  | none => .error ⟨.NotFound, "No such file or directory"⟩
  | some .Link => .error ⟨.InvalidInput, "symlink traversal is not permitted"⟩
  | some .Other =>
      if expected = some .Directory then .error ⟨.NotADirectory, "Not a directory"⟩
      else .error ⟨.InvalidData, "opened object is neither a regular file nor a directory"⟩
  | some (.File content) =>
      if expected = some .Directory then .error ⟨.NotADirectory, "Not a directory"⟩
      else .ok (.File content)
  | some (.Directory entries) =>
      if expected = some .File then
        .error ⟨.InvalidData, "walked object type or identity changed before it was opened"⟩
      else .ok (.Directory (parent.descend name entries h))

/-- A child that is expected to be a directory. -/
def openChildDirectory (parent : Handle) (name : Name) : Except IoError Handle := do
  match ← openChildFile parent name (some .Directory) with
  | .Directory dir => .ok dir
  | .File _ => .error ⟨.NotADirectory, "Not a directory"⟩

inductive ParentDirectory where
  | FilesystemRoot
  | Parent (dir : Handle)

def openParentDirectory (dir : Handle) : ParentDirectory :=
  match dir with
  | ⟨_, [], _⟩ => .FilesystemRoot
  | ⟨_, (_, parent) :: above, linked⟩ => .Parent ⟨parent, above, linked.2⟩

/-- The name under which an opened directory stands in its parent. -/
def childNameInParent (child : Handle) : Option Name :=
  child.above.head?.map Prod.fst

/-- The root of the file system the directory is in. -/
def rootOf : (entries : List Entry) → (above : List (Name × List Entry)) →
    Linked entries above → Handle
  | entries, [], linked => ⟨entries, [], linked⟩
  | _, (_, parent) :: above, linked => rootOf parent above linked.2

def Handle.root (dir : Handle) : Handle :=
  rootOf dir.entries dir.above dir.linked

theorem openChildFile_directory {parent : Handle} {name : Name} {entries : List Entry}
    {expected : Option EntryKind} (hexpected : expected ≠ some .File)
    (h : lookup parent.entries name = some (.Directory entries)) :
    openChildFile parent name expected = .ok (.Directory (parent.descend name entries h)) := by
  unfold openChildFile
  split
  case h_5 other hother =>
    obtain rfl : entries = other := by
      rw [h] at hother
      injection hother with hnode
      injection hnode
    rw [if_neg hexpected]
  all_goals
    rename_i hother
    rw [h] at hother
    cases hother

theorem openChildFile_directory_inv {parent : Handle} {name : Name} {expected : Option EntryKind}
    {dir : Handle} (h : openChildFile parent name expected = .ok (.Directory dir)) :
    ∃ entries, ∃ hfound : lookup parent.entries name = some (.Directory entries),
      dir = parent.descend name entries hfound := by
  unfold openChildFile at h
  split at h
  case h_5 entries hfound =>
    split at h
    · cases h
    · injection h with h
      injection h with h
      exact ⟨entries, hfound, h.symm⟩
  case h_3 => split at h <;> cases h
  case h_4 => split at h <;> cases h
  all_goals cases h

/-- A child is opened as a directory if and only if it is one. -/
theorem openChildDirectory_ok {parent : Handle} {name : Name} {dir : Handle} :
    openChildDirectory parent name = .ok dir ↔
      ∃ entries, ∃ hfound : lookup parent.entries name = some (.Directory entries),
        dir = parent.descend name entries hfound := by
  constructor
  · intro h
    cases hopen : openChildFile parent name (some .Directory) with
    | error error =>
        rw [openChildDirectory, hopen] at h
        cases h
    | ok opened =>
        rw [openChildDirectory, hopen] at h
        cases opened with
        | File content => cases h
        | Directory other =>
            injection h with h
            subst h
            exact openChildFile_directory_inv hopen
  · rintro ⟨entries, hfound, rfl⟩
    rw [openChildDirectory, openChildFile_directory (by simp) hfound]
    rfl

theorem openChildDirectory_found {parent : Handle} {name : Name} {entries : List Entry}
    (h : lookup parent.entries name = some (.Directory entries)) :
    openChildDirectory parent name = .ok (parent.descend name entries h) :=
  openChildDirectory_ok.2 ⟨entries, h, rfl⟩

/-! ## Reading -/

/-- The most that is read of an ignore file. -/
def IGNORE_FILE_MAX_BYTES : Nat := 1024 * 1024

/-- The text of a file of the directory; nothing if there is no such entry. -/
def readChildText (parent : Handle) (name : Name) : Except IoError (Option (List Char)) :=
  match openChildFile parent name (some .File) with
  | .error error => if isNotFound error then .ok none else .error error
  | .ok (.Directory _) => .error ⟨.InvalidData, "is a directory"⟩
  | .ok (.File content) =>
      if IGNORE_FILE_MAX_BYTES < content.length then
        .error ⟨.Other, "ignore file exceeds size limit"⟩
      else
        match Utf8.decode content with
        | some text => .ok (some text)
        | none => .error ⟨.Other, "ignore file is not valid UTF-8"⟩

end MCode.Tools
