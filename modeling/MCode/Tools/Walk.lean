import MCode.Lib.BestFirst
import MCode.Lib.SortedTable
import MCode.Tools.Ignore

/-!
# The walk of a search

The walk keeps one frame for each directory it has opened and not exhausted: the
sorted listing, the place of the next entry and the ignore stacks of the
directory.  A heap holds the path of the next entry of each frame.  The walk
takes the least path, asks the visitor about the entry unless it is to be
skipped, and opens it if it is a directory.

The budgets of a search are not part of this model.
-/

namespace MCode.Tools

open MCode.Lib
open MCode.Lib.BestFirst (popMin)

/-! ## Listings -/

structure ListedName where
  name : Name
  kind : Option EntryKind
  skip : Bool
  hiddenAttr : Bool

def isDot (name : Name) : Bool :=
  name.bytes = [0x2E] || name.bytes = [0x2E, 0x2E]

/-- What the enumeration says about an entry. -/
def nextPlatform (entry : Entry) : ListedName :=
  let (kind, skip) : Option EntryKind × Bool :=
    if entry.reported then
      match entry.node with
      | .Directory _ => (some .Directory, false)
      | .File _ => (some .File, false)
      | .Link => (none, true)
      | .Other => (none, true)
    else (none, false)
  ⟨entry.name, kind, skip, false⟩

def sortListing (entries : List ListedName) : List ListedName :=
  SortedTable.sortBy (fun entry => componentKey entry.name) entries

def collectListing (dir : Handle) : List ListedName :=
  sortListing ((dir.entries.filter fun entry => !isDot entry.name).map nextPlatform)

/-- The type of an entry that the enumeration has not reported; links and others have none. -/
def probeKind (parent : Handle) (name : Name) : Except IoError (Option EntryKind) :=
  match lookup parent.entries name with
  | none => .error ⟨.NotFound, "No such file or directory"⟩
  | some (.Directory _) => .ok (some .Directory)
  | some (.File _) => .ok (some .File)
  | some .Link => .ok none
  | some .Other => .ok none

/-! ## The walk -/

variable {Builder Gitignore : Type} (crate : IgnoreCrate Builder Gitignore)

/-- The root of a search. -/
structure ResolvedRoot (Gitignore : Type) where
  target : Opened
  targetRelative : RelPath
  ignores : IgnoreStack Gitignore
  hidden : Bool

structure WalkFrame (Gitignore : Type) where
  dir : Handle
  rel : RelPath
  ignores : IgnoreStack Gitignore
  listing : List ListedName
  next : Nat

/-- What the visitor is called with. -/
structure Visit where
  childRel : RelPath
  name : Name
  kind : EntryKind
  parentDir : Handle

inductive WalkState where
  | Continue
  | Skip
  | Quit
  deriving DecidableEq

structure WalkOutcome where
  calls : List Visit
  result : Except IoError Unit

structure Walk (Gitignore : Type) where
  frames : List (Option (WalkFrame Gitignore))
  heap : List (PathOrderKey ×ₗ Nat)
  calls : List Visit

def peekChildPath (frame : Option (WalkFrame Gitignore)) : Option PathOrderKey := do
  let frame ← frame
  let entry ← frame.listing[frame.next]?
  return PathOrderKey.fromPath (joinRel frame.rel [entry.name])

/-- Puts a frame back into the heap, or drops it when it has nothing left. -/
def requeueOrRelease (walk : Walk Gitignore) (frameIdx : Nat) : Walk Gitignore :=
  match peekChildPath (walk.frames[frameIdx]?.join) with
  | none => { walk with frames := walk.frames.set frameIdx none }
  | some path => { walk with heap := toLex (path, frameIdx) :: walk.heap }

/-- The type of an entry that is visited; nothing for one that is passed over. -/
def visitedKind (targetRelative : RelPath) (frame : WalkFrame Gitignore) (entry : ListedName) :
    Option EntryKind :=
  if entry.skip || isDot entry.name || nameIsHidden entry.name || entry.hiddenAttr then none
  else
    let kind :=
      match entry.kind with
      | some kind => some kind
      | none =>
          match probeKind frame.dir entry.name with
          | .ok kind => kind
          | .error _ => none
    kind.filter fun kind =>
      !frame.ignores.isIgnored crate targetRelative (joinRel frame.rel [entry.name])
        (kind = .Directory)

/-- The frame of a directory that has been visited, if it can be opened and lists anything. -/
def descendedFrame (targetRelative : RelPath) (frame : WalkFrame Gitignore) (entry : ListedName) :
    Except IoError (Option (WalkFrame Gitignore)) :=
  let childRel := joinRel frame.rel [entry.name]
  match openChildDirectory frame.dir entry.name with
  | .error _ => .ok none
  | .ok childDir =>
      match ingest crate frame.ignores childDir (joinRel targetRelative childRel) with
      | .error error =>
          let label := String.ofList (toPosix childRel)
          let message := error.message
          .error ⟨.Other, s!"search ignore files cannot be loaded at {label}: {message}"⟩
      | .ok childIgnores =>
          let listing := collectListing childDir
          if listing.isEmpty then .ok none
          else .ok (some ⟨childDir, childRel, childIgnores, listing, 0⟩)

def pushFrame (walk : Walk Gitignore) : Option (WalkFrame Gitignore) → Walk Gitignore
  | none => walk
  | some frame =>
      { walk with
        frames := walk.frames ++ [some frame]
        heap :=
          match peekChildPath (some frame) with
          | none => walk.heap
          | some path => toLex (path, walk.frames.length) :: walk.heap }

/-- What one turn of the loop comes to. -/
inductive Turn (Gitignore : Type) where
  | Next (walk : Walk Gitignore)
  | Done (outcome : WalkOutcome)

/-- The turn of an entry whose frame has been put back. -/
def visitEntry (targetRelative : RelPath) (visit : List Visit → WalkState) (walk : Walk Gitignore)
    (frame : WalkFrame Gitignore) (entry : ListedName) : Turn Gitignore :=
  match visitedKind crate targetRelative frame entry with
  | none => .Next walk
  | some kind =>
      let calls :=
        walk.calls ++ [⟨joinRel frame.rel [entry.name], entry.name, kind, frame.dir⟩]
      if visit calls = .Quit then .Done ⟨calls, .ok ()⟩
      else if kind ≠ .Directory then .Next { walk with calls := calls }
      else
        match descendedFrame crate targetRelative frame entry with
        | .error error => .Done ⟨calls, .error error⟩
        | .ok child => .Next (pushFrame { walk with calls := calls } child)

def walkTurn (targetRelative : RelPath) (visit : List Visit → WalkState) (walk : Walk Gitignore) :
    Turn Gitignore :=
  match popMin walk.heap with
  | none => .Done ⟨walk.calls, .ok ()⟩
  | some (least, heap) =>
      let frameIdx := (ofLex least).2
      match walk.frames[frameIdx]?.join with
      | none => .Next { walk with heap := heap }
      | some frame =>
          match frame.listing[frame.next]? with
          | none => .Next { walk with frames := walk.frames.set frameIdx none, heap := heap }
          | some entry =>
              let advanced := { frame with next := frame.next + 1 }
              let walk := requeueOrRelease
                { walk with frames := walk.frames.set frameIdx (some advanced), heap := heap }
                frameIdx
              visitEntry crate targetRelative visit walk frame entry

def walkLoop (targetRelative : RelPath) (visit : List Visit → WalkState) :
    Nat → Walk Gitignore → Option WalkOutcome
  | 0, _ => none
  | fuel + 1, walk =>
      match walkTurn crate targetRelative visit walk with
      | .Done outcome => some outcome
      | .Next walk => walkLoop targetRelative visit fuel walk

/-- The walk from a root that is a directory; there is nothing to walk below a file. -/
def walkRetainedTree (root : ResolvedRoot Gitignore) (visit : List Visit → WalkState)
    (fuel : Nat) : Option WalkOutcome :=
  match root.target with
  | .File _ => some ⟨[], .ok ()⟩
  | .Directory dir =>
      let listing := collectListing dir
      if listing.isEmpty then some ⟨[], .ok ()⟩
      else
        walkLoop crate root.targetRelative visit fuel
          (pushFrame ⟨[], [], []⟩ (some ⟨dir, [], root.ignores, listing, 0⟩))

end MCode.Tools
