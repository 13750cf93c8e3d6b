import MCode.Tools.Walk

/-!
# The walk is a sorted traversal

The places of a walk, an entry in its directory each, are a forest: below a
visited directory are the entries of its listing.  The walk is a best-first
traversal of this forest.  Its frontier is what its frames have not listed yet,
and its heap holds the least place of each frame.
-/

namespace MCode.Tools

open MCode.Lib
open MCode.Lib.BestFirst (Forest Run popMin)

variable {Builder Gitignore : Type} (crate : IgnoreCrate Builder Gitignore)

/-! ## Places -/

/-- An entry in its directory. -/
structure Place (Gitignore : Type) where
  dir : Handle
  rel : RelPath
  ignores : IgnoreStack Gitignore
  entry : ListedName

namespace Place

def frame (place : Place Gitignore) : WalkFrame Gitignore :=
  ⟨place.dir, place.rel, place.ignores, [], 0⟩

def path (place : Place Gitignore) : RelPath :=
  place.rel ++ [place.entry.name]

def key (place : Place Gitignore) : PathOrderKey :=
  PathOrderKey.fromPath place.path

end Place

def placeAt (frame : WalkFrame Gitignore) (entry : ListedName) : Place Gitignore :=
  ⟨frame.dir, frame.rel, frame.ignores, entry⟩

/-- The places a frame has not come to yet. -/
def places (frame : WalkFrame Gitignore) : List (Place Gitignore) :=
  (frame.listing.drop frame.next).map (placeAt frame)

def pending : Option (WalkFrame Gitignore) → List (Place Gitignore)
  | none => []
  | some frame => places frame

namespace Place

/-- The type of the place if it is visited. -/
def kind (targetRelative : RelPath) (place : Place Gitignore) : Option EntryKind :=
  visitedKind crate targetRelative place.frame place.entry

/-- The places of a directory that is visited. -/
def children (targetRelative : RelPath) (place : Place Gitignore) : List (Place Gitignore) :=
  if place.kind crate targetRelative = some .Directory then
    match descendedFrame crate targetRelative place.frame place.entry with
    | .ok frame => pending frame
    | .error _ => []
  else []

/-- How much the walk can find from the place on. -/
noncomputable def weight (place : Place Gitignore) : Nat :=
  sizeOf (lookup place.dir.entries place.entry.name)

end Place

theorem peekChildPath_eq (frame : Option (WalkFrame Gitignore)) :
    peekChildPath frame = (pending frame).head?.map Place.key := by
  cases frame with
  | none => rfl
  | some frame =>
      rw [pending, places, List.head?_map, List.head?_drop]
      cases hentry : frame.listing[frame.next]? with
      | none => simp [peekChildPath, hentry]
      | some entry => simp [peekChildPath, hentry, placeAt, Place.key, Place.path]

/-! ## Listings -/

theorem componentKeys_nodup (dir : Handle) :
    (((dir.entries.filter fun entry => !isDot entry.name).map nextPlatform).map
      fun entry => componentKey entry.name).Nodup := by
  have hnames : ((dir.entries.filter fun entry => !isDot entry.name).map Entry.name).Nodup :=
    dir.names_nodup.sublist (List.filter_sublist.map _)
  have hkeys := hnames.map fun name other h => componentKey_injective h
  rw [List.map_map] at hkeys ⊢
  exact hkeys

/-- The places of a directory are sorted. -/
theorem places_sorted (dir : Handle) (rel : RelPath) (ignores : IgnoreStack Gitignore) :
    (places ⟨dir, rel, ignores, collectListing dir, 0⟩).Pairwise fun a b => a.key < b.key := by
  have hsorted := SortedTable.sortBy_sorted (componentKeys_nodup dir)
  rw [SortedTable.Sorted, List.pairwise_map] at hsorted
  rw [places, List.drop_zero, List.pairwise_map]
  exact hsorted.imp fun h => fromPath_siblings rel h

theorem mem_collectListing {dir : Handle} {entry : ListedName} :
    entry ∈ collectListing dir ↔
      ∃ listed ∈ dir.entries, isDot listed.name = false ∧ nextPlatform listed = entry := by
  rw [collectListing, sortListing, (SortedTable.sortBy_perm _ _).mem_iff, List.mem_map]
  simp [and_assoc]

theorem sum_sizes (entries : List Entry) :
    (entries.map fun entry => 1 + sizeOf entry.node).sum < sizeOf entries := by
  induction entries with
  | nil => simp
  | cons first entries ih =>
      obtain ⟨name, reported, node⟩ := first
      have hnode : sizeOf (Entry.node (name, reported, node)) = sizeOf node := rfl
      simp only [List.map_cons, List.sum_cons, List.cons.sizeOf_spec, Prod.mk.sizeOf_spec, hnode]
      omega

/-- The entries of a directory weigh less than the directory. -/
theorem places_lighter (dir : Handle) (rel : RelPath) (ignores : IgnoreStack Gitignore) :
    ((places ⟨dir, rel, ignores, collectListing dir, 0⟩).map Place.weight).sum <
      sizeOf dir.entries := by
  have hmap : (places ⟨dir, rel, ignores, collectListing dir, 0⟩).map Place.weight =
      (collectListing dir).map fun entry => sizeOf (lookup dir.entries entry.name) := by
    rw [places, List.drop_zero, List.map_map]
    rfl
  have hperm := (SortedTable.sortBy_perm (fun entry => componentKey entry.name)
    ((dir.entries.filter fun entry => !isDot entry.name).map nextPlatform)).map
      fun entry => sizeOf (lookup dir.entries entry.name)
  rw [hmap, collectListing, sortListing, hperm.sum_eq, List.map_map]
  refine lt_of_le_of_lt ?_ (sum_sizes dir.entries)
  have hsub := (List.filter_sublist (p := fun entry => !isDot entry.name) (l := dir.entries)).map
    fun entry => sizeOf (lookup dir.entries entry.name)
  refine (List.Sublist.sum_le_sum hsub fun _ _ => Nat.zero_le _).trans ?_
  apply List.sum_le_sum
  intro entry hentry
  rw [lookup_of_mem dir.names_nodup hentry, Option.some.sizeOf_spec]

/-! ## The forest -/

theorem descendedFrame_ok {targetRelative : RelPath} {frame child : WalkFrame Gitignore}
    {entry : ListedName} (h : descendedFrame crate targetRelative frame entry = .ok (some child)) :
    ∃ dir ignores, openChildDirectory frame.dir entry.name = .ok dir ∧
      ingest crate frame.ignores dir (targetRelative ++ (frame.rel ++ [entry.name])) =
        .ok ignores ∧
      child = ⟨dir, frame.rel ++ [entry.name], ignores, collectListing dir, 0⟩ := by
  unfold descendedFrame at h
  split at h
  · cases h
  · rename_i dir hopen
    simp only [joinRel_eq] at h
    cases hingest : ingest crate frame.ignores dir
        (targetRelative ++ (frame.rel ++ [entry.name])) with
    | error error =>
        rw [hingest] at h
        cases h
    | ok ignores =>
        rw [hingest] at h
        by_cases hempty : (collectListing dir).isEmpty = true
        · simp [hempty] at h
        · simp only [hempty] at h
          injection h with h
          injection h with h
          exact ⟨dir, ignores, hopen, hingest, h.symm⟩

/-- The children of a place are the places of the directory it is. -/
theorem Place.children_eq (targetRelative : RelPath) (place : Place Gitignore) :
    place.children crate targetRelative = [] ∨
      ∃ entries, ∃ hfound : lookup place.dir.entries place.entry.name = some (.Directory entries),
      ∃ ignores, place.children crate targetRelative =
        places ⟨place.dir.descend place.entry.name entries hfound, place.path, ignores,
          collectListing (place.dir.descend place.entry.name entries hfound), 0⟩ := by
  by_cases hkind : place.kind crate targetRelative = some .Directory
  · rw [Place.children, if_pos hkind]
    cases hframe : descendedFrame crate targetRelative place.frame place.entry with
    | error error => exact Or.inl rfl
    | ok child =>
        cases child with
        | none => exact Or.inl rfl
        | some child =>
            obtain ⟨dir, ignores, hopen, -, rfl⟩ := descendedFrame_ok crate hframe
            obtain ⟨entries, hfound, rfl⟩ := openChildDirectory_ok.1 hopen
            exact Or.inr ⟨entries, hfound, ignores, rfl⟩
  · rw [Place.children, if_neg hkind]
    exact Or.inl rfl

theorem mem_places {frame : WalkFrame Gitignore} {place : Place Gitignore}
    (h : place ∈ places frame) : place.rel = frame.rel := by
  obtain ⟨entry, -, rfl⟩ := List.mem_map.1 h
  rfl

theorem Place.rel_of_mem_children {targetRelative : RelPath} {place child : Place Gitignore}
    (h : child ∈ place.children crate targetRelative) : child.rel = place.path := by
  cases place.children_eq crate targetRelative with
  | inl hnil =>
      rw [hnil] at h
      cases h
  | inr hchildren =>
      obtain ⟨entries, hfound, ignores, heq⟩ := hchildren
      rw [heq] at h
      exact mem_places h

noncomputable def walkForest (targetRelative : RelPath) :
    Forest (Place Gitignore) PathOrderKey where
  key := Place.key
  children := Place.children crate targetRelative
  weight := Place.weight
  ordered := by
    intro place
    cases place.children_eq crate targetRelative with
    | inl hnil =>
        rw [hnil]
        exact List.Pairwise.nil
    | inr hchildren =>
        obtain ⟨entries, hfound, ignores, heq⟩ := hchildren
        rw [heq]
        exact places_sorted _ _ _
  below := by
    intro place child hchild
    have hpath : child.path = place.path ++ [child.entry.name] := by
      rw [Place.path, Place.rel_of_mem_children crate hchild]
    rw [Place.key, Place.key, hpath]
    exact fromPath_below place.path child.entry.name
  parent := by
    intro a b c hc d hd hsame
    have hpath := fromPath_injective hsame
    rw [Place.path, Place.path, Place.rel_of_mem_children crate hc,
      Place.rel_of_mem_children crate hd] at hpath
    rw [Place.key, Place.key, (List.append_inj' hpath rfl).1]
  lighter := by
    intro place
    cases place.children_eq crate targetRelative with
    | inl hnil =>
        rw [hnil, Place.weight]
        cases lookup place.dir.entries place.entry.name with
        | none => simp
        | some node =>
            rw [Option.some.sizeOf_spec]
            exact Nat.lt_of_lt_of_le Nat.zero_lt_one (Nat.le_add_right 1 _)
    | inr hchildren =>
        obtain ⟨entries, hfound, ignores, heq⟩ := hchildren
        rw [heq, Place.weight, hfound]
        refine (places_lighter _ _ _).trans ?_
        simp only [Handle.descend, Option.some.sizeOf_spec, Node.Directory.sizeOf_spec]
        omega

/-! ## The heap and the frames -/

/-- The least place of each frame, with the index of the frame. -/
def headsFrom : Nat → List (Option (WalkFrame Gitignore)) → List (PathOrderKey ×ₗ Nat)
  | _, [] => []
  | index, frame :: frames =>
      ((peekChildPath frame).map fun path => toLex (path, index)).toList ++
        headsFrom (index + 1) frames

theorem headsFrom_append (index : Nat) (before after : List (Option (WalkFrame Gitignore))) :
    headsFrom index (before ++ after) =
      headsFrom index before ++ headsFrom (index + before.length) after := by
  induction before generalizing index with
  | nil => rfl
  | cons frame before ih =>
      rw [List.cons_append, headsFrom, headsFrom, ih, List.append_assoc, List.length_cons,
        Nat.add_assoc, Nat.add_comm 1]

theorem mem_headsFrom {index : Nat} {frames : List (Option (WalkFrame Gitignore))}
    {least : PathOrderKey ×ₗ Nat} (h : least ∈ headsFrom index frames) :
    ∃ before frame after, frames = before ++ some frame :: after ∧
      (ofLex least).2 = index + before.length ∧
      peekChildPath (some frame) = some (ofLex least).1 := by
  induction frames generalizing index with
  | nil => cases h
  | cons frame frames ih =>
      rw [headsFrom, List.mem_append, Option.mem_toList, Option.map_eq_some_iff] at h
      cases h with
      | inl hhead =>
          obtain ⟨path, hpath, rfl⟩ := hhead
          cases frame with
          | none => cases hpath
          | some frame => exact ⟨[], frame, frames, rfl, rfl, hpath⟩
      | inr hrest =>
          obtain ⟨before, other, after, rfl, hindex, hpath⟩ := ih hrest
          refine ⟨frame :: before, other, after, rfl, ?_, hpath⟩
          rw [hindex, List.length_cons]
          omega

theorem head_mem (index : Nat) {frames : List (Option (WalkFrame Gitignore))}
    {frame : Option (WalkFrame Gitignore)} {path : PathOrderKey} (hframe : frame ∈ frames)
    (hpath : peekChildPath frame = some path) :
    ∃ other, toLex (path, other) ∈ headsFrom index frames := by
  induction frames generalizing index with
  | nil => cases hframe
  | cons first frames ih =>
      rw [headsFrom]
      cases hframe with
      | head => exact ⟨index, List.mem_append_left _ (by simp [hpath])⟩
      | tail _ hframe =>
          obtain ⟨other, hother⟩ := ih (index + 1) hframe
          exact ⟨other, List.mem_append_right _ hother⟩

/-- What the frames of the walk have not come to yet. -/
def frontier (walk : Walk Gitignore) : Multiset (Place Gitignore) :=
  ↑(walk.frames.map pending).flatten

/-- The heap holds the least place of each frame, and the frames are sorted. -/
structure Steady (walk : Walk Gitignore) : Prop where
  balanced : walk.heap.Perm (headsFrom 0 walk.frames)
  sorted : ∀ l ∈ walk.frames.map pending, l.Pairwise fun a b => a.key < b.key

/-- Putting a frame back restores the balance and leaves what is pending as it is. -/
theorem requeueOrRelease_steady (walk : Walk Gitignore) {frame : WalkFrame Gitignore}
    {before after : List (Option (WalkFrame Gitignore))}
    (hframes : walk.frames = before ++ some frame :: after)
    (hheap : walk.heap.Perm (headsFrom 0 before ++ headsFrom (before.length + 1) after)) :
    (requeueOrRelease walk before.length).heap.Perm
        (headsFrom 0 (requeueOrRelease walk before.length).frames) ∧
      (requeueOrRelease walk before.length).frames.map pending = walk.frames.map pending ∧
      (requeueOrRelease walk before.length).calls = walk.calls := by
  have hget : walk.frames[before.length]?.join = some frame := by simp [hframes]
  unfold requeueOrRelease
  rw [hget]
  cases hpeek : peekChildPath (some frame) with
  | none =>
      have hpending : pending (some frame) = [] := by
        rw [peekChildPath_eq] at hpeek
        simpa using hpeek
      have hset : walk.frames.set before.length none = before ++ none :: after := by
        simp [hframes]
      refine ⟨?_, ?_, rfl⟩
      · show walk.heap.Perm (headsFrom 0 (walk.frames.set before.length none))
        rw [hset, headsFrom_append, headsFrom, Nat.zero_add]
        exact hheap
      · show (walk.frames.set before.length none).map pending = _
        rw [hset, hframes, List.map_append, List.map_append, List.map_cons, List.map_cons,
          hpending]
        rfl
  | some path =>
      refine ⟨?_, rfl, rfl⟩
      show (toLex (path, before.length) :: walk.heap).Perm (headsFrom 0 walk.frames)
      rw [hframes, headsFrom_append, headsFrom, Nat.zero_add, hpeek]
      exact (hheap.cons _).trans List.perm_middle.symm

theorem pushFrame_steady {walk : Walk Gitignore} (h : Steady walk)
    (child : Option (WalkFrame Gitignore))
    (hsorted : (pending child).Pairwise fun a b => a.key < b.key) :
    Steady (pushFrame walk child) ∧
      frontier (pushFrame walk child) = frontier walk + ↑(pending child) := by
  cases child with
  | none => exact ⟨h, (add_zero _).symm⟩
  | some frame =>
      have hheads : headsFrom 0 (walk.frames ++ [some frame]) =
          headsFrom 0 walk.frames ++
            ((peekChildPath (some frame)).map fun path =>
              toLex (path, walk.frames.length)).toList := by
        rw [headsFrom_append, headsFrom, headsFrom, List.append_nil, Nat.zero_add]
      refine ⟨⟨?_, ?_⟩, ?_⟩
      · show List.Perm _ (headsFrom 0 (walk.frames ++ [some frame]))
        rw [hheads, pushFrame]
        cases peekChildPath (some frame) with
        | none => simpa using h.balanced
        | some path => exact (h.balanced.cons _).trans (List.perm_append_singleton _ _).symm
      · intro l hl
        rw [pushFrame, List.map_append, List.mem_append, List.map_singleton,
          List.mem_singleton] at hl
        cases hl with
        | inl hold => exact h.sorted l hold
        | inr hnew => exact hnew ▸ hsorted
      · simp [frontier, pushFrame]

/-- Taking the entry of a frame leaves the places behind it. -/
theorem places_advance {frame : WalkFrame Gitignore} {entry : ListedName}
    (h : frame.listing[frame.next]? = some entry) :
    places frame = placeAt frame entry :: places { frame with next := frame.next + 1 } := by
  obtain ⟨hlt, hentry⟩ := List.getElem?_eq_some_iff.1 h
  rw [places, List.drop_eq_getElem_cons hlt, List.map_cons, hentry]
  rfl

/-- The least element of the heap stands for the least place of all. -/
theorem pop_place {walk : Walk Gitignore} (h : Steady walk) {least : PathOrderKey ×ₗ Nat}
    {heap : List (PathOrderKey ×ₗ Nat)} (hpop : popMin walk.heap = some (least, heap)) :
    ∃ before frame after entry, walk.frames = before ++ some frame :: after ∧
      (ofLex least).2 = before.length ∧ frame.listing[frame.next]? = some entry ∧
      heap.Perm (headsFrom 0 before ++ headsFrom (before.length + 1) after) ∧
      ∀ place ∈ frontier walk, (placeAt frame entry).key ≤ place.key := by
  obtain ⟨hperm, hleast⟩ := BestFirst.popMin_some hpop
  have hmem : least ∈ headsFrom 0 walk.frames :=
    (hperm.symm.trans h.balanced).subset List.mem_cons_self
  obtain ⟨before, frame, after, hframes, hindex, hpeek⟩ := mem_headsFrom hmem
  rw [Nat.zero_add] at hindex
  have hsame : least = toLex ((ofLex least).1, before.length) := by
    rw [← hindex]
    rfl
  have hentry : ∃ entry, frame.listing[frame.next]? = some entry ∧
      (placeAt frame entry).key = (ofLex least).1 := by
    rw [peekChildPath_eq, pending, places, List.head?_map, List.head?_drop] at hpeek
    simpa [Option.map_eq_some_iff] using hpeek
  obtain ⟨entry, hentry, hkey⟩ := hentry
  refine ⟨before, frame, after, entry, hframes, hindex, hentry, ?_, ?_⟩
  · have hheads : headsFrom 0 walk.frames =
        headsFrom 0 before ++ least :: headsFrom (before.length + 1) after := by
      rw [hframes, headsFrom_append, headsFrom, hpeek, Nat.zero_add, hsame]
      rfl
    have hcons := hperm.symm.trans h.balanced
    rw [hheads] at hcons
    exact (hcons.trans List.perm_middle).cons_inv
  · rw [hkey]
    apply BestFirst.le_of_heads h.sorted
    intro l hl place hplace
    obtain ⟨other, hother, rfl⟩ := List.mem_map.1 hl
    have hpeekOther : peekChildPath other = some place.key := by
      rw [peekChildPath_eq, hplace]
      rfl
    obtain ⟨index, hin⟩ := head_mem 0 hother hpeekOther
    have hle := hleast _ (h.balanced.symm.subset hin)
    rw [hsame, Prod.Lex.toLex_le_toLex] at hle
    cases hle with
    | inl hlt => exact le_of_lt hlt
    | inr heq => exact le_of_eq heq.1

/-! ## The run of the walk -/

/-- The call the visitor gets for a place. -/
def visitOf (targetRelative : RelPath) (place : Place Gitignore) : Option Visit :=
  (place.kind crate targetRelative).map fun kind =>
    ⟨place.path, place.entry.name, kind, place.dir⟩

/-- The visitor has not answered `Quit` before the last of the calls. -/
def Going (visit : List Visit → WalkState) (calls : List Visit) : Prop :=
  ∀ front, front <+: calls → front ≠ [] → visit front = .Quit → front = calls

variable (targetRelative : RelPath) (visit : List Visit → WalkState)

/-- The walk has taken the places so far. -/
structure Follows (roots : Multiset (Place Gitignore)) (walk : Walk Gitignore)
    (taken : List (Place Gitignore)) : Prop where
  run : Run (walkForest crate targetRelative) roots taken (frontier walk)
  steady : Steady walk
  calls : walk.calls = taken.filterMap (visitOf crate targetRelative)
  going : Going visit walk.calls
  more : walk.calls ≠ [] → visit walk.calls ≠ .Quit

/-- The walk has ended with the outcome after it has taken the places. -/
structure Ended (roots : Multiset (Place Gitignore)) (outcome : WalkOutcome)
    (taken : List (Place Gitignore)) : Prop where
  calls : outcome.calls = taken.filterMap (visitOf crate targetRelative)
  going : Going visit outcome.calls
  run : ∃ rest, Run (walkForest crate targetRelative) roots taken rest ∧
    (outcome.result = .ok () →
      (outcome.calls ≠ [] ∧ visit outcome.calls = .Quit) ∨ rest = 0)

variable {targetRelative visit}

theorem visitedKind_eq (frame : WalkFrame Gitignore) (entry : ListedName) :
    visitedKind crate targetRelative frame entry =
      (placeAt frame entry).kind crate targetRelative :=
  rfl

theorem descendedFrame_eq (frame : WalkFrame Gitignore) (entry : ListedName) :
    descendedFrame crate targetRelative frame entry =
      descendedFrame crate targetRelative (placeAt frame entry).frame
        (placeAt frame entry).entry :=
  rfl

theorem Going.concat {calls : List Visit} (h : Going visit calls)
    (hmore : calls ≠ [] → visit calls ≠ .Quit) (call : Visit) : Going visit (calls ++ [call]) := by
  intro front hfront hne hquit
  rw [List.prefix_concat_iff] at hfront
  cases hfront with
  | inl hsame => exact hsame
  | inr hearlier =>
      have hsame := h front hearlier hne hquit
      rw [hsame] at hne hquit
      exact absurd hquit (hmore hne)

/-- A walk with an empty heap has nothing left. -/
theorem frontier_eq_zero {walk : Walk Gitignore} (h : Steady walk) (hheap : walk.heap = []) :
    frontier walk = 0 := by
  rw [Multiset.eq_zero_iff_forall_notMem]
  intro place hplace
  obtain ⟨l, hl, hmem⟩ := List.mem_flatten.1 hplace
  obtain ⟨frame, hframe, rfl⟩ := List.mem_map.1 hl
  obtain ⟨path, hpeek⟩ : ∃ path, peekChildPath frame = some path := by
    rw [peekChildPath_eq]
    obtain ⟨first, rest, hfirst⟩ := List.exists_cons_of_ne_nil (List.ne_nil_of_mem hmem)
    exact ⟨first.key, by rw [hfirst]; rfl⟩
  obtain ⟨other, hother⟩ := head_mem 0 hframe hpeek
  have hin := h.balanced.symm.subset hother
  rw [hheap] at hin
  cases hin

/-- A turn with something in the heap takes the least place, and asks about it. -/
theorem take_place {roots : Multiset (Place Gitignore)} {walk : Walk Gitignore}
    {taken : List (Place Gitignore)} (h : Follows crate targetRelative visit roots walk taken)
    {least : PathOrderKey ×ₗ Nat} {heap : List (PathOrderKey ×ₗ Nat)}
    (hpop : popMin walk.heap = some (least, heap)) :
    ∃ frame entry put, walkTurn crate targetRelative visit walk =
        visitEntry crate targetRelative visit put frame entry ∧
      Steady put ∧ put.calls = walk.calls ∧
      Run (walkForest crate targetRelative) roots (taken ++ [placeAt frame entry])
        (frontier put + ↑((placeAt frame entry).children crate targetRelative)) := by
  obtain ⟨before, frame, after, entry, hframes, hindex, hentry, hheap, hleast⟩ :=
    pop_place h.steady hpop
  have hset : walk.frames.set before.length (some { frame with next := frame.next + 1 }) =
      before ++ some { frame with next := frame.next + 1 } :: after := by
    simp [hframes]
  obtain ⟨hbalanced, hpending, hcalls⟩ := requeueOrRelease_steady
    { walk with
      frames := walk.frames.set before.length (some { frame with next := frame.next + 1 })
      heap := heap } hset hheap
  refine ⟨frame, entry, _, ?_, ⟨hbalanced, ?_⟩, hcalls, ?_⟩
  · have hget : walk.frames[before.length]?.join = some frame := by simp [hframes]
    rw [walkTurn, hpop]
    simp only [hindex, hget, hentry]
  · intro l hl
    rw [hpending] at hl
    simp only [hset, List.map_append, List.map_cons, List.mem_append, List.mem_cons] at hl
    have hsorted := h.steady.sorted
    rw [hframes] at hsorted
    simp only [List.map_append, List.map_cons, List.mem_append, List.mem_cons] at hsorted
    cases hl with
    | inl hbefore => exact hsorted l (Or.inl hbefore)
    | inr hl =>
        cases hl with
        | inr hafter => exact hsorted l (Or.inr (Or.inr hafter))
        | inl hsame =>
            have hframe := hsorted (pending (some frame)) (Or.inr (Or.inl rfl))
            rw [pending, places_advance hentry] at hframe
            exact hsame ▸ hframe.of_cons
  · have hfrontier : frontier walk = placeAt frame entry ::ₘ frontier (requeueOrRelease
        { walk with
          frames := walk.frames.set before.length (some { frame with next := frame.next + 1 })
          heap := heap } before.length) := by
      rw [frontier, frontier, hpending, hset, hframes]
      simp only [List.map_append, List.map_cons, List.flatten_append, List.flatten_cons, pending,
        places_advance hentry, List.cons_append]
      exact Multiset.coe_eq_coe.2 List.perm_middle
    have hrun := h.run
    rw [hfrontier] at hrun
    refine hrun.take fun place hplace => hleast place ?_
    rw [hfrontier]
    exact Multiset.mem_cons_of_mem hplace

/-- A place that is not a visited directory has no children. -/
theorem Place.children_nil {place : Place Gitignore}
    (h : place.kind crate targetRelative ≠ some .Directory) :
    place.children crate targetRelative = [] := by
  rw [Place.children, if_neg h]

theorem visitOf_some {frame : WalkFrame Gitignore} {entry : ListedName} {kind : EntryKind}
    (h : (placeAt frame entry).kind crate targetRelative = some kind) :
    visitOf crate targetRelative (placeAt frame entry) =
      some ⟨joinRel frame.rel [entry.name], entry.name, kind, frame.dir⟩ := by
  rw [visitOf, h, joinRel_eq]
  rfl

theorem walkTurn_follows {roots : Multiset (Place Gitignore)} {walk : Walk Gitignore}
    {taken : List (Place Gitignore)} (h : Follows crate targetRelative visit roots walk taken) :
    (∃ outcome all, walkTurn crate targetRelative visit walk = .Done outcome ∧
      Ended crate targetRelative visit roots outcome all) ∨
    ∃ next place, walkTurn crate targetRelative visit walk = .Next next ∧
      Follows crate targetRelative visit roots next (taken ++ [place]) := by
  cases hpop : popMin walk.heap with
  | none =>
      left
      have hzero := frontier_eq_zero h.steady (BestFirst.popMin_none.1 hpop)
      refine ⟨⟨walk.calls, .ok ()⟩, taken, by rw [walkTurn, hpop], h.calls, h.going, 0, ?_, ?_⟩
      · exact hzero ▸ h.run
      · exact fun _ => Or.inr rfl
  | some popped =>
      obtain ⟨frame, entry, put, hturn, hsteady, hcalls, hrun⟩ := take_place crate h hpop
      rw [hturn, visitEntry, visitedKind_eq]
      have htaken : (taken ++ [placeAt frame entry]).filterMap (visitOf crate targetRelative) =
          put.calls ++ (visitOf crate targetRelative (placeAt frame entry)).toList := by
        rw [List.filterMap_append, hcalls, h.calls]
        cases hvisit : visitOf crate targetRelative (placeAt frame entry) <;> simp [hvisit]
      have hgoing := h.going
      have hmore := h.more
      rw [← hcalls] at hgoing hmore
      cases hkind : (placeAt frame entry).kind crate targetRelative with
      | none =>
          right
          refine ⟨put, placeAt frame entry, rfl, ?_, hsteady, ?_, hgoing, hmore⟩
          · rw [Place.children_nil crate (by simp [hkind])] at hrun
            simpa using hrun
          · rw [htaken, visitOf, hkind]
            simp
      | some kind =>
          rw [visitOf_some crate hkind, Option.toList_some] at htaken
          dsimp only
          generalize hlast : put.calls ++
            [⟨joinRel frame.rel [entry.name], entry.name, kind, frame.dir⟩] = calls at htaken ⊢
          have hgoingCalls : Going visit calls := hlast ▸ hgoing.concat hmore _
          have hne : calls ≠ [] := by
            rw [← hlast]
            simp
          by_cases hquit : visit calls = .Quit
          · left
            refine ⟨⟨calls, .ok ()⟩, _, if_pos hquit, htaken.symm, hgoingCalls, _, hrun, ?_⟩
            exact fun _ => Or.inl ⟨hne, hquit⟩
          · rw [if_neg hquit]
            by_cases hdir : kind = .Directory
            · rw [if_neg (not_not.2 hdir), descendedFrame_eq]
              rw [hdir] at hkind
              cases hchild : descendedFrame crate targetRelative (placeAt frame entry).frame
                  (placeAt frame entry).entry with
              | error error =>
                  left
                  refine ⟨⟨calls, .error error⟩, _, rfl, htaken.symm, hgoingCalls, _, hrun, ?_⟩
                  intro hok
                  cases hok
              | ok child =>
                  right
                  have hchildren : (placeAt frame entry).children crate targetRelative =
                      pending child := by
                    rw [Place.children, if_pos hkind, hchild]
                  have hsorted := (walkForest crate targetRelative).ordered (placeAt frame entry)
                  have hrecorded : Steady { put with calls := calls } :=
                    ⟨hsteady.balanced, hsteady.sorted⟩
                  obtain ⟨hpushed, hfrontier⟩ :=
                    pushFrame_steady hrecorded child (hchildren ▸ hsorted)
                  have hpushedCalls : (pushFrame { put with calls := calls } child).calls =
                      calls := by
                    cases child <;> rfl
                  refine ⟨_, placeAt frame entry, rfl, ?_, hpushed, ?_, ?_, ?_⟩
                  · rw [hfrontier]
                    rw [hchildren] at hrun
                    exact hrun
                  · rw [hpushedCalls]
                    exact htaken.symm
                  · rw [hpushedCalls]
                    exact hgoingCalls
                  · rw [hpushedCalls]
                    exact fun _ => hquit
            · right
              rw [if_pos hdir]
              refine ⟨_, placeAt frame entry, rfl, ?_,
                ⟨hsteady.balanced, hsteady.sorted⟩, htaken.symm, hgoingCalls, fun _ => hquit⟩
              rw [Place.children_nil crate (by simpa [hkind] using hdir), Multiset.coe_nil,
                add_zero] at hrun
              exact hrun

/-- The loop ends: it takes one place a turn, and there are so many of them. -/
theorem walkLoop_ends {roots : Multiset (Place Gitignore)} (left : Nat)
    {walk : Walk Gitignore} {taken : List (Place Gitignore)}
    (hleft : (roots.map Place.weight).sum = taken.length + left)
    (h : Follows crate targetRelative visit roots walk taken) :
    ∃ outcome all, Ended crate targetRelative visit roots outcome all ∧
      ∀ fuel, left < fuel →
        walkLoop crate targetRelative visit fuel walk = some outcome := by
  induction left generalizing walk taken with
  | zero =>
      cases walkTurn_follows crate h with
      | inl hdone =>
          obtain ⟨outcome, all, hturn, hended⟩ := hdone
          refine ⟨outcome, all, hended, ?_⟩
          intro fuel hfuel
          obtain ⟨fuel, rfl⟩ : ∃ less, fuel = less + 1 := ⟨fuel - 1, by omega⟩
          rw [walkLoop, hturn]
      | inr hnext =>
          obtain ⟨next, place, -, hfollows⟩ := hnext
          have hweight := hfollows.run.weight_le
          rw [List.length_append, List.length_singleton] at hweight
          have hforest : (walkForest crate targetRelative).weight = Place.weight := rfl
          rw [hforest] at hweight
          omega
  | succ left ih =>
      cases walkTurn_follows crate h with
      | inl hdone =>
          obtain ⟨outcome, all, hturn, hended⟩ := hdone
          refine ⟨outcome, all, hended, ?_⟩
          intro fuel hfuel
          obtain ⟨fuel, rfl⟩ : ∃ less, fuel = less + 1 := ⟨fuel - 1, by omega⟩
          rw [walkLoop, hturn]
      | inr hnext =>
          obtain ⟨next, place, hturn, hfollows⟩ := hnext
          obtain ⟨outcome, all, hended, hloop⟩ := ih
            (by rw [List.length_append, List.length_singleton]; omega) hfollows
          refine ⟨outcome, all, hended, ?_⟩
          intro fuel hfuel
          obtain ⟨fuel, rfl⟩ : ∃ less, fuel = less + 1 := ⟨fuel - 1, by omega⟩
          rw [walkLoop, hturn]
          exact hloop fuel (by omega)

/-! ## What there is to visit -/

/-- Every component of the path below the directory is a regular file or a directory that is
neither hidden nor ignored, and the ignore files of the directories on the way can be loaded. -/
def Eligible (targetRelative : RelPath) : Handle → IgnoreStack Gitignore → RelPath → RelPath → Prop
  | _, _, _, [] => False
  | dir, ignores, rel, name :: rest =>
      ∃ kind, probeKind dir name = .ok (some kind) ∧ nameIsHidden name = false ∧
        ignores.isIgnored crate targetRelative (rel ++ [name]) (kind = .Directory) = false ∧
        (rest = [] ∨ ∃ child inner, openChildDirectory dir name = .ok child ∧
          ingest crate ignores child (targetRelative ++ (rel ++ [name])) = .ok inner ∧
          Eligible targetRelative child inner (rel ++ [name]) rest)

def frameOf (dir : Handle) (rel : RelPath) (ignores : IgnoreStack Gitignore) :
    WalkFrame Gitignore :=
  ⟨dir, rel, ignores, collectListing dir, 0⟩

theorem isHidden_of_isDot {name : Name} (h : isDot name = true) : nameIsHidden name = true := by
  unfold isDot at h
  rw [Bool.or_eq_true, decide_eq_true_eq, decide_eq_true_eq] at h
  cases h with
  | inl h => simp [nameIsHidden, h]
  | inr h => simp [nameIsHidden, h]

/-- What is listed is visited by its type, its name and the ignore stacks. -/
theorem kind_of_listed {dir : Handle} (rel : RelPath) (ignores : IgnoreStack Gitignore)
    {listed : Entry} (hlisted : listed ∈ dir.entries) {kind : EntryKind} :
    (placeAt (frameOf dir rel ignores) (nextPlatform listed)).kind crate targetRelative =
        some kind ↔
      probeKind dir listed.name = .ok (some kind) ∧ nameIsHidden listed.name = false ∧
        ignores.isIgnored crate targetRelative (rel ++ [listed.name])
          (kind = .Directory) = false := by
  have hlookup := lookup_of_mem dir.names_nodup hlisted
  obtain ⟨name, reported, node⟩ := listed
  have hname : (nextPlatform (name, reported, node)).name = name := rfl
  have hattr : (nextPlatform (name, reported, node)).hiddenAttr = false := rfl
  show visitedKind crate targetRelative (placeAt (frameOf dir rel ignores) _).frame
    (nextPlatform (name, reported, node)) = some kind ↔ _
  rw [visitedKind, hname, hattr]
  by_cases hhidden : nameIsHidden name = true
  · simp [hhidden]
  · have hdot : isDot name = false := by
      by_contra hdot
      exact hhidden (isHidden_of_isDot (by simpa using hdot))
    rw [Bool.not_eq_true] at hhidden
    have hfound : lookup dir.entries name = some node := hlookup
    cases node with
    | Directory entries =>
        cases reported <;>
          simp [nextPlatform, hdot, hhidden, probeKind, hfound, placeAt, Place.frame, frameOf,
            Option.filter_eq_some_iff]
    | File content =>
        cases reported <;>
          simp [nextPlatform, hdot, hhidden, probeKind, hfound, placeAt, Place.frame, frameOf,
            Option.filter_eq_some_iff]
    | Link =>
        cases reported <;>
          simp [nextPlatform, hdot, hhidden, probeKind, hfound, placeAt, Place.frame, frameOf]
    | Other =>
        cases reported <;>
          simp [nextPlatform, hdot, hhidden, probeKind, hfound, placeAt, Place.frame, frameOf]

theorem mem_places_frameOf {dir : Handle} {rel : RelPath} {ignores : IgnoreStack Gitignore}
    {place : Place Gitignore} :
    place ∈ places (frameOf dir rel ignores) ↔
      ∃ listed ∈ dir.entries, isDot listed.name = false ∧
        placeAt (frameOf dir rel ignores) (nextPlatform listed) = place := by
  rw [places, frameOf, List.drop_zero, List.mem_map]
  constructor
  · rintro ⟨entry, hentry, rfl⟩
    obtain ⟨listed, hlisted, hdot, rfl⟩ := mem_collectListing.1 hentry
    exact ⟨listed, hlisted, hdot, rfl⟩
  · rintro ⟨listed, hlisted, hdot, rfl⟩
    exact ⟨_, mem_collectListing.2 ⟨listed, hlisted, hdot, rfl⟩, rfl⟩

/-- The children of a visited directory are the places of its frame. -/
theorem children_of_visited {place child : Place Gitignore}
    (h : child ∈ place.children crate targetRelative) :
    place.kind crate targetRelative = some .Directory ∧
      ∃ dir ignores, openChildDirectory place.dir place.entry.name = .ok dir ∧
        ingest crate place.ignores dir (targetRelative ++ place.path) = .ok ignores ∧
        child ∈ places (frameOf dir place.path ignores) := by
  by_cases hkind : place.kind crate targetRelative = some .Directory
  · refine ⟨hkind, ?_⟩
    rw [Place.children, if_pos hkind] at h
    cases hframe : descendedFrame crate targetRelative place.frame place.entry with
    | error error =>
        rw [hframe] at h
        cases h
    | ok opened =>
        rw [hframe] at h
        cases opened with
        | none => cases h
        | some frame =>
            obtain ⟨dir, ignores, hopen, hingest, rfl⟩ := descendedFrame_ok crate hframe
            exact ⟨dir, ignores, hopen, hingest, h⟩
  · rw [Place.children_nil crate hkind] at h
    cases h

theorem mem_children {place child : Place Gitignore} {dir : Handle}
    {ignores : IgnoreStack Gitignore} (hkind : place.kind crate targetRelative = some .Directory)
    (hopen : openChildDirectory place.dir place.entry.name = .ok dir)
    (hingest : ingest crate place.ignores dir (targetRelative ++ place.path) = .ok ignores)
    (hchild : child ∈ places (frameOf dir place.path ignores)) :
    child ∈ place.children crate targetRelative := by
  have hlisting : collectListing dir ≠ [] := by
    intro hnil
    rw [places, frameOf, hnil] at hchild
    cases hchild
  have hframe : descendedFrame crate targetRelative place.frame place.entry =
      .ok (some (frameOf dir place.path ignores)) := by
    have hrel : place.frame.rel ++ [place.entry.name] = place.path := rfl
    have hignores : place.frame.ignores = place.ignores := rfl
    have hdir : place.frame.dir = place.dir := rfl
    rw [descendedFrame, hdir, hopen]
    simp only [joinRel_eq, hrel, hignores, hingest]
    rw [if_neg (by simpa using hlisting)]
    rfl
  rw [Place.children, if_pos hkind, hframe]
  exact hchild

/-- A place below a frame is eligible if it is visited. -/
theorem eligible_of_over {place x : Place Gitignore}
    (hover : (walkForest crate targetRelative).Over place x) {kind : EntryKind}
    (hx : x.kind crate targetRelative = some kind) {dir : Handle} {rel : RelPath}
    {ignores : IgnoreStack Gitignore} (hplace : place ∈ places (frameOf dir rel ignores)) :
    ∃ path, x.path = rel ++ path ∧ Eligible crate targetRelative dir ignores rel path := by
  induction hover using Relation.ReflTransGen.head_induction_on generalizing dir rel ignores with
  | refl =>
      obtain ⟨listed, hlisted, -, rfl⟩ := mem_places_frameOf.1 hplace
      obtain ⟨hprobe, hhidden, hignored⟩ := (kind_of_listed crate _ _ hlisted).1 hx
      exact ⟨[listed.name], rfl, kind, hprobe, hhidden, hignored, Or.inl rfl⟩
  | head hchild _ ih =>
      obtain ⟨hkind, child, inner, hopen, hingest, hin⟩ := children_of_visited crate hchild
      obtain ⟨listed, hlisted, -, rfl⟩ := mem_places_frameOf.1 hplace
      obtain ⟨hprobe, hhidden, hignored⟩ := (kind_of_listed crate _ _ hlisted).1 hkind
      obtain ⟨path, hpath, heligible⟩ := ih hin
      refine ⟨listed.name :: path, ?_, .Directory, hprobe, hhidden, hignored, Or.inr ?_⟩
      · rw [hpath]
        exact List.append_assoc _ _ _
      · exact ⟨child, inner, hopen, hingest, heligible⟩

/-- An eligible path is the path of a place that is visited. -/
theorem over_of_eligible {dir : Handle} {ignores : IgnoreStack Gitignore} {rel path : RelPath}
    (h : Eligible crate targetRelative dir ignores rel path) :
    ∃ place ∈ places (frameOf dir rel ignores), ∃ x kind,
      (walkForest crate targetRelative).Over place x ∧
        x.kind crate targetRelative = some kind ∧ x.path = rel ++ path := by
  induction path generalizing dir ignores rel with
  | nil => cases h
  | cons name rest ih =>
      obtain ⟨kind, hprobe, hhidden, hignored, hrest⟩ := h
      obtain ⟨node, hnode⟩ : ∃ node, lookup dir.entries name = some node := by
        cases hlookup : lookup dir.entries name with
        | some node => exact ⟨node, rfl⟩
        | none =>
            rw [probeKind, hlookup] at hprobe
            cases hprobe
      obtain ⟨reported, hlisted⟩ := lookup_mem hnode
      have hdot : isDot name = false := by
        by_contra hdot
        rw [isHidden_of_isDot (by simpa using hdot)] at hhidden
        cases hhidden
      have hplace : placeAt (frameOf dir rel ignores) (nextPlatform (name, reported, node)) ∈
          places (frameOf dir rel ignores) :=
        mem_places_frameOf.2 ⟨_, hlisted, hdot, rfl⟩
      have hkind := (kind_of_listed crate rel ignores hlisted).2
        ⟨hprobe, hhidden, hignored⟩
      cases hrest with
      | inl hlast =>
          subst hlast
          exact ⟨_, hplace, _, kind, Relation.ReflTransGen.refl, hkind, rfl⟩
      | inr hbelow =>
          obtain ⟨child, inner, hopen, hingest, heligible⟩ := hbelow
          obtain ⟨place, hin, x, other, hover, hx, hpath⟩ := ih heligible
          have hdirectory : kind = .Directory := by
            obtain ⟨entries, hfound, -⟩ := openChildDirectory_ok.1 hopen
            rw [probeKind, hfound] at hprobe
            injection hprobe with hprobe
            injection hprobe with hprobe
            exact hprobe.symm
          rw [hdirectory] at hkind
          have hchild := mem_children crate hkind hopen hingest hin
          refine ⟨_, hplace, x, other, Forest.over_iff.2 (Or.inr ⟨place, hchild, hover⟩), hx, ?_⟩
          rw [hpath]
          exact List.append_assoc _ _ _

/-! ## The whole walk -/

def ResolvedRoot.Eligible (root : ResolvedRoot Gitignore) (path : RelPath) : Prop :=
  ∃ dir, root.target = .Directory dir ∧
    Tools.Eligible crate root.targetRelative dir root.ignores [] path

/-- The calls are the beginning of what is eligible in its order; all of it, unless the visitor
has answered `Quit` to the last of them or the ignore files of a directory cannot be loaded. -/
structure SortedTraversal (eligible : RelPath → Prop) (visit : List Visit → WalkState)
    (outcome : WalkOutcome) : Prop where
  increasing : outcome.calls.Pairwise fun a b =>
    PathOrderKey.fromPath a.childRel < PathOrderKey.fromPath b.childRel
  only : ∀ call ∈ outcome.calls, eligible call.childRel
  smallest : ∀ path, eligible path → path ∈ outcome.calls.map Visit.childRel ∨
    ∀ call ∈ outcome.calls, PathOrderKey.fromPath call.childRel < PathOrderKey.fromPath path
  quits : ∀ front, front <+: outcome.calls → front ≠ [] → visit front = .Quit →
    front = outcome.calls
  complete : outcome.result = .ok () →
    (outcome.calls ≠ [] ∧ visit outcome.calls = .Quit) ∨
      ∀ path, eligible path → path ∈ outcome.calls.map Visit.childRel

variable {crate}

theorem mem_calls {taken : List (Place Gitignore)} {x : Place Gitignore} {kind : EntryKind}
    (hx : x ∈ taken) (hkind : x.kind crate targetRelative = some kind) :
    x.path ∈ (taken.filterMap (visitOf crate targetRelative)).map Visit.childRel := by
  apply List.mem_map.2
  refine ⟨⟨x.path, x.entry.name, kind, x.dir⟩, List.mem_filterMap.2 ⟨x, hx, ?_⟩, rfl⟩
  rw [visitOf, hkind]
  rfl

theorem of_mem_calls {taken : List (Place Gitignore)} {call : Visit}
    (h : call ∈ taken.filterMap (visitOf crate targetRelative)) :
    ∃ x ∈ taken, ∃ kind, x.kind crate targetRelative = some kind ∧ call.childRel = x.path := by
  obtain ⟨x, hx, hvisit⟩ := List.mem_filterMap.1 h
  obtain ⟨kind, hkind, rfl⟩ := Option.map_eq_some_iff.1 hvisit
  exact ⟨x, hx, kind, hkind, rfl⟩

/-- The places of a directory at the top are no children, and differ. -/
theorem planted (dir : Handle) (ignores : IgnoreStack Gitignore) :
    (walkForest crate targetRelative).Planted ↑(places (frameOf dir [] ignores)) := by
  constructor
  · rw [Multiset.map_coe, Multiset.coe_nodup, List.Nodup, List.pairwise_map]
    exact (places_sorted dir [] ignores).imp ne_of_lt
  · intro root hroot place child hchild hsame
    have hpath := congrArg List.length (fromPath_injective hsame)
    have hrel : root.rel = [] := mem_places hroot
    rw [Place.path, Place.path, Place.rel_of_mem_children crate hchild, hrel, Place.path] at hpath
    simp only [List.length_append, List.length_nil, List.length_singleton] at hpath
    omega

theorem Ended.sortedTraversal {dir : Handle} {ignores : IgnoreStack Gitignore}
    {outcome : WalkOutcome} {taken : List (Place Gitignore)}
    (h : Ended crate targetRelative visit ↑(places (frameOf dir [] ignores)) outcome taken) :
    SortedTraversal (Eligible crate targetRelative dir ignores []) visit outcome := by
  obtain ⟨rest, hrun, hresult⟩ := h.run
  have hplanted := @planted _ _ crate targetRelative dir ignores
  constructor
  case increasing =>
    rw [h.calls, List.pairwise_filterMap]
    refine (hrun.sorted hplanted).imp ?_
    intro a b hlt first hfirst second hsecond
    obtain ⟨-, -, rfl⟩ := Option.map_eq_some_iff.1 hfirst
    obtain ⟨-, -, rfl⟩ := Option.map_eq_some_iff.1 hsecond
    exact hlt
  case only =>
    intro call hcall
    rw [h.calls] at hcall
    obtain ⟨x, hx, kind, hkind, hpath⟩ := of_mem_calls hcall
    obtain ⟨root, hroot, hover⟩ := hrun.over hplanted hx
    obtain ⟨path, hsame, heligible⟩ := eligible_of_over crate hover hkind hroot
    rw [hpath, hsame]
    exact heligible
  case smallest =>
    intro path hpath
    obtain ⟨root, hroot, x, kind, hover, hkind, rfl⟩ := over_of_eligible crate hpath
    rw [h.calls]
    refine (hrun.least hplanted hroot hover).imp (fun hx => mem_calls hx hkind) ?_
    intro hless call hcall
    obtain ⟨other, hother, -, -, hcallPath⟩ := of_mem_calls hcall
    rw [hcallPath]
    exact hless other hother
  case quits => exact h.going
  case complete =>
    intro hok
    refine (hresult hok).imp id ?_
    rintro rfl path hpath
    obtain ⟨root, hroot, x, kind, hover, hkind, rfl⟩ := over_of_eligible crate hpath
    rw [h.calls]
    exact mem_calls (hrun.complete hplanted hroot hover) hkind

/-- Nothing is eligible: no call is the sorted traversal. -/
theorem SortedTraversal.empty {eligible : RelPath → Prop} (h : ∀ path, ¬eligible path) :
    SortedTraversal eligible visit ⟨[], .ok ()⟩ where
  increasing := List.Pairwise.nil
  only := fun _ hcall => absurd hcall List.not_mem_nil
  smallest := fun path hpath => absurd hpath (h path)
  quits := fun _ hfront hne _ => absurd (List.prefix_nil.1 hfront) hne
  complete := fun _ => Or.inr fun path hpath => absurd hpath (h path)

theorem not_eligible_of_empty {dir : Handle} {ignores : IgnoreStack Gitignore}
    (h : collectListing dir = []) (path : RelPath) :
    ¬Eligible crate targetRelative dir ignores [] path := by
  intro hpath
  obtain ⟨place, hplace, -⟩ := over_of_eligible crate hpath
  rw [places, frameOf, h] at hplace
  cases hplace

/-- The rules of files without rules. -/
def noRules : IgnoreCrate Unit Unit where
  new := ()
  addLine := fun _ _ => .ok ()
  build := fun _ => .ok ()
  isEmpty := fun _ => true
  matched := fun _ _ _ => .None

/-- A name of one letter. -/
def letter (byte : UInt8) (hsingle : byte ≠ 0x2F) (hnul : byte ≠ 0) : Name :=
  ⟨[byte], by simp, by simpa using hsingle.symm, by simpa using hnul.symm⟩

def nameA : Name := letter 0x61 (by decide) (by decide)
def nameB : Name := letter 0x62 (by decide) (by decide)

/-- A named pipe. -/
def pipeDir : Handle where
  entries := [(nameA, true, .Other)]
  above := []
  linked := .Directory (by decide) (by
    intro entry hentry
    rw [List.mem_singleton.1 hentry]
    exact .Other)

/-- A directory whose `.ignore` file is not a text, and a file behind it. -/
def brokenDir : Handle where
  entries := [(nameA, true, .Directory [(dotIgnore, true, .File [0xFF])]), (nameB, true, .File [])]
  above := []
  linked := .Directory (by decide) (by
    intro entry hentry
    simp only [List.mem_cons, List.not_mem_nil, or_false] at hentry
    cases hentry with
    | inr hfile => exact hfile ▸ .File []
    | inl hdir =>
        refine hdir ▸ .Directory (by decide) ?_
        intro inner hinner
        rw [List.mem_singleton.1 hinner]
        exact .File _)

def plainRoot (dir : Handle) : ResolvedRoot Unit :=
  ⟨.Directory dir, [], .default, false⟩

def callsOf (dir : Handle) : Option (List RelPath) :=
  (walkRetainedTree noRules (plainRoot dir) (fun _ => .Continue) 5).map fun outcome =>
    outcome.calls.map Visit.childRel

end MCode.Tools
