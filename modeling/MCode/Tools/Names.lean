import MCode.Lib.Paths
import MCode.Lib.Utf8

/-!
# Names, relative paths and their order

A name is one component of a path as the operating system gives it: bytes, not
necessarily a text.  A relative path is the list of its components.  Listings,
the frontier of a walk and the results of a search are ordered by one key: the
rendered path first and, where two paths are rendered alike, their bytes.

The order of the paths follows from the order of their components: a path comes
before what is below it, and two paths with the same parent are ordered like
their last names.
-/

namespace MCode.Tools

open MCode.Lib

/-- A component of a path: a directory entry is never empty and has no `/` and no NUL. -/
@[ext] structure Name where
  bytes : List UInt8
  nonempty : bytes ≠ []
  single : 0x2F ∉ bytes
  noNul : 0 ∉ bytes
  deriving DecidableEq

abbrev RelPath := List Name

def joinRel (base name : RelPath) : RelPath :=
  if base.isEmpty then name
  else if name.isEmpty then base
  else base ++ name

@[simp] theorem joinRel_eq (base name : RelPath) : joinRel base name = base ++ name := by
  unfold joinRel
  by_cases hbase : base = []
  · simp [hbase]
  · by_cases hname : name = []
    · simp [hname]
    · simp [hbase, hname]

/-! ## Rendering -/

def lossyComponent (name : Name) : List Char :=
  Utf8.lossy name.bytes

def toPosix (path : RelPath) : List Char :=
  path.foldl
    (fun out component =>
      (if !out.isEmpty && out.getLast? != some '/' then out ++ ['/'] else out) ++
        lossyComponent component)
    []

/-- The path as the operating system spells it. -/
def asOsStr (path : RelPath) : List UInt8 :=
  [0x2F].intercalate (path.map Name.bytes)

theorem lossyComponent_ne_nil (name : Name) : lossyComponent name ≠ [] :=
  Utf8.lossy_ne_nil name.nonempty

theorem separator_not_mem (name : Name) : '/' ∉ lossyComponent name := by
  intro h
  exact name.single (Utf8.lossy_ascii h (by decide) (by decide))

theorem toPosix_singleton (name : Name) : toPosix [name] = lossyComponent name := rfl

theorem toPosix_concat (path : RelPath) (name : Name) :
    toPosix (path ++ [name]) =
      (if !(toPosix path).isEmpty && (toPosix path).getLast? != some '/' then
        toPosix path ++ ['/'] else toPosix path) ++ lossyComponent name := by
  rw [toPosix, List.foldl_append]
  rfl

/-- A rendered path ends with the rendered last component. -/
theorem toPosix_ends {path : RelPath} (h : path ≠ []) :
    toPosix path ≠ [] ∧ (toPosix path).getLast? ≠ some '/' := by
  obtain ⟨front, name, rfl⟩ := (List.eq_nil_or_concat' path).resolve_left h
  rw [toPosix_concat, List.getLast?_append_of_ne_nil _ (lossyComponent_ne_nil name)]
  constructor
  · simp [lossyComponent_ne_nil name]
  · intro hlast
    exact separator_not_mem name (List.mem_of_getLast? hlast)

theorem toPosix_below {path : RelPath} (h : path ≠ []) (name : Name) :
    toPosix (path ++ [name]) = toPosix path ++ '/' :: lossyComponent name := by
  obtain ⟨hne, hlast⟩ := toPosix_ends h
  rw [toPosix_concat, if_pos (by simp [hne, hlast]), List.append_assoc, List.singleton_append]

theorem asOsStr_below {path : RelPath} (h : path ≠ []) (name : Name) :
    asOsStr (path ++ [name]) = asOsStr path ++ 0x2F :: name.bytes := by
  rw [asOsStr, List.map_append, Paths.intercalate_append (by simpa using h) (by simp)]
  simp [asOsStr]

theorem splitOn_asOsStr {path : RelPath} (h : path ≠ []) :
    (asOsStr path).splitOn 0x2F = path.map Name.bytes := by
  apply List.splitOn_intercalate
  · intro bytes hbytes
    obtain ⟨name, -, rfl⟩ := List.mem_map.1 hbytes
    exact name.single
  · simpa using h

theorem asOsStr_ne_nil {path : RelPath} (h : path ≠ []) : asOsStr path ≠ [] := by
  intro hnil
  have hsplit := splitOn_asOsStr h
  rw [hnil, List.splitOn_nil] at hsplit
  obtain ⟨name, -, hname⟩ := List.mem_map.1 (hsplit ▸ List.mem_singleton_self [])
  exact name.nonempty hname

theorem asOsStr_injective {path other : RelPath} (h : asOsStr path = asOsStr other) :
    path = other := by
  by_cases hpath : path = []
  · by_contra hne
    rw [hpath] at h hne
    exact asOsStr_ne_nil (Ne.symm hne) h.symm
  · by_cases hother : other = []
    · rw [hother] at h
      exact absurd h (asOsStr_ne_nil hpath)
    · have hbytes : path.map Name.bytes = other.map Name.bytes := by
        rw [← splitOn_asOsStr hpath, h, splitOn_asOsStr hother]
      refine List.map_injective_iff.2 ?_ hbytes
      exact fun first second hsame => Name.ext hsame

/-! ## The order of the paths -/

/-- Rendering first, the bytes where two are rendered alike. -/
abbrev PathOrderKey := List Char ×ₗ List UInt8

def PathOrderKey.fromPath (path : RelPath) : PathOrderKey :=
  toLex (toPosix path, asOsStr path)

/-- What a listing is sorted by. -/
def componentKey (name : Name) : PathOrderKey :=
  toLex (lossyComponent name, name.bytes)

theorem fromPath_injective {path other : RelPath}
    (h : PathOrderKey.fromPath path = PathOrderKey.fromPath other) : path = other :=
  asOsStr_injective (Prod.ext_iff.1 (toLex_inj.1 h)).2

theorem componentKey_injective {name other : Name} (h : componentKey name = componentKey other) :
    name = other :=
  Name.ext (Prod.ext_iff.1 (toLex_inj.1 h)).2

/-- A path comes before what is below it. -/
theorem fromPath_below (path : RelPath) (name : Name) :
    PathOrderKey.fromPath path < PathOrderKey.fromPath (path ++ [name]) := by
  rw [PathOrderKey.fromPath, PathOrderKey.fromPath, Prod.Lex.toLex_lt_toLex]
  left
  by_cases hpath : path = []
  · rw [hpath, List.nil_append, toPosix_singleton]
    obtain ⟨c, rest, hrendered⟩ := List.exists_cons_of_ne_nil (lossyComponent_ne_nil name)
    rw [hrendered]
    exact List.nil_lt_cons c rest
  · rw [toPosix_below hpath]
    calc toPosix path = toPosix path ++ [] := (List.append_nil _).symm
      _ < toPosix path ++ '/' :: lossyComponent name :=
          List.append_left_lt (List.nil_lt_cons _ _)

/-- Two entries of a directory are ordered like their names. -/
theorem fromPath_siblings (path : RelPath) {name other : Name}
    (h : componentKey name < componentKey other) :
    PathOrderKey.fromPath (path ++ [name]) < PathOrderKey.fromPath (path ++ [other]) := by
  by_cases hpath : path = []
  · rw [hpath]
    simpa [componentKey, PathOrderKey.fromPath, asOsStr, toPosix_singleton] using h
  · rw [componentKey, componentKey, Prod.Lex.toLex_lt_toLex] at h
    rw [PathOrderKey.fromPath, PathOrderKey.fromPath, Prod.Lex.toLex_lt_toLex,
      toPosix_below hpath, toPosix_below hpath, asOsStr_below hpath, asOsStr_below hpath]
    cases h with
    | inl hrendered =>
        left
        exact List.append_left_lt (List.cons_lt_cons_self.2 hrendered)
    | inr hbytes =>
        right
        exact ⟨congrArg (toPosix path ++ '/' :: ·) hbytes.1,
          List.append_left_lt (List.cons_lt_cons_self.2 hbytes.2)⟩

end MCode.Tools
