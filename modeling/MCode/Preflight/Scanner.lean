import MCode.Lib.Checked
import MCode.Preflight.Error

/-!
# Core imports

`mcode-plugin-host/src/component_scanner.rs`: the imports of the core modules in
a component, by module and field.  One classifier decides whether a name is
ambient, and another one names its category; an ambient name without a category
is let through, and the memory or table that it imports is counted.

A name with a marker as one of its segments is without a category only where all
such segments are `wasi` with a version: the second classifier knows `wasi` as a
whole segment, and as the beginning of `wasi_` and `wasi-`, but not of `wasi@`.
-/

namespace MCode.Preflight

open MCode.Lib

def MAX_MEMORY_PAGES : Nat := 1024
def MAX_MEMORY_COUNT : Nat := 2
def MAX_MEMORY_AGGREGATE_PAGES : Nat := 2048
def MAX_TABLE_ELEMENTS : Nat := 65536
def MAX_TABLE_COUNT : Nat := 4
def MAX_TABLE_AGGREGATE_ELEMENTS : Nat := 65536

/-- `u32::MAX` and `u64::MAX`. -/
def U32_MAX : Nat := 4294967295
def U64_MAX : Nat := 18446744073709551615

def CORE_AMBIENT_MARKERS : List String :=
  ["wasi", "filesystem", "file-system", "socket", "network", "dns", "http", "random", "clock",
    "secret", "credential", "keyvalue", "key-value", "logging", "log", "ui", "terminal", "stdin",
    "stdout", "render", "raw", "handle", "process", "environment"]

/-! ## Names -/

abbrev Name := List Char

def contains (name : Name) (word : String) : Bool := decide (word.toList <:+: name)

def startsWith (name : Name) (word : String) : Bool := word.toList.isPrefixOf name

/-- `split([':', '/'])`. -/
def segments (name : Name) : List Name := name.splitOnP fun c => c == ':' || c == '/'

def toAsciiLowercase (name : Name) : Name := name.map Char.toLower

def hasImportSegment (name : Name) (marker : String) : Bool :=
  (segments name).any fun segment =>
    segment == marker.toList || (marker.toList ++ ['@']).isPrefixOf segment

def hasAmbientMarker (name : Name) (marker : String) : Bool :=
  startsWith name marker || hasImportSegment name marker

def ambientCategory (name : Name) : Option ImportCategory :=
  let name := toAsciiLowercase name
  if contains name "terminal" || contains name "stdin" || contains name "stdout" then
    some .Terminal
  else if contains name "filesystem" || contains name "file-system" then some .Filesystem
  else if contains name "http" then some .Http
  else if contains name "socket" || contains name "network" || contains name "dns" then
    some .Network
  else if contains name "random" then some .Random
  else if contains name "clock" then some .Clocks
  else if contains name "secret" || contains name "credential" || contains name "keyvalue" ||
      contains name "key-value" then
    some .Secret
  else if contains name "logging" || hasImportSegment name "log" then some .Logging
  else if hasImportSegment name "ui" || contains name "render" then some .UserInterface
  else if contains name "raw" || contains name "handle" then some .RawHost
  else if contains name "process" || contains name "environment" || contains name ":cli/" then
    some .Process
  else if startsWith name "wasi:" || startsWith name "wasi_" || startsWith name "wasi-" ||
      ((segments name).any fun segment => segment == "wasi".toList ||
        startsWith segment "wasi_" || startsWith segment "wasi-") ||
      name == "env".toList then
    some .Wasi
  else none

def coreModuleCategory (name : Name) : Option ImportCategory :=
  if startsWith name "mcode:" then none
  else
    let name := toAsciiLowercase name
    let isAmbient := name == "env".toList ||
      CORE_AMBIENT_MARKERS.any fun marker => hasAmbientMarker name marker
    if isAmbient then ambientCategory name else none

/-! ## Imports -/

structure MemoryType where
  memory64 : Bool
  shared : Bool
  maximum : Option Nat

structure TableType where
  table64 : Bool
  shared : Bool
  maximum : Option Nat

inductive TypeRef where
  | Memory (memory : MemoryType)
  | Table (table : TableType)
  | Other

structure ResourceTotals where
  memoryCount : Nat
  memoryMaxPages : Nat
  tableCount : Nat
  tableMaxElements : Nat
  deriving DecidableEq

/-- `ok_or`. -/
def okOr (value : Option Nat) (error : PreflightError) : Except PreflightError Nat :=
  value.elim (.error error) .ok

def scanMemory (memory : MemoryType) (totals : ResourceTotals) :
    Except PreflightError ResourceTotals := do
  if memory.memory64 || memory.shared then .error .DisabledFeature
  else
    let maximum ← okOr memory.maximum .UnboundedMemory
    if MAX_MEMORY_PAGES < maximum then .error .MemoryLimit
    else
      let aggregate ← okOr (Checked.add U64_MAX totals.memoryMaxPages maximum)
        .MemoryAggregateLimit
      if MAX_MEMORY_AGGREGATE_PAGES < aggregate then .error .MemoryAggregateLimit
      else
        let count ← okOr (Checked.add U32_MAX totals.memoryCount 1) .MemoryCount
        if MAX_MEMORY_COUNT < count then .error .MemoryCount
        else .ok { totals with memoryMaxPages := aggregate, memoryCount := count }

def scanTable (table : TableType) (totals : ResourceTotals) :
    Except PreflightError ResourceTotals := do
  if table.table64 || table.shared then .error .DisabledFeature
  else
    let maximum ← okOr table.maximum .UnboundedTable
    if MAX_TABLE_ELEMENTS < maximum then .error .TableLimit
    else
      let aggregate ← okOr (Checked.add U64_MAX totals.tableMaxElements maximum)
        .TableAggregateLimit
      if MAX_TABLE_AGGREGATE_ELEMENTS < aggregate then .error .TableAggregateLimit
      else
        let count ← okOr (Checked.add U32_MAX totals.tableCount 1) .TableCount
        if MAX_TABLE_COUNT < count then .error .TableCount
        else .ok { totals with tableMaxElements := aggregate, tableCount := count }

def scanCoreImport (moduleName name : Name) (ty : TypeRef) (totals : ResourceTotals) :
    Except PreflightError ResourceTotals :=
  match coreModuleCategory moduleName with
  | some category => .error (.DeniedImport category)
  | none =>
      match coreModuleCategory name with
      | some category => .error (.DeniedImport category)
      | none =>
          match ty with
          | .Memory memory => scanMemory memory totals
          | .Table table => scanTable table totals
          | .Other => .ok totals

/-! ## Segments -/

/-- The name itself is split at its separators, so a segment lies in it. -/
theorem segment_within {name segment : Name} (h : segment ∈ segments name) : segment <:+: name := by
  have hsplit : ∀ name : Name, ∃ head tail, segments name = head :: tail ∧ head <+: name ∧
      ∀ segment ∈ tail, segment <:+: name := by
    intro name
    induction name with
    | nil => exact ⟨[], [], rfl, List.prefix_rfl, fun _ h => nomatch h⟩
    | cons c name ih =>
        obtain ⟨head, tail, heq, hhead, htail⟩ := ih
        unfold segments at heq ⊢
        rw [List.splitOnP_cons_eq_if_modifyHead, heq]
        split
        · refine ⟨[], head :: tail, rfl, List.nil_prefix, fun segment hin => ?_⟩
          cases List.mem_cons.1 hin with
          | inl hin => exact List.infix_cons (hin ▸ hhead.isInfix)
          | inr hin => exact List.infix_cons (htail segment hin)
        · exact ⟨c :: head, tail, rfl, List.prefix_cons_inj c |>.2 hhead,
            fun segment hin => List.infix_cons (htail segment hin)⟩
  obtain ⟨head, tail, heq, hhead, htail⟩ := hsplit name
  rw [heq] at h
  cases List.mem_cons.1 h with
  | inl hin => exact hin ▸ hhead.isInfix
  | inr hin => exact htail segment hin

/-- A beginning without separators is the beginning of the first segment. -/
theorem first_segment {front : Name} (hfree : ∀ c ∈ front, (c == ':' || c == '/') = false)
    (rest : Name) : ∃ segment ∈ segments (front ++ rest), front <+: segment := by
  have hhead : ∃ head tail, segments (front ++ rest) = (front ++ head) :: tail := by
    induction front with
    | nil =>
        cases hrest : segments rest with
        | nil => exact absurd hrest (List.splitOnP_ne_nil _ _)
        | cons head tail => exact ⟨head, tail, hrest⟩
    | cons c front ih =>
        obtain ⟨head, tail, heq⟩ := ih fun d hd => hfree d (List.mem_cons_of_mem _ hd)
        refine ⟨head, tail, ?_⟩
        unfold segments at heq ⊢
        rw [List.cons_append, List.splitOnP_cons_eq_if_modifyHead, heq,
          if_neg (by rw [hfree c (List.mem_cons_self ..)]; exact Bool.false_ne_true)]
        rfl
  obtain ⟨head, tail, heq⟩ := hhead
  rw [heq]
  exact ⟨_, List.mem_cons_self .., List.prefix_append front head⟩

/-! ## Ambient names -/

/-- A segment that is the marker, alone or with a version. -/
def IsMarked (segment : Name) (marker : String) : Prop :=
  segment = marker.toList ∨ marker.toList ++ ['@'] <+: segment

/-- The names that claim something of the Host's surroundings. -/
def Ambient (name : Name) : Prop :=
  ¬ "mcode:".toList <+: name ∧
    (toAsciiLowercase name = "env".toList ∨ ∃ marker ∈ CORE_AMBIENT_MARKERS,
      ∃ segment ∈ segments (toAsciiLowercase name), IsMarked segment marker)

/-- What names a category wherever it stands. -/
def CATEGORY_WORDS : List String :=
  ["terminal", "stdin", "stdout", "filesystem", "file-system", "http", "socket", "network", "dns",
    "random", "clock", "secret", "credential", "keyvalue", "key-value", "logging", "render", "raw",
    "handle", "process", "environment", ":cli/"]

/-- All that makes the name ambient is `wasi` with versions, and nothing in it
names a category. -/
def OnlyVersionedWasi (name : Name) : Prop :=
  let name := toAsciiLowercase name
  name ≠ "env".toList ∧
    (∀ marker ∈ CORE_AMBIENT_MARKERS, ∀ segment ∈ segments name, IsMarked segment marker →
      "wasi@".toList <+: segment) ∧
    (∀ word ∈ CATEGORY_WORDS, ¬ word.toList <:+: name) ∧
    ∀ segment ∈ segments name, ¬ "wasi_".toList <+: segment ∧ ¬ "wasi-".toList <+: segment

theorem hasImportSegment_iff {name : Name} {marker : String} :
    hasImportSegment name marker = true ↔ ∃ segment ∈ segments name, IsMarked segment marker := by
  simp [hasImportSegment, IsMarked]

theorem ite_some_eq_none {α : Type} {p : Prop} [Decidable p] {a : α} {x : Option α} :
    (if p then some a else x) = none ↔ ¬ p ∧ x = none := by
  by_cases h : p <;> simp [h]

theorem toLower_idem (c : Char) : c.toLower.toLower = c.toLower := by
  by_cases hupper : c.val ≥ 'A'.val ∧ c.val ≤ 'Z'.val
  · have hlower : c.toLower.val = c.val + ('a'.val - 'A'.val) := by
      rw [Char.toLower, dif_pos hupper]
    simp only [ge_iff_le, UInt32.le_iff_toNat_le, Char.reduceVal, UInt32.reduceToNat] at hupper
    have hcode : c.toLower.val.toNat = c.val.toNat + 32 := by
      rw [hlower, UInt32.toNat_add]
      simp only [Char.reduceVal, UInt32.reduceSub, UInt32.reduceToNat]
      omega
    have hnot : ¬ (c.toLower.val ≥ 'A'.val ∧ c.toLower.val ≤ 'Z'.val) := by
      simp only [ge_iff_le, UInt32.le_iff_toNat_le, hcode, Char.reduceVal, UInt32.reduceToNat]
      omega
    generalize c.toLower = lower at hnot
    rw [Char.toLower, dif_neg hnot]
  · have hsame : c.toLower = c := by rw [Char.toLower, dif_neg hupper]
    rw [hsame, hsame]

theorem toAsciiLowercase_idem (name : Name) :
    toAsciiLowercase (toAsciiLowercase name) = toAsciiLowercase name := by
  unfold toAsciiLowercase
  rw [List.map_map]
  exact List.map_congr_left fun c _ => toLower_idem c

theorem contains_eq_false {name : Name} {word : String} :
    contains name word = false ↔ ¬ word.toList <:+: name := by
  rw [contains, decide_eq_false_iff_not]

theorem startsWith_eq_false {name : Name} {word : String} :
    startsWith name word = false ↔ ¬ word.toList <+: name := by
  rw [startsWith, ← Bool.not_eq_true, List.isPrefixOf_iff_prefix]

/-- The second classifier finds nothing that it knows. -/
theorem ambientCategory_eq_none {name : Name} (hlower : toAsciiLowercase name = name) :
    ambientCategory name = none ↔ (∀ word ∈ CATEGORY_WORDS, contains name word = false) ∧
      hasImportSegment name "log" = false ∧ hasImportSegment name "ui" = false ∧
      (∀ word ∈ ["wasi:", "wasi_", "wasi-"], startsWith name word = false) ∧
      ((segments name).any fun segment => segment == "wasi".toList ||
        startsWith segment "wasi_" || startsWith segment "wasi-") = false ∧
      (name == "env".toList) = false := by
  unfold ambientCategory
  rw [hlower]
  simp only [ite_some_eq_none, Bool.or_eq_true, not_or, Bool.not_eq_true]
  simp only [CATEGORY_WORDS, List.forall_mem_cons, List.not_mem_nil, IsEmpty.forall_iff,
    implies_true, and_true]
  refine iff_of_eq ?_
  ac_rfl

theorem wasi_segments_eq_false {name : Name} :
    ((segments name).any fun segment => segment == "wasi".toList ||
        startsWith segment "wasi_" || startsWith segment "wasi-") = false ↔
      ∀ segment ∈ segments name, segment ≠ "wasi".toList ∧ ¬ "wasi_".toList <+: segment ∧
        ¬ "wasi-".toList <+: segment := by
  simp only [List.any_eq_false, Bool.not_eq_true, Bool.or_eq_false_iff, beq_eq_false_iff_ne,
    startsWith_eq_false, and_assoc]

/-- The first classifier knows the names that are ambient. -/
theorem coreModuleCategory_ambient {name : Name} (h : Ambient name) :
    coreModuleCategory name = ambientCategory (toAsciiLowercase name) := by
  have htrusted : ¬ startsWith name "mcode:" = true := by
    rw [startsWith, List.isPrefixOf_iff_prefix]
    exact h.1
  unfold coreModuleCategory
  rw [if_neg htrusted]
  refine if_pos ?_
  rw [Bool.or_eq_true, beq_iff_eq, List.any_eq_true]
  refine h.2.imp id ?_
  rintro ⟨marker, hmarker, hsegment⟩
  exact ⟨marker, hmarker, by
    rw [hasAmbientMarker, Bool.or_eq_true, hasImportSegment_iff]
    exact Or.inr hsegment⟩

theorem IsMarked.within {segment : Name} {marker : String} (h : IsMarked segment marker) :
    marker.toList <:+: segment := by
  cases h with
  | inl hwhole => exact hwhole ▸ List.infix_rfl
  | inr hversion => exact ((List.prefix_append marker.toList ['@']).trans hversion).isInfix

/-- The markers that are words of a category are known wherever they stand. -/
theorem markers_known : ∀ marker ∈ CORE_AMBIENT_MARKERS,
    marker ∈ CATEGORY_WORDS ∨ marker = "log" ∨ marker = "ui" ∨ marker = "wasi" := by decide

theorem not_versionedWasi {segment : Name} {marker : String}
    (hmarker : marker ∈ ["log", "ui"]) (h : IsMarked segment marker) :
    ¬ "wasi@".toList <+: segment := by
  rintro ⟨rest, rfl⟩
  simp only [List.mem_cons, List.not_mem_nil, or_false] at hmarker
  obtain rfl | rfl := hmarker <;> simp [IsMarked] at h

theorem coreModuleCategory_eq_none {name : Name} (h : Ambient name) :
    coreModuleCategory name = none ↔ OnlyVersionedWasi name := by
  rw [coreModuleCategory_ambient h, ambientCategory_eq_none (toAsciiLowercase_idem name)]
  unfold OnlyVersionedWasi
  generalize toAsciiLowercase name = name
  constructor
  · rintro ⟨hwords, hlog, hui, -, hsegments, henv⟩
    rw [wasi_segments_eq_false] at hsegments
    replace hwords := fun word hin => contains_eq_false.1 (hwords word hin)
    refine ⟨beq_eq_false_iff_ne.1 henv, fun marker hmarker segment hin hmarked => ?_, hwords,
      fun segment hin => (hsegments segment hin).2⟩
    have hnone {marker : String} (hfalse : hasImportSegment name marker = false)
        (hmarked : IsMarked segment marker) : False := by
      rw [hasImportSegment_iff.2 ⟨segment, hin, hmarked⟩] at hfalse
      exact absurd hfalse (by decide)
    obtain hword | rfl | rfl | rfl := markers_known marker hmarker
    · exact absurd (hmarked.within.trans (segment_within hin)) (hwords marker hword)
    · exact (hnone hlog hmarked).elim
    · exact (hnone hui hmarked).elim
    · exact hmarked.resolve_left (hsegments segment hin).1
  · rintro ⟨henv, hmarkers, hwords, hsegments⟩
    have hnone {marker : String} (hmarker : marker ∈ CORE_AMBIENT_MARKERS)
        (hother : marker ∈ ["log", "ui"]) : hasImportSegment name marker = false := by
      rw [← Bool.not_eq_true, hasImportSegment_iff]
      rintro ⟨segment, hin, hmarked⟩
      exact not_versionedWasi hother hmarked (hmarkers marker hmarker segment hin hmarked)
    have hwasi : ∀ segment ∈ segments name, segment ≠ "wasi".toList := by
      rintro segment hin rfl
      exact absurd (hmarkers "wasi" (by decide) _ hin (Or.inl rfl)) (by decide)
    refine ⟨fun word hin => contains_eq_false.2 (hwords word hin), hnone (by decide) (by decide),
      hnone (by decide) (by decide), ?_, wasi_segments_eq_false.2 fun segment hin =>
        ⟨hwasi segment hin, hsegments segment hin⟩, beq_eq_false_iff_ne.2 henv⟩
    simp only [List.forall_mem_cons, List.not_mem_nil, IsEmpty.forall_iff, implies_true, and_true,
      startsWith_eq_false]
    refine ⟨?_, ?_, ?_⟩
    · rintro ⟨rest, rfl⟩
      refine hwasi "wasi".toList ?_ rfl
      have hsplit : segments ("wasi".toList ++ ':' :: rest) = "wasi".toList :: segments rest :=
        List.splitOnP_append_cons_of_forall_mem (by simp) ':' (by decide) rest
      exact hsplit ▸ List.mem_cons_self ..
    · rintro ⟨rest, rfl⟩
      obtain ⟨segment, hin, hfront⟩ := @first_segment "wasi_".toList (by simp) rest
      exact (hsegments segment hin).1 hfront
    · rintro ⟨rest, rfl⟩
      obtain ⟨segment, hin, hfront⟩ := @first_segment "wasi-".toList (by simp) rest
      exact (hsegments segment hin).2 hfront

/-! ## What is denied -/

def Denied (result : Except PreflightError ResourceTotals) : Prop :=
  ∃ category, result = .error (.DeniedImport category)

theorem not_denied_error {error : PreflightError} (h : ∀ category, error ≠ .DeniedImport category) :
    ¬ Denied (.error error) := by
  rintro ⟨category, heq⟩
  exact h category (Except.error.inj heq)

theorem not_denied_ok (totals : ResourceTotals) : ¬ Denied (.ok totals) := fun ⟨_, h⟩ => nomatch h

theorem not_denied_bind {value : Option Nat} {error : PreflightError}
    {next : Nat → Except PreflightError ResourceTotals}
    (h : ∀ category, error ≠ .DeniedImport category) (hnext : ∀ n, ¬ Denied (next n)) :
    ¬ Denied (okOr value error >>= next) := by
  cases value with
  | none => exact not_denied_error h
  | some n => exact hnext n

/-- A memory is refused for its own limits only. -/
theorem scanMemory_not_denied (memory : MemoryType) (totals : ResourceTotals) :
    ¬ Denied (scanMemory memory totals) := by
  unfold scanMemory
  split
  · exact not_denied_error fun _ h => nomatch h
  · refine not_denied_bind (fun _ h => nomatch h) fun maximum => ?_
    split
    · exact not_denied_error fun _ h => nomatch h
    · refine not_denied_bind (fun _ h => nomatch h) fun aggregate => ?_
      split
      · exact not_denied_error fun _ h => nomatch h
      · refine not_denied_bind (fun _ h => nomatch h) fun count => ?_
        split
        · exact not_denied_error fun _ h => nomatch h
        · exact not_denied_ok _

/-- So is a table. -/
theorem scanTable_not_denied (table : TableType) (totals : ResourceTotals) :
    ¬ Denied (scanTable table totals) := by
  unfold scanTable
  split
  · exact not_denied_error fun _ h => nomatch h
  · refine not_denied_bind (fun _ h => nomatch h) fun maximum => ?_
    split
    · exact not_denied_error fun _ h => nomatch h
    · refine not_denied_bind (fun _ h => nomatch h) fun aggregate => ?_
      split
      · exact not_denied_error fun _ h => nomatch h
      · refine not_denied_bind (fun _ h => nomatch h) fun count => ?_
        split
        · exact not_denied_error fun _ h => nomatch h
        · exact not_denied_ok _

theorem scanCoreImport_denied {moduleName name : Name} {ty : TypeRef} {totals : ResourceTotals} :
    Denied (scanCoreImport moduleName name ty totals) ↔
      coreModuleCategory moduleName ≠ none ∨ coreModuleCategory name ≠ none := by
  unfold scanCoreImport
  cases hmodule : coreModuleCategory moduleName with
  | some category => simp [Denied]
  | none =>
      cases hname : coreModuleCategory name with
      | some category => simp [Denied]
      | none =>
          have hpassed : ¬ Denied (match ty with
              | .Memory memory => scanMemory memory totals
              | .Table table => scanTable table totals
              | .Other => .ok totals) := by
            cases ty with
            | Memory memory => exact scanMemory_not_denied memory totals
            | Table table => exact scanTable_not_denied table totals
            | Other => exact not_denied_ok totals
          simpa using hpassed

/-- A trusted name is no reason to deny. -/
theorem coreModuleCategory_trusted {name : Name} (h : "mcode:".toList <+: name) :
    coreModuleCategory name = none :=
  if_pos (List.isPrefixOf_iff_prefix.2 h)

theorem scanCoreImport_unknown {name : Name} (h : coreModuleCategory name = none) (other : Name)
    (ty : TypeRef) (totals : ResourceTotals) :
    scanCoreImport name other ty totals = scanCoreImport [] other ty totals ∧
      scanCoreImport other name ty totals = scanCoreImport other [] ty totals := by
  have hempty : coreModuleCategory [] = none := by decide
  unfold scanCoreImport
  rw [h, hempty]
  exact ⟨rfl, rfl⟩

/-- An ambient name is denied as a module and as a field exactly when something
else than `wasi` with a version makes it ambient or names a category.  Where
nothing does, and where a name is trusted, it counts as little as an empty one. -/
theorem ambient_denied_iff (ambient : Name) (h : Ambient ambient) :
    ((∀ other ty totals, Denied (scanCoreImport ambient other ty totals) ∧
      Denied (scanCoreImport other ambient ty totals)) ↔ ¬ OnlyVersionedWasi ambient) ∧
    ∀ name, OnlyVersionedWasi ambient ∧ name = ambient ∨ "mcode:".toList <+: name →
      ∀ other ty totals,
        scanCoreImport name other ty totals = scanCoreImport [] other ty totals ∧
          scanCoreImport other name ty totals = scanCoreImport other [] ty totals := by
  have hnone := coreModuleCategory_eq_none h
  refine ⟨⟨fun hdenied honly => ?_, fun honly other ty totals => ?_⟩, fun name hname => ?_⟩
  · have hunknown := scanCoreImport_unknown (hnone.2 honly) [] .Other ⟨0, 0, 0, 0⟩
    have hempty := (hdenied [] .Other ⟨0, 0, 0, 0⟩).1
    rw [hunknown.1] at hempty
    exact not_denied_ok _ hempty
  · have hknown := mt hnone.1 honly
    exact ⟨scanCoreImport_denied.2 (Or.inl hknown), scanCoreImport_denied.2 (Or.inr hknown)⟩
  · cases hname with
    | inl hsame => exact scanCoreImport_unknown (hsame.2 ▸ hnone.2 hsame.1)
    | inr htrusted => exact scanCoreImport_unknown (coreModuleCategory_trusted htrusted)

theorem ambient_denied_iff_streams :
    Denied (scanCoreImport "WASI:io/streams@0.2.0".toList "read".toList .Other ⟨0, 0, 0, 0⟩) ∧
      Denied (scanCoreImport "read".toList "WASI:io/streams@0.2.0".toList .Other ⟨0, 0, 0, 0⟩) := by
  have hambient : Ambient "WASI:io/streams@0.2.0".toList :=
    ⟨by decide, Or.inr ⟨"wasi", by decide, "wasi".toList, by decide, Or.inl rfl⟩⟩
  have hdenied := (ambient_denied_iff _ hambient).1.2 fun honly =>
    absurd (honly.2.1 "wasi" (by decide) "wasi".toList (by decide) (Or.inl rfl)) (by decide)
  exact hdenied "read".toList .Other ⟨0, 0, 0, 0⟩

/-- A version is enough to pass. -/
theorem versioned_wasi_passes : Ambient "wasi@0.2.0".toList ∧
    scanCoreImport "wasi@0.2.0".toList "poll".toList .Other ⟨0, 0, 0, 0⟩ = .ok ⟨0, 0, 0, 0⟩ := by
  have hambient : Ambient "wasi@0.2.0".toList :=
    ⟨by decide, Or.inr ⟨"wasi", by decide, "wasi@0.2.0".toList, by decide,
      Or.inr ⟨"0.2.0".toList, rfl⟩⟩⟩
  have hmodule : coreModuleCategory "wasi@0.2.0".toList = none := by decide +kernel
  have hname : coreModuleCategory "poll".toList = none := by decide +kernel
  exact ⟨hambient, by rw [scanCoreImport, hmodule, hname]⟩

end MCode.Preflight
