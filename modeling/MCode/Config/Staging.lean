import MCode.Config.BundlePath
import MCode.Lib.Results

/-!
# The ledger of a staging transaction

`staging.rs`: what a transaction has written, and the plan of each write.
Directories are never written by themselves, so they are those that the files
need; two entries never contend for one path.

A `BTreeMap` is a list sorted by its keys, and `range(from..).next()` the first
entry that is not before `from`.
-/

namespace MCode.Config

open MCode.Lib
open MCode.Lib.Results (bind_ok bind_unit_ok)
open MCode.Vault (ConfigErrorKind authorityError reject reject_ok)

/-! ## The ledger -/

structure LedgerLimits where
  files : UInt64
  directories : UInt64
  entries : UInt64
  fileBytes : UInt64
  totalBytes : UInt64

def PUBLIC_LIMITS : LedgerLimits where
  files := 4096
  directories := 4096
  entries := 8192
  fileBytes := 256 * 1024 * 1024
  totalBytes := 512 * 1024 * 1024

structure PayloadLedger where
  files : List (String × Nat)
  directories : List String
  totalBytes : Nat

def PayloadLedger.default : PayloadLedger := ⟨[], [], 0⟩

structure PlannedWrite where
  path : String
  newDirectories : List String
  size : Nat

def oversized : ConfigErrorKind := .Oversized

/-- The order of the keys of `files`, which is that of their bytes. -/
def fileKey (file : String × Nat) : List Char := file.1.toList

def PayloadLedger.containsFile (self : PayloadLedger) (path : String) : Bool :=
  self.files.any (·.1 == path)

/-- `prefix` of the loop, with one more component. -/
def pushComponent (front component : String) : String :=
  (if front.isEmpty then front else front ++ "/") ++ component

/-- The loop over the components but the last: the directories that are missing. -/
def PayloadLedger.planDirectories (self : PayloadLedger) (front : String) :
    List String → List String → Except ConfigErrorKind (List String)
  | [], found => .ok found
  | component :: components, found => do
      let front := pushComponent front component
      reject (self.containsFile front) authorityError
      self.planDirectories front components
        (if self.directories.contains front then found else found ++ [front])

/-- The first entry that is not before a text starts with it. -/
def rangeStarts (entries : List String) (front : String) : Bool :=
  (entries.find? fun entry => decide (front.toList ≤ entry.toList)).any fun entry =>
    front.toList.isPrefixOf entry.toList

/-- `checked_add(..).ok_or_else(oversized)`. -/
def checkedAdd (a b : Nat) : Except ConfigErrorKind Nat := do
  reject (decide (2 ^ 64 ≤ a + b)) oversized
  return a + b

def PayloadLedger.plan (self : PayloadLedger) (path : BundlePath) (size : Nat)
    (limits : LedgerLimits) : Except ConfigErrorKind PlannedWrite := do
  reject (decide (2 ^ 64 ≤ size)) oversized
  reject (decide (limits.fileBytes.toNat < size)) oversized
  reject (self.containsFile path.value || self.directories.contains path.value) authorityError
  let newDirectories ← self.planDirectories "" (components path.value).dropLast []
  let descendantFront := path.value ++ "/"
  reject (rangeStarts (self.files.map Prod.fst) descendantFront
    || rangeStarts self.directories descendantFront) authorityError
  let fileCount ← checkedAdd self.files.length 1
  let directoryCount ← checkedAdd self.directories.length newDirectories.length
  let entryCount ← checkedAdd fileCount directoryCount
  let totalBytes ← checkedAdd self.totalBytes size
  reject (decide (limits.files.toNat < fileCount)
    || decide (limits.directories.toNat < directoryCount)
    || decide (limits.entries.toNat < entryCount)
    || decide (limits.totalBytes.toNat < totalBytes)) oversized
  return ⟨path.value, newDirectories, size⟩

def PayloadLedger.apply (self : PayloadLedger) (plan : PlannedWrite) : PayloadLedger where
  files := SortedTable.insert fileKey (plan.path, plan.size) self.files
  directories := plan.newDirectories.foldl
    (fun directories path => SortedTable.insert String.toList path directories) self.directories
  totalBytes := self.totalBytes + plan.size

/-! ## The transaction -/

structure WriteFailure where
  error : ConfigErrorKind
  mutationStarted : Bool

/-- `platform::Transaction::write_file`. -/
abbrev NativeWrite := PlannedWrite → List UInt8 → Except WriteFailure Unit

structure StagingTransaction where
  ledger : PayloadLedger
  poisoned : Bool

def StagingTransaction.begin : StagingTransaction := ⟨.default, false⟩

def StagingTransaction.writeFile (self : StagingTransaction) (path : BundlePath)
    (bytes : List UInt8) (native : NativeWrite) :
    Except ConfigErrorKind Unit × StagingTransaction :=
  if self.poisoned then (.error authorityError, self)
  else
    match self.ledger.plan path bytes.length PUBLIC_LIMITS with
    | .error error => (.error error, self)
    | .ok plan =>
        match native plan bytes with
        | .ok () => (.ok (), { self with ledger := self.ledger.apply plan })
        | .error failure =>
            (.error failure.error, { self with poisoned := self.poisoned || failure.mutationStarted })

/-- A call of `write_file`, and what the native write does in it. -/
structure Attempt where
  path : BundlePath
  bytes : List UInt8
  native : NativeWrite

def StagingTransaction.attempt (self : StagingTransaction) (attempt : Attempt) :
    StagingTransaction :=
  (self.writeFile attempt.path attempt.bytes attempt.native).2

def StagingTransaction.run (attempts : List Attempt) : StagingTransaction :=
  attempts.foldl .attempt .begin

/-! ## What a ledger says -/

/-- Files and directories without conflicts and within the limits, in whatever order. -/
structure Consistent (limits : LedgerLimits) (files : List (String × Nat))
    (directories : List String) (totalBytes : Nat) : Prop where
  disjoint : ∀ file ∈ files, file.1 ∉ directories
  exact : ∀ path, path ∈ directories ↔ ∃ file ∈ files, ProperPrefix path file.1
  distinct : directories.Nodup
  free : files.Pairwise fun file other => ¬Begins file.1 other.1 ∧ ¬Begins other.1 file.1
  freeDirectories : ∀ file ∈ files, ∀ path ∈ directories, ¬Begins file.1 path
  total : totalBytes = (files.map Prod.snd).sum
  fileBytes : ∀ file ∈ files, file.2 ≤ limits.fileBytes.toNat
  fileCount : files.length ≤ limits.files.toNat
  directoryCount : directories.length ≤ limits.directories.toNat
  entryCount : files.length + directories.length ≤ limits.entries.toNat
  totalCount : totalBytes ≤ limits.totalBytes.toNat

/-- The order of the entries does not matter. -/
theorem Consistent.perm {limits : LedgerLimits} {files others : List (String × Nat)}
    {directories paths : List String} {totalBytes : Nat} (hfiles : others.Perm files)
    (hdirectories : paths.Perm directories)
    (h : Consistent limits files directories totalBytes) :
    Consistent limits others paths totalBytes where
  disjoint file hfile hpath :=
    h.disjoint file (hfiles.mem_iff.1 hfile) (hdirectories.mem_iff.1 hpath)
  exact path := by
    rw [hdirectories.mem_iff, h.exact]
    simp only [hfiles.mem_iff]
  distinct := hdirectories.nodup_iff.2 h.distinct
  free := (hfiles.pairwise_iff fun hpair => ⟨hpair.2, hpair.1⟩).2 h.free
  freeDirectories file hfile path hpath :=
    h.freeDirectories file (hfiles.mem_iff.1 hfile) path (hdirectories.mem_iff.1 hpath)
  total := by rw [h.total, (hfiles.map Prod.snd).sum_eq]
  fileBytes file hfile := h.fileBytes file (hfiles.mem_iff.1 hfile)
  fileCount := hfiles.length_eq ▸ h.fileCount
  directoryCount := hdirectories.length_eq ▸ h.directoryCount
  entryCount := by rw [hfiles.length_eq, hdirectories.length_eq]; exact h.entryCount
  totalCount := h.totalCount

/-! ## The directories of a path -/

def pushDirectories (front : String) : List String → List String
  | [] => []
  | component :: components =>
      pushComponent front component :: pushDirectories (pushComponent front component) components

/-- The paths that the loop goes through. -/
def parents (path : String) : List String := pushDirectories "" (components path).dropLast

theorem toList_pushComponent (front component : String) :
    (pushComponent front component).toList =
      Paths.push '/' front.toList component.toList := by
  unfold pushComponent Paths.push
  rw [String.toList_append]
  by_cases hfront : front = ""
  · subst hfront
    rfl
  · have hne : ¬front.isEmpty = true := by simpa using hfront
    have hlist : ¬front.toList.isEmpty = true := by simpa using hfront
    rw [if_neg hne, if_neg hlist, String.toList_append]
    rfl

theorem toList_pushDirectories (front : String) (components : List String) :
    (pushDirectories front components).map String.toList =
      Paths.pushes '/' front.toList (components.map String.toList) := by
  induction components generalizing front with
  | nil => rfl
  | cons component components ih =>
      unfold pushDirectories
      rw [List.map_cons, ih, toList_pushComponent]
      rfl

theorem toList_parents (path : String) :
    (parents path).map String.toList = Paths.pushes '/' [] (path.toList.splitOn '/').dropLast := by
  unfold parents components
  rw [toList_pushDirectories, List.map_dropLast, List.map_map]
  simp

theorem mem_parents (path : BundlePath) {other : String} :
    other ∈ parents path.value ↔ ProperPrefix other path.value := by
  have hmem := @Paths.mem_pushes_dropLast _ _ '/' other.toList path.value.toList
    fun c hc => path.component_ne_nil hc
  rw [← toList_parents, List.mem_map_of_injective fun _ _ => String.toList_injective] at hmem
  exact hmem

/-- Each directory stands behind those above it. -/
theorem parents_pairwise (path : BundlePath) : (parents path.value).Pairwise ProperPrefix := by
  have hpairwise := (@Paths.pushes_pairwise _ _ '/' [] (path.value.toList.splitOn '/').dropLast
    fun c hc => path.component_ne_nil (List.mem_of_mem_dropLast hc)).1
  rw [← toList_parents, List.pairwise_map] at hpairwise
  exact hpairwise

namespace PayloadLedger

variable {self : PayloadLedger}

theorem containsFile_false {path : String} :
    self.containsFile path = false ↔ ∀ file ∈ self.files, file.1 ≠ path := by
  simp [containsFile]

theorem planDirectories_ok {front : String} {components found newDirectories : List String} :
    self.planDirectories front components found = .ok newDirectories ↔
      (∀ path ∈ pushDirectories front components, ∀ file ∈ self.files, file.1 ≠ path) ∧
        newDirectories = found ++
          (pushDirectories front components).filter (!self.directories.contains ·) := by
  induction components generalizing front found with
  | nil =>
      unfold planDirectories pushDirectories
      simp [eq_comm]
  | cons component components ih =>
      unfold planDirectories pushDirectories
      dsimp only
      rw [bind_unit_ok, reject_ok, containsFile_false, ih, List.forall_mem_cons, and_assoc]
      by_cases hthere : self.directories.contains (pushComponent front component) = true
      · rw [if_pos hthere, List.filter_cons_of_neg (by simpa using hthere)]
      · rw [if_neg hthere, List.filter_cons_of_pos (by simpa using hthere), List.append_assoc,
          List.singleton_append]

/-- The directories that a path needs and that are not there. -/
def missing (self : PayloadLedger) (path : String) : List String :=
  (parents path).filter (!self.directories.contains ·)

theorem mem_missing (path : BundlePath) {other : String} :
    other ∈ self.missing path.value ↔ ProperPrefix other path.value ∧ other ∉ self.directories := by
  unfold missing
  rw [List.mem_filter, mem_parents]
  simp

theorem missing_pairwise (path : BundlePath) :
    (self.missing path.value).Pairwise ProperPrefix :=
  (parents_pairwise path).sublist List.filter_sublist

theorem missing_nodup (path : BundlePath) : (self.missing path.value).Nodup := by
  refine (missing_pairwise path).imp ?_
  rintro other directory hfront rfl
  exact ProperPrefix.irrefl _ hfront

/-- The tables of a ledger are in their order. -/
structure Ordered (ledger : PayloadLedger) : Prop where
  files : SortedTable.Sorted fileKey ledger.files
  directories : SortedTable.Sorted String.toList ledger.directories

/-- What a plan needs. -/
structure Admits (ledger : PayloadLedger) (path : String) (size : Nat)
    (limits : LedgerLimits) : Prop where
  fileBytes : size ≤ limits.fileBytes.toNat
  newFile : ∀ file ∈ ledger.files, file.1 ≠ path
  newDirectory : path ∉ ledger.directories
  above : ∀ other ∈ parents path, ∀ file ∈ ledger.files, file.1 ≠ other
  belowFiles : ∀ file ∈ ledger.files, ¬ProperPrefix path file.1
  belowDirectories : ∀ other ∈ ledger.directories, ¬ProperPrefix path other
  fileCount : ledger.files.length + 1 ≤ limits.files.toNat
  directoryCount :
    ledger.directories.length + (ledger.missing path).length ≤ limits.directories.toNat
  entryCount : ledger.files.length + 1 +
    (ledger.directories.length + (ledger.missing path).length) ≤ limits.entries.toNat
  totalBytes : ledger.totalBytes + size ≤ limits.totalBytes.toNat

theorem rangeStarts_false {entries : List String}
    (hsorted : SortedTable.Sorted String.toList entries) (path : String) :
    rangeStarts entries (path ++ "/") = false ↔ ∀ entry ∈ entries, ¬ProperPrefix path entry := by
  have hle : entries.Pairwise fun a b => a.toList ≤ b.toList :=
    (List.pairwise_map.1 hsorted).imp fun hlt => le_of_lt hlt
  unfold rangeStarts
  rw [← Bool.not_eq_true, Paths.find?_front hle]
  simp only [not_exists, not_and]
  have hfront (entry : String) :
      (path ++ "/").toList <+: entry.toList ↔ ProperPrefix path entry := by
    unfold ProperPrefix
    rw [Paths.above_iff, String.toList_append]
    rfl
  simp only [hfront]

theorem checkedAdd_ok {a b sum : Nat} :
    checkedAdd a b = .ok sum ↔ a + b < 2 ^ 64 ∧ sum = a + b := by
  unfold checkedAdd
  rw [bind_unit_ok, reject_ok, decide_eq_false_iff_not, Nat.not_le]
  simp [pure, Except.pure, eq_comm]

/-- A path is planned just if the ledger admits it. -/
theorem plan_ok (hordered : self.Ordered) {path : BundlePath} {size : Nat} {limits : LedgerLimits}
    {plan : PlannedWrite} :
    self.plan path size limits = .ok plan ↔
      self.Admits path.value size limits ∧ plan = ⟨path.value, self.missing path.value, size⟩ := by
  have hfiles : SortedTable.Sorted String.toList (self.files.map Prod.fst) := by
    have hsorted := hordered.files
    unfold SortedTable.Sorted at hsorted ⊢
    rw [List.map_map]
    exact hsorted
  have hlimits := limits.fileBytes.toNat_lt
  have hcount := limits.files.toNat_lt
  have hdirectories := limits.directories.toNat_lt
  have hentries := limits.entries.toNat_lt
  have htotal := limits.totalBytes.toNat_lt
  unfold PayloadLedger.plan
  simp only [↓bind_unit_ok, bind_ok, reject_ok, checkedAdd_ok, planDirectories_ok, List.nil_append,
    Bool.or_eq_false_iff, decide_eq_false_iff_not, Nat.not_lt, Nat.not_le, containsFile_false,
    rangeStarts_false hfiles, rangeStarts_false hordered.directories]
  constructor
  · rintro ⟨-, hsize, ⟨hnewFile, hnewDirectory⟩, directories, ⟨habove, rfl⟩, ⟨hbelow, hbelow'⟩,
      fileCount, ⟨-, rfl⟩, directoryCount, ⟨-, rfl⟩, entryCount, ⟨-, rfl⟩, total, ⟨-, rfl⟩,
      ⟨⟨⟨hfileCap, hdirectoryCap⟩, hentryCap⟩, htotalCap⟩, h⟩
    refine ⟨⟨hsize, hnewFile, by simpa using hnewDirectory, habove, ?_, hbelow', hfileCap,
      hdirectoryCap, hentryCap, htotalCap⟩, (Except.ok.inj h).symm⟩
    intro file hfile
    exact hbelow file.1 (List.mem_map_of_mem hfile)
  · rintro ⟨h, rfl⟩
    have hbelow : ∀ entry ∈ self.files.map Prod.fst, ¬ProperPrefix path.value entry := by
      intro entry hentry
      obtain ⟨file, hfile, rfl⟩ := List.mem_map.1 hentry
      exact h.belowFiles file hfile
    have hfileCap := h.fileCount
    have hdirectoryCap := h.directoryCount
    have hentryCap := h.entryCount
    have htotalCap := h.totalBytes
    have hfileBytes := h.fileBytes
    unfold missing parents at hdirectoryCap hentryCap
    exact ⟨by omega, hfileBytes, ⟨h.newFile, by simpa using h.newDirectory⟩, _, ⟨h.above, rfl⟩,
      ⟨hbelow, h.belowDirectories⟩, _, ⟨by omega, rfl⟩, _, ⟨by omega, rfl⟩, _, ⟨by omega, rfl⟩, _,
      ⟨by omega, rfl⟩, ⟨⟨⟨hfileCap, hdirectoryCap⟩, hentryCap⟩, htotalCap⟩, rfl⟩

/-! ## One more file -/

section

variable {limits : LedgerLimits}

/-- The directories of the old files and those that are missing are those of all files. -/
theorem mem_added (h : Consistent limits self.files self.directories self.totalBytes)
    (path : BundlePath) (size : Nat) {other : String} :
    other ∈ self.missing path.value ++ self.directories ↔
      ∃ file ∈ (path.value, size) :: self.files, ProperPrefix other file.1 := by
  simp only [List.mem_append, mem_missing, List.exists_mem_cons_iff, ← h.exact]
  by_cases hthere : other ∈ self.directories
  · simp [hthere]
  · simp [hthere]

theorem Admits.consistent {path : BundlePath} {size : Nat}
    (h : Consistent limits self.files self.directories self.totalBytes)
    (hadmits : self.Admits path.value size limits) :
    Consistent limits ((path.value, size) :: self.files)
      (self.missing path.value ++ self.directories) (self.totalBytes + size) := by
  -- no old file is the path or above it
  have habove : ∀ file ∈ self.files, ¬Begins file.1 path.value := by
    intro file hfile hbegins
    cases begins_iff.1 hbegins with
    | inl hsame => exact hadmits.newFile file hfile hsame
    | inr hfront => exact hadmits.above file.1 ((mem_parents path).2 hfront) file hfile rfl
  -- nor below it
  have hbelow : ∀ file ∈ self.files, ¬Begins path.value file.1 := by
    intro file hfile hbegins
    cases begins_iff.1 hbegins with
    | inl hsame => exact hadmits.newFile file hfile hsame.symm
    | inr hfront => exact hadmits.belowFiles file hfile hfront
  have hnew : ∀ other ∈ self.missing path.value, ProperPrefix other path.value :=
    fun other hother => ((mem_missing path).1 hother).1
  constructor
  case disjoint =>
    intro file hfile hpath
    obtain ⟨other, hother, hfront⟩ := (mem_added h path size).1 hpath
    cases hfile with
    | head =>
        cases hother with
        | head => exact ProperPrefix.irrefl _ hfront
        | tail _ hother => exact hadmits.belowFiles other hother hfront
    | tail _ hfile =>
        cases hother with
        | head => exact habove file hfile hfront.1
        | tail _ hother => exact h.disjoint file hfile ((h.exact _).2 ⟨other, hother, hfront⟩)
  case exact => exact fun other => mem_added h path size
  case distinct =>
    refine List.nodup_append.2 ⟨?_, h.distinct, ?_⟩
    · exact missing_nodup path
    · rintro other hother directory hdirectory rfl
      exact ((mem_missing path).1 hother).2 hdirectory
  case free =>
    exact List.pairwise_cons.2 ⟨fun file hfile => ⟨hbelow file hfile, habove file hfile⟩, h.free⟩
  case freeDirectories =>
    intro file hfile other hother hbegins
    obtain ⟨last, hlast, hfront⟩ := (mem_added h path size).1 hother
    -- what begins a directory is above a file
    have hfileAbove : ProperPrefix file.1 last.1 := by
      cases begins_iff.1 hbegins with
      | inl hsame => exact hsame ▸ hfront
      | inr hover => exact hover.trans hfront
    cases hfile with
    | head =>
        cases hlast with
        | head => exact ProperPrefix.irrefl _ hfileAbove
        | tail _ hlast => exact hbelow last hlast hfileAbove.1
    | tail _ hfile =>
        cases hlast with
        | head => exact habove file hfile hfileAbove.1
        | tail _ hlast =>
            exact h.disjoint file hfile ((h.exact _).2 ⟨last, hlast, hfileAbove⟩)
  case total =>
    rw [List.map_cons, List.sum_cons, h.total]
    omega
  case fileBytes => exact List.forall_mem_cons.2 ⟨hadmits.fileBytes, h.fileBytes⟩
  case fileCount => exact hadmits.fileCount
  case directoryCount =>
    have hcount := hadmits.directoryCount
    rw [List.length_append]
    omega
  case entryCount =>
    have hcount := hadmits.entryCount
    rw [List.length_append, List.length_cons]
    omega
  case totalCount => exact hadmits.totalBytes

/-- A ledger that stays consistent with a file admits it. -/
theorem Consistent.admits {path : BundlePath} {size : Nat} {directories : List String}
    {totalBytes : Nat} (h : Consistent limits self.files self.directories self.totalBytes)
    (hadded : Consistent limits ((path.value, size) :: self.files) directories totalBytes) :
    self.Admits path.value size limits := by
  obtain ⟨hpath, -⟩ := List.pairwise_cons.1 hadded.free
  have hperm : directories.Perm (self.missing path.value ++ self.directories) := by
    refine (List.perm_ext_iff_of_nodup hadded.distinct ?_).2 fun other => ?_
    · refine List.nodup_append.2 ⟨?_, h.distinct, ?_⟩
      · exact missing_nodup path
      · rintro other hother directory hdirectory rfl
        exact ((mem_missing path).1 hother).2 hdirectory
    · rw [hadded.exact, mem_added h path size]
  have hlength := hperm.length_eq
  rw [List.length_append] at hlength
  have htotal := hadded.total
  rw [List.map_cons, List.sum_cons, ← h.total] at htotal
  have hfileCount := hadded.fileCount
  have hdirectoryCount := hadded.directoryCount
  have hentryCount := hadded.entryCount
  have htotalCount := hadded.totalCount
  rw [List.length_cons] at hfileCount hentryCount
  constructor
  case fileBytes => exact hadded.fileBytes (path.value, size) List.mem_cons_self
  case newFile =>
    intro file hfile hsame
    exact (hpath file hfile).1 (begins_iff.2 (Or.inl hsame.symm))
  case newDirectory =>
    intro hdirectory
    obtain ⟨file, hfile, hfront⟩ := (h.exact _).1 hdirectory
    exact (hpath file hfile).1 hfront.1
  case above =>
    intro other hother file hfile hsame
    exact (hpath file hfile).2 (hsame ▸ ((mem_parents path).1 hother).1)
  case belowFiles => exact fun file hfile hfront => (hpath file hfile).1 hfront.1
  case belowDirectories =>
    intro other hother hfront
    obtain ⟨file, hfile, hover⟩ := (h.exact _).1 hother
    exact (hpath file hfile).1 (hfront.trans hover).1
  case fileCount => exact hfileCount
  case directoryCount => omega
  case entryCount => omega
  case totalBytes => omega

/-- What is planned and applied leaves the ledger in order and consistent. -/
theorem apply_keeps (hordered : self.Ordered)
    (h : Consistent limits self.files self.directories self.totalBytes) {path : BundlePath}
    {size : Nat} (hadmits : self.Admits path.value size limits) :
    let after := self.apply ⟨path.value, self.missing path.value, size⟩
    after.Ordered ∧ Consistent limits after.files after.directories after.totalBytes := by
  have hadded := hadmits.consistent h
  have hfile : fileKey (path.value, size) ∉ self.files.map fileKey := by
    intro hmem
    obtain ⟨file, hfile, hsame⟩ := List.mem_map.1 hmem
    exact hadmits.newFile file hfile (String.toList_injective hsame)
  have hdirectories : ((self.missing path.value ++ self.directories).map String.toList).Nodup :=
    hadded.distinct.map fun _ _ => String.toList_injective
  refine ⟨⟨hordered.files.insert hfile, hordered.directories.extend hdirectories⟩, ?_⟩
  exact hadded.perm (SortedTable.insert_perm hfile) (SortedTable.extend_perm hdirectories)

end

end PayloadLedger

/-! ## Runs -/

namespace StagingTransaction

/-- What an attempt does to the ledger: nothing, or what was planned. -/
theorem attempt_ledger (self : StagingTransaction) (attempt : Attempt) :
    (self.attempt attempt).ledger = self.ledger ∨
      ∃ plan, self.ledger.plan attempt.path attempt.bytes.length PUBLIC_LIMITS = .ok plan ∧
        attempt.native plan attempt.bytes = .ok () ∧
        (self.attempt attempt).ledger = self.ledger.apply plan := by
  unfold StagingTransaction.attempt writeFile
  by_cases hpoisoned : self.poisoned = true
  · rw [if_pos hpoisoned]
    exact Or.inl rfl
  · rw [if_neg hpoisoned]
    cases hplan : self.ledger.plan attempt.path attempt.bytes.length PUBLIC_LIMITS with
    | error error => exact Or.inl rfl
    | ok plan =>
        dsimp only
        cases hnative : attempt.native plan attempt.bytes with
        | error failure => exact Or.inl rfl
        | ok written => exact Or.inr ⟨plan, rfl, hnative, rfl⟩

/-- A ledger in order, without conflicts and within the public limits. -/
def Sound (ledger : PayloadLedger) : Prop :=
  ledger.Ordered ∧
    Consistent PUBLIC_LIMITS ledger.files ledger.directories ledger.totalBytes

theorem sound_default : Sound .default := by
  refine ⟨⟨List.Pairwise.nil, List.Pairwise.nil⟩, ?_⟩
  constructor
  case disjoint => exact fun file hfile => nomatch hfile
  case exact =>
    intro path
    constructor
    · intro h
      cases h
    · rintro ⟨file, hfile, -⟩
      cases hfile
  case distinct => exact List.nodup_nil
  case free => exact List.Pairwise.nil
  case freeDirectories => exact fun file hfile => nomatch hfile
  case total => rfl
  case fileBytes => exact fun file hfile => nomatch hfile
  case fileCount => exact Nat.zero_le _
  case directoryCount => exact Nat.zero_le _
  case entryCount => exact Nat.zero_le _
  case totalCount => exact Nat.zero_le _

/-- One attempt keeps the ledger sound. -/
theorem Sound.attempt {self : StagingTransaction} (h : Sound self.ledger) (attempt : Attempt) :
    Sound (self.attempt attempt).ledger := by
  cases self.attempt_ledger attempt with
  | inl hsame =>
      rw [hsame]
      exact h
  | inr happlied =>
      obtain ⟨plan, hplan, -, happly⟩ := happlied
      obtain ⟨hadmits, rfl⟩ := (PayloadLedger.plan_ok h.1).1 hplan
      rw [happly]
      exact PayloadLedger.apply_keeps h.1 h.2 hadmits

theorem sound_run (attempts : List Attempt) : Sound (run attempts).ledger := by
  have hrun : ∀ start : StagingTransaction, Sound start.ledger →
      Sound (attempts.foldl .attempt start).ledger := by
    induction attempts with
    | nil => exact fun start h => h
    | cons attempt attempts ih => exact fun start h => ih (start.attempt attempt) (h.attempt attempt)
  exact hrun .begin sound_default

/-- After any attempts the ledger is consistent; a plan exists just for the files with which it
stays so, names the directories that are missing, each behind those above it, and the ledger
changes by nothing but a plan that was written. -/
theorem ledger_stays_consistent (attempts : List Attempt) :
    let ledger := (run attempts).ledger
    Consistent PUBLIC_LIMITS ledger.files ledger.directories ledger.totalBytes ∧
    (∀ (path : BundlePath) (size : Nat),
      ((∃ plan, ledger.plan path size PUBLIC_LIMITS = .ok plan) ↔
        ∃ directories totalBytes,
          Consistent PUBLIC_LIMITS ((path.value, size) :: ledger.files) directories totalBytes) ∧
      ∀ plan, ledger.plan path size PUBLIC_LIMITS = .ok plan →
        plan.path = path.value ∧ plan.size = size ∧
        (∀ directory, directory ∈ plan.newDirectories ↔
          ProperPrefix directory path.value ∧ directory ∉ ledger.directories) ∧
        plan.newDirectories.Pairwise ProperPrefix) ∧
    ∀ attempt : Attempt, ((run attempts).attempt attempt).ledger = ledger ∨
      ∃ plan, ledger.plan attempt.path attempt.bytes.length PUBLIC_LIMITS = .ok plan ∧
        attempt.native plan attempt.bytes = .ok () ∧
        ((run attempts).attempt attempt).ledger = ledger.apply plan := by
  obtain ⟨hordered, hconsistent⟩ := sound_run attempts
  refine ⟨hconsistent, fun path size => ⟨?_, ?_⟩, (run attempts).attempt_ledger⟩
  · constructor
    · rintro ⟨plan, hplan⟩
      obtain ⟨hadmits, -⟩ := (PayloadLedger.plan_ok hordered).1 hplan
      exact ⟨_, _, hadmits.consistent hconsistent⟩
    · rintro ⟨directories, totalBytes, hadded⟩
      have hadmits := PayloadLedger.Consistent.admits hconsistent hadded
      exact ⟨_, (PayloadLedger.plan_ok hordered).2 ⟨hadmits, rfl⟩⟩
  · intro plan hplan
    obtain ⟨-, rfl⟩ := (PayloadLedger.plan_ok hordered).1 hplan
    exact ⟨rfl, rfl, fun directory => PayloadLedger.mem_missing path,
      PayloadLedger.missing_pairwise path⟩

end StagingTransaction

end MCode.Config
