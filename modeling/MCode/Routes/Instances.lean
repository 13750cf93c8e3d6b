import MCode.Lib.Slots
import MCode.Routes.Stamps

/-!
# Request instances

What the usage contexts of a ledger are for, without locks, maps or stamp
cells.  A request instance is minted once, may get one resolved model, and
may be closed once by the counters of its sample.  A book is the list of all
instances, and the place of an instance is its stamp.

Everything a book has handed out follows from its instances: the snapshots
of an instance are its minted context and the resolved one, its sample is
its latest snapshot with the counters that closed it.
-/

namespace MCode.Routes.Instances

open MCode.Lib.Slots
open MCode.Routes.Identity
open MCode.Routes.Stamps

/-- One request instance, minted without a resolved model. -/
structure Instance where
  minted : UsageContextSnapshot
  unresolved : minted.resolvedModel = none
  resolved : Option ModelId
  counters : Option UsageCounters

abbrev Book := List Instance

namespace Instance

variable (self : Instance)

/-- The newest snapshot of the instance. -/
def latest : UsageContextSnapshot :=
  self.resolved.elim self.minted self.minted.withResolvedModel

/-- Every snapshot of the instance, in the order of minting. -/
def snapshots : List UsageContextSnapshot :=
  self.minted :: (self.resolved.map self.minted.withResolvedModel).toList

def samples : List UsageSample :=
  (self.counters.map (UsageSample.mk self.latest)).toList

def terminal : Bool := self.counters.isSome

/-- The contents of the stamp cell of the instance. -/
def cell : UsageStamp := ⟨self.minted.lease.ledgerSeal, self.terminal⟩

@[simp] theorem latest_stamp : self.latest.stamp = self.minted.stamp := by
  unfold latest
  cases self.resolved <;> rfl

@[simp] theorem latest_requestId :
    self.latest.requestId = self.minted.requestId := by
  unfold latest
  cases self.resolved <;> rfl

@[simp] theorem latest_lease : self.latest.lease = self.minted.lease := by
  unfold latest
  cases self.resolved <;> rfl

@[simp] theorem latest_resolvedModel :
    self.latest.resolvedModel = self.resolved := by
  unfold latest
  cases hresolved : self.resolved with
  | none => exact self.unresolved
  | some m => rfl

theorem latest_mem_snapshots : self.latest ∈ self.snapshots := by
  unfold latest snapshots
  cases self.resolved <;> simp

/-- A snapshot is the minted context, or else it is the latest one. -/
theorem mem_snapshots {c : UsageContextSnapshot} (h : c ∈ self.snapshots) :
    c = self.minted ∨ c = self.latest := by
  unfold latest
  unfold snapshots at h
  cases hresolved : self.resolved <;> simp_all

theorem snapshot_stamp {c : UsageContextSnapshot} (h : c ∈ self.snapshots) :
    c.stamp = self.minted.stamp := by
  rcases self.mem_snapshots h with rfl | rfl
  · rfl
  · exact self.latest_stamp

theorem snapshot_requestId {c : UsageContextSnapshot}
    (h : c ∈ self.snapshots) : c.requestId = self.minted.requestId := by
  rcases self.mem_snapshots h with rfl | rfl
  · rfl
  · exact self.latest_requestId

theorem snapshot_lease {c : UsageContextSnapshot} (h : c ∈ self.snapshots) :
    c.lease = self.minted.lease := by
  rcases self.mem_snapshots h with rfl | rfl
  · rfl
  · exact self.latest_lease

/-- A snapshot with a resolved model is the latest one. -/
theorem resolved_snapshot {c : UsageContextSnapshot} (h : c ∈ self.snapshots)
    (hresolved : c.resolvedModel.isSome) : c = self.latest := by
  rcases self.mem_snapshots h with rfl | rfl
  · simp [self.unresolved] at hresolved
  · rfl

/-- An instance has at most one snapshot with a resolved model. -/
theorem resolved_snapshots_le_one :
    (self.snapshots.filter (·.resolvedModel.isSome)).length ≤ 1 := by
  have hminted := self.unresolved
  unfold snapshots
  cases self.resolved <;> simp [List.filter_cons, hminted]

theorem samples_le_one : self.samples.length ≤ 1 := by
  unfold samples
  cases self.counters <;> simp

theorem sample_context {s : UsageSample} (h : s ∈ self.samples) :
    s.context = self.latest := by
  unfold samples at h
  cases hcounters : self.counters with
  | none => simp [hcounters] at h
  | some k =>
      simp only [hcounters, Option.map_some, Option.toList_some,
        List.mem_singleton] at h
      rw [h]

theorem terminal_of_sample {s : UsageSample} (h : s ∈ self.samples) :
    self.terminal = true := by
  unfold samples at h
  unfold terminal
  cases hcounters : self.counters <;> simp_all

/-! ## The three things that happen to an instance -/

/-- A new instance from its first snapshot. -/
def mint (context : UsageContextSnapshot) (h : context.resolvedModel = none) :
    Instance :=
  ⟨context, h, none, none⟩

def resolve (model : ModelId) : Instance := { self with resolved := some model }

def close (counters : UsageCounters) : Instance :=
  { self with counters := some counters }

theorem resolve_snapshots (model : ModelId) (h : self.resolved = none) :
    (self.resolve model).snapshots =
      self.snapshots ++ [(self.resolve model).latest] := by
  simp [snapshots, resolve, latest, h]

theorem resolve_samples (model : ModelId) (h : self.terminal = false) :
    (self.resolve model).samples = self.samples := by
  unfold terminal at h
  cases hcounters : self.counters with
  | none => simp [samples, resolve, hcounters]
  | some k => simp [hcounters] at h

theorem close_samples (counters : UsageCounters) (h : self.terminal = false) :
    (self.close counters).samples = self.samples ++ [⟨self.latest, counters⟩] := by
  unfold terminal at h
  cases hcounters : self.counters with
  | none => simp [samples, close, hcounters, latest]
  | some k => simp [hcounters] at h

end Instance

/-! ## Books -/

/-- The place of an instance is its stamp, and no two open instances share
ledger and request id. -/
structure WellFormed (book : Book) : Prop where
  stamp : ∀ (i : Nat) (a : Instance), book[i]? = some a → a.minted.stamp = i
  openUnique : ∀ (i j : Nat) (a b : Instance),
    book[i]? = some a → book[j]? = some b →
    a.terminal = false → b.terminal = false →
    a.minted.lease.ledgerSeal = b.minted.lease.ledgerSeal →
    a.minted.requestId = b.minted.requestId → i = j

/-- What may happen to a book. -/
inductive Step : Book → Book → Prop where
  | stutter (book : Book) : Step book book
  | mint (book : Book) (context : UsageContextSnapshot)
      (h : context.resolvedModel = none) (stamp : context.stamp = book.length)
      (unused : ∀ a ∈ book, a.terminal = false →
        a.minted.lease.ledgerSeal = context.lease.ledgerSeal →
        a.minted.requestId ≠ context.requestId) :
      Step book (book ++ [Instance.mint context h])
  | resolve (book : Book) (i : Nat) (a : Instance) (model : ModelId)
      (found : book[i]? = some a) (live : a.terminal = false)
      (unresolved : a.resolved = none) :
      Step book (book.set i (a.resolve model))
  | close (book : Book) (i : Nat) (a : Instance) (counters : UsageCounters)
      (found : book[i]? = some a) (live : a.terminal = false) :
      Step book (book.set i (a.close counters))

theorem wellFormed_nil : WellFormed [] := by
  constructor <;> simp

/-- An instance that keeps its first snapshot, and does not reopen, can take
the place of another. -/
private theorem WellFormed.set {book : Book} (h : WellFormed book) {i : Nat}
    {a a' : Instance} (found : book[i]? = some a)
    (hminted : a'.minted = a.minted)
    (hterminal : a'.terminal = false → a.terminal = false) :
    WellFormed (book.set i a') := by
  have hlookup : ∀ (j : Nat) (b : Instance), (book.set i a')[j]? = some b →
      ∃ c, book[j]? = some c ∧ b.minted = c.minted ∧
        (b.terminal = false → c.terminal = false) := by
    intro j b hb
    by_cases hij : i = j
    · subst hij
      rw [List.getElem?_set_self (List.getElem?_eq_some_iff.1 found).1] at hb
      cases hb
      exact ⟨a, found, hminted, hterminal⟩
    · rw [List.getElem?_set_ne hij] at hb
      exact ⟨b, hb, rfl, id⟩
  constructor
  · intro j b hb
    obtain ⟨c, hc, hmint, -⟩ := hlookup j b hb
    rw [hmint]
    exact h.stamp j c hc
  · intro j k b d hb hd hbopen hdopen hseal hid
    obtain ⟨b', hb', hbm, hbt⟩ := hlookup j b hb
    obtain ⟨d', hd', hdm, hdt⟩ := hlookup k d hd
    rw [hbm, hdm] at hseal hid
    exact h.openUnique j k b' d' hb' hd' (hbt hbopen) (hdt hdopen) hseal hid

/-- The step lemma of books. -/
theorem Step.wellFormed {book book' : Book} (hstep : Step book book')
    (h : WellFormed book) : WellFormed book' := by
  cases hstep with
  | stutter => exact h
  | mint context hnone hstamp hunused =>
      have hlookup : ∀ (i : Nat) (a : Instance),
          (book ++ [Instance.mint context hnone])[i]? = some a →
          book[i]? = some a ∨
            (i = book.length ∧ a = Instance.mint context hnone) := by
        intro i a ha
        rw [List.getElem?_append] at ha
        split at ha
        · exact Or.inl ha
        · rw [List.getElem?_singleton] at ha
          split at ha
          · cases ha
            exact Or.inr ⟨by omega, rfl⟩
          · cases ha
      constructor
      · intro i a ha
        rcases hlookup i a ha with ha | ⟨rfl, rfl⟩
        · exact h.stamp i a ha
        · exact hstamp
      · intro i j a b ha hb haopen hbopen hseal hid
        rcases hlookup i a ha with ha | ⟨rfl, rfl⟩ <;>
          rcases hlookup j b hb with hb | ⟨rfl, rfl⟩
        · exact h.openUnique i j a b ha hb haopen hbopen hseal hid
        · exact absurd hid
            (hunused a (List.mem_of_getElem? ha) haopen hseal)
        · exact absurd hid.symm
            (hunused b (List.mem_of_getElem? hb) hbopen hseal.symm)
        · rfl
  | resolve i a model found live unresolved =>
      exact h.set found rfl (fun _ => live)
  | close i a counters found live =>
      exact h.set found rfl (fun _ => live)

theorem WellFormed.tagged_snapshots {book : Book} (h : WellFormed book) :
    Tagged (·.stamp) Instance.snapshots book := by
  intro i a ha c hc
  exact (a.snapshot_stamp hc).trans (h.stamp i a ha)

theorem WellFormed.tagged_samples {book : Book} (h : WellFormed book) :
    Tagged (·.context.stamp) Instance.samples book := by
  intro i a ha s hs
  calc s.context.stamp
      _ = a.latest.stamp := by rw [a.sample_context hs]
      _ = a.minted.stamp := a.latest_stamp
      _ = i := h.stamp i a ha

/-! ## The open instances -/

/-- `c` is the latest snapshot of an open instance of this ledger and id. -/
def Live (book : Book) (ledger : Seal) (requestId : RequestId)
    (c : UsageContextSnapshot) : Prop :=
  ∃ a ∈ book, a.terminal = false ∧ a.minted.lease.ledgerSeal = ledger ∧
    a.minted.requestId = requestId ∧ a.latest = c

/-- A minted instance is live, beside those that were. -/
theorem live_mint (book : Book) (context : UsageContextSnapshot)
    (h : context.resolvedModel = none) (ledger : Seal) (requestId : RequestId)
    (c : UsageContextSnapshot) :
    Live (book ++ [Instance.mint context h]) ledger requestId c ↔
      Live book ledger requestId c ∨
        (context.lease.ledgerSeal = ledger ∧ context.requestId = requestId ∧
          context = c) := by
  constructor
  · rintro ⟨a, ha, hopen, hseal, hid, hc⟩
    rcases List.mem_append.1 ha with ha | ha
    · exact Or.inl ⟨a, ha, hopen, hseal, hid, hc⟩
    · rw [List.mem_singleton] at ha
      subst ha
      exact Or.inr ⟨hseal, hid, hc⟩
  · rintro (⟨a, ha, hrest⟩ | ⟨hseal, hid, hc⟩)
    · exact ⟨a, List.mem_append_left _ ha, hrest⟩
    · exact ⟨Instance.mint context h, by simp, rfl, hseal, hid, hc⟩

/-- Replacing an open instance changes what is live under its own ledger and
id, and under no other. -/
theorem WellFormed.live_set {book : Book} (h : WellFormed book) {i : Nat}
    {a a' : Instance} (found : book[i]? = some a) (live : a.terminal = false)
    (hminted : a'.minted = a.minted) (ledger : Seal) (requestId : RequestId)
    (c : UsageContextSnapshot) :
    Live (book.set i a') ledger requestId c ↔
      if a.minted.lease.ledgerSeal = ledger ∧ a.minted.requestId = requestId then
        a'.terminal = false ∧ a'.latest = c
      else Live book ledger requestId c := by
  have hi : i < book.length := (List.getElem?_eq_some_iff.1 found).1
  split
  · rename_i hkey
    constructor
    · rintro ⟨b, hb, hopen, hseal, hid, hc⟩
      obtain ⟨j, hj⟩ := List.mem_iff_getElem?.1 hb
      by_cases hij : i = j
      · subst hij
        rw [List.getElem?_set_self hi] at hj
        cases hj
        exact ⟨hopen, hc⟩
      · rw [List.getElem?_set_ne hij] at hj
        exact absurd (h.openUnique i j a b found hj live hopen
          (hkey.1.trans hseal.symm) (hkey.2.trans hid.symm)) hij
    · rintro ⟨hopen, hc⟩
      refine ⟨a', List.mem_set hi a', hopen, ?_, ?_, hc⟩
      · rw [hminted]
        exact hkey.1
      · rw [hminted]
        exact hkey.2
  · rename_i hkey
    constructor
    · rintro ⟨b, hb, hopen, hseal, hid, hc⟩
      rcases List.mem_or_eq_of_mem_set hb with hb | rfl
      · exact ⟨b, hb, hopen, hseal, hid, hc⟩
      · rw [hminted] at hseal hid
        exact absurd ⟨hseal, hid⟩ hkey
    · rintro ⟨b, hb, hopen, hseal, hid, hc⟩
      obtain ⟨j, hj⟩ := List.mem_iff_getElem?.1 hb
      have hij : i ≠ j := by
        rintro rfl
        rw [found] at hj
        cases hj
        exact hkey ⟨hseal, hid⟩
      refine ⟨b, List.mem_iff_getElem?.2 ⟨j, ?_⟩, hopen, hseal, hid, hc⟩
      rw [List.getElem?_set_ne hij, hj]

end MCode.Routes.Instances
