import MCode.Routes.Instances
import MCode.Routes.Ledger

/-!
# Usage contexts are exactly once

The host of ledgers refines a book of request instances: in every reachable
state the stamp cells, the live maps and the values handed out are those of
some well-formed book, each successful call is one step of that book, and a
failed call is none.
-/

namespace MCode.Routes.Usage

open Std
open MCode.Lib
open MCode.Lib.Slots
open MCode.Routes.Identity
open MCode.Routes.Stamps
open MCode.Routes.Instances
open MCode.Routes.Table
open MCode.Routes.Ledger

/-! ## What each call can do -/

private theorem validateLease_ok {ledger : Seal} {owner : ProviderRouteOwner}
    {lease : ModelRouteLease} (h : validateLease ledger owner lease = .ok ()) :
    lease.ledgerSeal = ledger := by
  unfold validateLease at h
  split at h
  · cases h
  · rename_i hbelongs
    simpa [ModelRouteLease.belongsTo] using hbelongs

private theorem validateRequestAndTurn_ok {c : UsageContextSnapshot}
    {r : RequestId} {t : TurnId} (h : validateRequestAndTurn c r t = .ok ()) :
    c.requestId = r := by
  unfold validateRequestAndTurn at h
  split at h
  · cases h
  · rename_i hid
    exact not_not.1 hid

private theorem validateContext_ok {host : Host} {ledger : Seal}
    {c : UsageContextSnapshot} (h : host.validateContext ledger c = .ok ()) :
    c.lease.ledgerSeal = ledger := by
  unfold Host.validateContext Host.belongsTo ModelRouteLease.belongsTo at h
  split at h
  · cases h
  · rename_i hbelongs
    simp only [Bool.not_eq_true', Bool.not_eq_false, Bool.and_eq_true,
      beq_iff_eq] at hbelongs
    exact hbelongs.1

theorem mintUsageContext_spec (host : Host) (ledger : Seal)
    (state : LedgerState) (owner : ProviderRouteOwner)
    (lease : ModelRouteLease) (r : RequestId) (t : TurnId) (model : ModelId)
    (requestedAlias : Option ModelAlias) :
    (∃ e, host.mintUsageContext ledger state owner lease r t model
      requestedAlias = (.error (.error e), host)) ∨
    (lease.ledgerSeal = ledger ∧ r ∉ state.requests ∧
      let context := UsageContextSnapshot.new host.stamps.length lease r t
        model requestedAlias
      host.mintUsageContext ledger state owner lease r t model
          requestedAlias =
        (.ok context,
          { host with
            stamps := host.stamps ++ [UsageStamp.new ledger]
            ledgers := host.ledgers.set ledger
              { state with requests := state.requests.insert r context } })) := by
  unfold Host.mintUsageContext
  cases hlease : validateLease ledger owner lease with
  | error e => exact Or.inl ⟨e, rfl⟩
  | ok u =>
      dsimp only
      split
      · exact Or.inl ⟨_, rfl⟩
      rename_i hfresh
      split
      · exact Or.inl ⟨_, rfl⟩
      · rw [← ExtTreeMap.mem_iff_contains] at hfresh
        exact Or.inr ⟨validateLease_ok hlease, hfresh, rfl⟩

/-- The checks that `record_resolved_model` and `mint_terminal_sample` share:
the context is the live one of its own ledger and id, and not terminal. -/
structure Checked (host : Host) (ledger : Seal) (state : LedgerState)
    (context : UsageContextSnapshot) (r : RequestId) : Prop where
  ledgerSeal : context.lease.ledgerSeal = ledger
  requestId : context.requestId = r
  live : state.requests[r]? = some context
  notTerminal : host.isTerminal context = false

theorem recordResolvedModel_spec (host : Host) (ledger : Seal)
    (state : LedgerState) (context : UsageContextSnapshot) (r : RequestId)
    (t : TurnId) (model : ModelId) :
    (∃ e, host.recordResolvedModel ledger state context r t model =
      (.error (.error e), host)) ∨
    (Checked host ledger state context r ∧ context.resolvedModel = none ∧
      host.recordResolvedModel ledger state context r t model =
        (.ok (context.withResolvedModel model),
          { host with
            ledgers := host.ledgers.set ledger
              { state with
                requests := state.requests.insert r
                  (context.withResolvedModel model) } })) := by
  unfold Host.recordResolvedModel
  cases hids : validateRequestAndTurn context r t with
  | error e => exact Or.inl ⟨e, rfl⟩
  | ok u =>
    dsimp only
    cases hcontext : host.validateContext ledger context with
    | error e => exact Or.inl ⟨e, rfl⟩
    | ok u =>
      dsimp only
      split
      · exact Or.inl ⟨_, rfl⟩
      rename_i hterminal
      cases hlive : state.requests[r]? with
      | none => exact Or.inl ⟨_, rfl⟩
      | some liveContext =>
        dsimp only
        split
        · exact Or.inl ⟨_, rfl⟩
        rename_i hsame
        split
        · exact Or.inl ⟨_, rfl⟩
        rename_i hresolved
        simp only [Bool.not_eq_true', Bool.not_eq_false,
          UsageContextSnapshot.sameSnapshot_iff] at hsame
        subst hsame
        exact Or.inr ⟨⟨validateContext_ok hcontext,
          validateRequestAndTurn_ok hids, hlive, by simpa using hterminal⟩,
          by simpa using hresolved, rfl⟩

/-- Neither assertion fires: the checks have found the context live and not
terminal, and the lock is still held. -/
theorem mintTerminalSample_spec (host : Host) (ledger : Seal)
    (state : LedgerState) (context : UsageContextSnapshot) (r : RequestId)
    (t : TurnId) (counters : UsageCounters) :
    (∃ e, host.mintTerminalSample ledger state context r t counters =
      (.error (.error e), host)) ∨
    (Checked host ledger state context r ∧
      host.mintTerminalSample ledger state context r t counters =
        (.ok ⟨context, counters⟩,
          { host with
            stamps := host.stamps.modify context.stamp
              (fun stamp => { stamp with terminal := true })
            ledgers := host.ledgers.set ledger
              { state with requests := state.requests.erase r } })) := by
  unfold Host.mintTerminalSample
  cases hids : validateRequestAndTurn context r t with
  | error e => exact Or.inl ⟨e, rfl⟩
  | ok u =>
    dsimp only
    cases hcontext : host.validateContext ledger context with
    | error e => exact Or.inl ⟨e, rfl⟩
    | ok u =>
      dsimp only
      split
      · exact Or.inl ⟨_, rfl⟩
      rename_i hterminal
      cases hlive : state.requests[r]? with
      | none => exact Or.inl ⟨_, rfl⟩
      | some liveContext =>
        dsimp only
        split
        · exact Or.inl ⟨_, rfl⟩
        rename_i hsame
        simp only [Bool.not_eq_true', Bool.not_eq_false,
          UsageContextSnapshot.sameSnapshot_iff] at hsame
        subst hsame
        rw [Bool.not_eq_true] at hterminal
        refine Or.inr ⟨⟨validateContext_ok hcontext,
          validateRequestAndTurn_ok hids, hlive, hterminal⟩, ?_⟩
        simp [Host.markTerminal, hterminal,
          UsageContextSnapshot.sameRequestInstance]

/-! ## The refinement -/

/-- The host holds exactly what the instances of the book account for. -/
structure Represents (host : Host) (book : Book) : Prop where
  wellFormed : WellFormed book
  stamps : host.stamps = book.map Instance.cell
  contexts : host.contexts.Perm (book.flatMap Instance.snapshots)
  samples : host.samples.Perm (book.flatMap Instance.samples)
  seals : ∀ a ∈ book, a.minted.lease.ledgerSeal < host.ledgers.length
  tables : ∀ state ∈ host.ledgers, state.table.table.Consistent
  live : ∀ (ledger : Nat) (state : LedgerState),
    host.ledgers[ledger]? = some state →
    ∀ r c, state.requests[r]? = some c ↔ Live book ledger r c

theorem represents_empty : Represents Host.empty [] := by
  constructor <;> simp [Host.empty, wellFormed_nil]

namespace Represents

variable {host : Host} {book : Book} (h : Represents host book)
include h

/-- A context that was handed out is a snapshot of the instance it names. -/
theorem instance_of_context {c : UsageContextSnapshot}
    (hc : c ∈ host.contexts) :
    ∃ a, book[c.stamp]? = some a ∧ c ∈ a.snapshots := by
  obtain ⟨a, ha, hca⟩ := List.mem_flatMap.1 (h.contexts.mem_iff.1 hc)
  obtain ⟨i, hi⟩ := List.mem_iff_getElem?.1 ha
  have hstamp : c.stamp = i := h.wellFormed.tagged_snapshots i a hi c hca
  exact ⟨a, hstamp ▸ hi, hca⟩

theorem instance_of_sample {s : UsageSample} (hs : s ∈ host.samples) :
    ∃ a, book[s.context.stamp]? = some a ∧ s ∈ a.samples := by
  obtain ⟨a, ha, hsa⟩ := List.mem_flatMap.1 (h.samples.mem_iff.1 hs)
  obtain ⟨i, hi⟩ := List.mem_iff_getElem?.1 ha
  have hstamp : s.context.stamp = i := h.wellFormed.tagged_samples i a hi s hsa
  exact ⟨a, hstamp ▸ hi, hsa⟩

theorem mem_contexts {i : Nat} {a : Instance} (ha : book[i]? = some a)
    {c : UsageContextSnapshot} (hc : c ∈ a.snapshots) : c ∈ host.contexts :=
  h.contexts.mem_iff.2 (List.mem_flatMap.2 ⟨a, List.mem_of_getElem? ha, hc⟩)

theorem isTerminal_eq {c : UsageContextSnapshot} {a : Instance}
    (ha : book[c.stamp]? = some a) : host.isTerminal c = a.terminal := by
  simp [Host.isTerminal, h.stamps, ha, Instance.cell]

/-- A checked context is the latest snapshot of an open instance. -/
theorem instance_of_checked {ledger : Seal} {state : LedgerState}
    {c : UsageContextSnapshot} {r : RequestId} (hc : c ∈ host.contexts)
    (hledger : host.ledgers[ledger]? = some state)
    (hchecked : Checked host ledger state c r) :
    ∃ a, book[c.stamp]? = some a ∧ a.terminal = false ∧ a.latest = c := by
  obtain ⟨a, ha, -⟩ := h.instance_of_context hc
  obtain ⟨b, hb, hopen, -, -, hlatest⟩ :=
    (h.live ledger state hledger r c).1 hchecked.live
  obtain ⟨j, hj⟩ := List.mem_iff_getElem?.1 hb
  have hstamp : c.stamp = j := by
    rw [← hlatest, b.latest_stamp]
    exact h.wellFormed.stamp j b hj
  exact ⟨b, hstamp ▸ hj, hopen, hlatest⟩

end Represents

/-- The ledger called may change its live map; the others keep theirs. -/
private theorem live_ledgers_set {ledgers : List LedgerState}
    {book book' : Book} {ledger : Nat} {state' : LedgerState}
    (hlive : ∀ (l : Nat) (s : LedgerState), ledgers[l]? = some s →
      ∀ r c, s.requests[r]? = some c ↔ Live book l r c)
    (hcalled : ∀ r c, state'.requests[r]? = some c ↔ Live book' ledger r c)
    (hother : ∀ l, l ≠ ledger → ∀ r c, Live book' l r c ↔ Live book l r c)
    (l : Nat) (s : LedgerState) (hs : (ledgers.set ledger state')[l]? = some s)
    (r : RequestId) (c : UsageContextSnapshot) :
    s.requests[r]? = some c ↔ Live book' l r c := by
  by_cases hl : ledger = l
  · subst hl
    rw [List.getElem?_set] at hs
    simp only [if_true] at hs
    split at hs
    · cases hs
      exact hcalled r c
    · cases hs
  · rw [List.getElem?_set_ne hl] at hs
    rw [hlive l s hs, hother l (Ne.symm hl)]

private theorem tables_set {ledgers : List LedgerState} {ledger : Nat}
    {state' : LedgerState}
    (htables : ∀ s ∈ ledgers, s.table.table.Consistent)
    (hstate' : state'.table.table.Consistent) :
    ∀ s ∈ ledgers.set ledger state', s.table.table.Consistent := by
  intro s hs
  rcases List.mem_or_eq_of_mem_set hs with hs | rfl
  · exact htables s hs
  · exact hstate'

private theorem set_self {α : Type} {l : List α} {i : Nat} {a : α}
    (h : l[i]? = some a) : l.set i a = l := by
  obtain ⟨hlt, rfl⟩ := List.getElem?_eq_some_iff.1 h
  exact List.set_getElem_self hlt

namespace Represents

variable {host : Host} {book : Book} (h : Represents host book)
include h

theorem new : Represents
    { host with ledgers := host.ledgers ++ [LedgerState.new] } book where
  wellFormed := h.wellFormed
  stamps := h.stamps
  contexts := h.contexts
  samples := h.samples
  seals a ha := by
    simp only [List.length_append, List.length_singleton]
    exact Nat.lt_succ_of_lt (h.seals a ha)
  tables s hs := by
    rcases List.mem_append.1 hs with hs | hs
    · exact h.tables s hs
    · rw [List.mem_singleton.1 hs]
      exact RouteTable.consistent_default
  live l s hs r c := by
    rw [List.getElem?_append] at hs
    split at hs
    · exact h.live l s hs r c
    · rename_i hl
      rw [List.getElem?_singleton] at hs
      split at hs
      · cases hs
        simp only [LedgerState.new, ExtTreeMap.getElem?_empty, reduceCtorEq,
          false_iff]
        rintro ⟨a, ha, -, rfl, -⟩
        exact hl (h.seals a ha)
      · cases hs

/-- A registration leaves the live maps alone. -/
theorem register {ledger : Nat} {state : LedgerState}
    (hledger : host.ledgers[ledger]? = some state) {table : PublishedTable}
    (htable : table.table.Consistent) :
    Represents
      { host with ledgers := host.ledgers.set ledger { state with table } }
      book where
  wellFormed := h.wellFormed
  stamps := h.stamps
  contexts := h.contexts
  samples := h.samples
  seals a ha := by
    rw [List.length_set]
    exact h.seals a ha
  tables := tables_set h.tables htable
  live := live_ledgers_set h.live (h.live ledger state hledger)
    (fun _ _ _ _ => Iff.rfl)

theorem mintUsageContext {ledger : Nat} {state : LedgerState}
    (hledger : host.ledgers[ledger]? = some state) {lease : ModelRouteLease}
    (hseal : lease.ledgerSeal = ledger) {r : RequestId}
    (hfresh : r ∉ state.requests) (t : TurnId) (model : ModelId)
    (requestedAlias : Option ModelAlias) :
    let context := UsageContextSnapshot.new host.stamps.length lease r t model
      requestedAlias
    ∃ book', Step book book' ∧
      Represents
        { host with
          stamps := host.stamps ++ [UsageStamp.new ledger]
          ledgers := host.ledgers.set ledger
            { state with requests := state.requests.insert r context }
          contexts := host.contexts ++ [context] }
        book' := by
  intro context
  have hnone : context.resolvedModel = none := rfl
  have hstep : Step book (book ++ [Instance.mint context hnone]) := by
    refine Step.mint book context hnone ?_ ?_
    · simp [context, UsageContextSnapshot.new, h.stamps]
    · intro a ha hopen haseal hid
      refine hfresh (ExtTreeMap.mem_iff_isSome_getElem?.2 ?_)
      rw [(h.live ledger state hledger r a.latest).2
        ⟨a, ha, hopen, haseal.trans hseal, hid, rfl⟩]
      rfl
  refine ⟨_, hstep, ?_⟩
  exact
    { wellFormed := hstep.wellFormed h.wellFormed
      stamps := by
        rw [List.map_append, h.stamps, ← hseal]
        rfl
      contexts := by
        rw [List.flatMap_append]
        exact h.contexts.append_right _
      samples := by
        rw [List.flatMap_append]
        simpa [Instance.samples, Instance.mint] using h.samples
      seals := by
        intro a ha
        rw [List.length_set]
        rcases List.mem_append.1 ha with ha | ha
        · exact h.seals a ha
        · rw [List.mem_singleton.1 ha]
          have := (List.getElem?_eq_some_iff.1 hledger).1
          exact hseal ▸ this
      tables := tables_set h.tables
        (h.tables state (List.mem_of_getElem? hledger))
      live := by
        refine live_ledgers_set h.live ?_ ?_
        · intro q c
          rw [live_mint, ← h.live ledger state hledger q c]
          simp only [ExtTreeMap.getElem?_insert, Std.compare_eq_iff_eq]
          by_cases hq : r = q
          · subst hq
            have habsent : state.requests[r]? = none :=
              ExtTreeMap.getElem?_eq_none hfresh
            simp [habsent, context, UsageContextSnapshot.new, hseal]
          · simp [hq, context, UsageContextSnapshot.new]
        · intro l hl q c
          rw [live_mint]
          simp [context, UsageContextSnapshot.new, hseal, hl.symm] }

/-- What a checked context stands for in the book. -/
private theorem checked_live {ledger : Nat} {state : LedgerState}
    (hledger : host.ledgers[ledger]? = some state) {a b : Instance}
    {i : Nat} (ha : book[i]? = some a) (hopen : a.terminal = false)
    (hminted : b.minted = a.minted)
    (hseal : a.minted.lease.ledgerSeal = ledger)
    {requests : ExtTreeMap RequestId UsageContextSnapshot}
    (hcalled : ∀ q c, requests[q]? = some c ↔
      if a.minted.requestId = q then b.terminal = false ∧ b.latest = c
      else state.requests[q]? = some c) :
    ∀ (l : Nat) (s : LedgerState),
      (host.ledgers.set ledger { state with requests })[l]? = some s →
      ∀ q c, s.requests[q]? = some c ↔ Live (book.set i b) l q c := by
  refine live_ledgers_set h.live ?_ ?_
  · intro q c
    rw [hcalled, h.wellFormed.live_set ha hopen hminted,
      h.live ledger state hledger q c]
    simp [hseal]
  · intro l hl q c
    rw [h.wellFormed.live_set ha hopen hminted]
    simp [hseal, hl.symm]

private theorem seals_set {i : Nat} {a a' : Instance}
    (ha : book[i]? = some a) (hminted : a'.minted = a.minted) :
    ∀ b ∈ book.set i a', b.minted.lease.ledgerSeal < host.ledgers.length := by
  intro b hb
  rcases List.mem_or_eq_of_mem_set hb with hb | rfl
  · exact h.seals b hb
  · rw [hminted]
    exact h.seals a (List.mem_of_getElem? ha)

theorem recordResolvedModel {ledger : Nat} {state : LedgerState}
    (hledger : host.ledgers[ledger]? = some state)
    {c : UsageContextSnapshot} (hc : c ∈ host.contexts) {r : RequestId}
    (hchecked : Checked host ledger state c r)
    (hunresolved : c.resolvedModel = none) (model : ModelId) :
    ∃ book', Step book book' ∧
      Represents
        { host with
          ledgers := host.ledgers.set ledger
            { state with
              requests := state.requests.insert r (c.withResolvedModel model) }
          contexts := host.contexts ++ [c.withResolvedModel model] }
        book' := by
  obtain ⟨a, ha, hopen, hlatest⟩ := h.instance_of_checked hc hledger hchecked
  have hnone : a.resolved = none := by
    rw [← a.latest_resolvedModel, hlatest, hunresolved]
  have hminted : a.minted = c := by
    rw [← hlatest]
    simp [Instance.latest, hnone]
  have hnext : (a.resolve model).latest = c.withResolvedModel model := by
    rw [← hminted]
    rfl
  have hstep := Step.resolve book c.stamp a model ha hopen hnone
  refine ⟨_, hstep, ?_⟩
  exact
    { wellFormed := hstep.wellFormed h.wellFormed
      stamps := by
        have hcell : (book.map Instance.cell)[c.stamp]? =
            some (a.resolve model).cell := by
          rw [List.getElem?_map, ha]
          rfl
        rw [List.map_set, set_self hcell]
        exact h.stamps
      contexts := by
        rw [← hnext]
        exact (h.contexts.append_right _).trans
          (flatMap_set_perm ha (a.resolve_snapshots model hnone)).symm
      samples := by
        rw [flatMap_set_eq ha (a.resolve_samples model hopen)]
        exact h.samples
      seals := by
        rw [List.length_set]
        exact h.seals_set ha rfl
      tables := tables_set h.tables
        (h.tables state (List.mem_of_getElem? hledger))
      live := by
        refine h.checked_live (b := a.resolve model) hledger ha hopen rfl
          (hminted ▸ hchecked.ledgerSeal) ?_
        intro q d
        simp only [ExtTreeMap.getElem?_insert, Std.compare_eq_iff_eq, hminted,
          hchecked.requestId, hnext]
        split
        · rw [Option.some.injEq]
          exact (and_iff_right hopen).symm
        · rfl }

theorem mintTerminalSample {ledger : Nat} {state : LedgerState}
    (hledger : host.ledgers[ledger]? = some state)
    {c : UsageContextSnapshot} (hc : c ∈ host.contexts) {r : RequestId}
    (hchecked : Checked host ledger state c r) (counters : UsageCounters) :
    ∃ book', Step book book' ∧
      Represents
        { host with
          stamps := host.stamps.modify c.stamp
            (fun stamp => { stamp with terminal := true })
          ledgers := host.ledgers.set ledger
            { state with requests := state.requests.erase r }
          samples := host.samples ++ [⟨c, counters⟩] }
        book' := by
  obtain ⟨a, ha, hopen, hlatest⟩ := h.instance_of_checked hc hledger hchecked
  have hstep := Step.close book c.stamp a counters ha hopen
  refine ⟨_, hstep, ?_⟩
  exact
    { wellFormed := hstep.wellFormed h.wellFormed
      stamps := by
        rw [List.map_set, h.stamps, List.modify_eq_set_getElem?]
        simp [ha, Instance.cell, Instance.close, Instance.terminal]
      contexts := by
        rw [flatMap_set_eq ha (show (a.close counters).snapshots = a.snapshots from rfl)]
        exact h.contexts
      samples := by
        have hclose := flatMap_set_perm ha (a.close_samples counters hopen)
        rw [hlatest] at hclose
        exact (h.samples.append_right _).trans hclose.symm
      seals := by
        rw [List.length_set]
        exact h.seals_set ha rfl
      tables := tables_set h.tables
        (h.tables state (List.mem_of_getElem? hledger))
      live := by
        refine h.checked_live (b := a.close counters) hledger ha hopen rfl ?_ ?_
        · rw [← a.latest_lease, hlatest]
          exact hchecked.ledgerSeal
        · intro q d
          simp only [ExtTreeMap.getElem?_erase, Std.compare_eq_iff_eq,
            ← a.latest_requestId, hlatest, hchecked.requestId]
          split
          · simp [Instance.close, Instance.terminal]
          · rfl }

end Represents

/-- The simulation: a call that fails changes nothing and does not panic, and
one that succeeds is one step of the book. -/
theorem Represents.call {host host' : Host} {book : Book}
    (h : Represents host book) {call : Call}
    {result : Except Fault Reply}
    (hcall : host.call call = some (result, host')) :
    (∃ e, result = .error (.error e) ∧ host' = host) ∨
    (∃ reply book', result = .ok reply ∧ Step book book' ∧
      Represents host' book') := by
  cases call with
  | new =>
      simp only [Host.call, Option.some.injEq, Prod.mk.injEq] at hcall
      obtain ⟨rfl, rfl⟩ := hcall
      exact Or.inr ⟨_, book, rfl, Step.stutter book, h.new⟩
  | registerOwnerClaims ledger owner claims =>
      simp only [Host.call, Option.map_eq_some_iff] at hcall
      obtain ⟨state, hledger, hcall⟩ := hcall
      have hconsistent := h.tables state (List.mem_of_getElem? hledger)
      rcases state.table.registerOwnerClaims_spec owner claims hconsistent with
        ⟨-, after, -, hafter, heq⟩ | ⟨-, e, heq⟩
      · rw [heq] at hcall
        cases hcall
        exact Or.inr ⟨_, book, rfl, Step.stutter book,
          h.register hledger hafter⟩
      · rw [heq] at hcall
        cases hcall
        refine Or.inl ⟨e, rfl, ?_⟩
        rw [show ({ state with table := state.table } : LedgerState) = state from rfl,
          set_self hledger]
  | mintModelRouteLease ledger owner routeId currentModel =>
      simp only [Host.call, Option.map_eq_some_iff] at hcall
      obtain ⟨state, hledger, hcall⟩ := hcall
      cases hmint : Ledger.mintModelRouteLease ledger state owner routeId
          currentModel with
      | error e =>
          rw [hmint] at hcall
          cases hcall
          exact Or.inl ⟨e, rfl, rfl⟩
      | ok lease =>
          rw [hmint] at hcall
          cases hcall
          exact Or.inr ⟨_, book, rfl, Step.stutter book, { h with }⟩
  | mintUsageContext ledger owner lease r t model requestedAlias =>
      simp only [Host.call] at hcall
      split at hcall
      · rw [Option.map_eq_some_iff] at hcall
        obtain ⟨state, hledger, hcall⟩ := hcall
        rcases mintUsageContext_spec host ledger state owner lease r t model
            requestedAlias with ⟨e, heq⟩ | ⟨hseal, hfresh, heq⟩
        · rw [heq] at hcall
          cases hcall
          exact Or.inl ⟨e, rfl, rfl⟩
        · rw [heq] at hcall
          cases hcall
          obtain ⟨book', hstep, hnext⟩ := h.mintUsageContext hledger hseal
            hfresh t model requestedAlias
          exact Or.inr ⟨_, book', rfl, hstep, hnext⟩
      · cases hcall
  | recordResolvedModel ledger context r t model =>
      simp only [Host.call] at hcall
      split at hcall
      · rename_i hcontext
        rw [Option.map_eq_some_iff] at hcall
        obtain ⟨state, hledger, hcall⟩ := hcall
        rcases recordResolvedModel_spec host ledger state context r t model with
          ⟨e, heq⟩ | ⟨hchecked, hunresolved, heq⟩
        · rw [heq] at hcall
          cases hcall
          exact Or.inl ⟨e, rfl, rfl⟩
        · rw [heq] at hcall
          cases hcall
          obtain ⟨book', hstep, hnext⟩ := h.recordResolvedModel hledger
            hcontext hchecked hunresolved model
          exact Or.inr ⟨_, book', rfl, hstep, hnext⟩
      · cases hcall
  | mintTerminalSample ledger context r t counters =>
      simp only [Host.call] at hcall
      split at hcall
      · rename_i hcontext
        rw [Option.map_eq_some_iff] at hcall
        obtain ⟨state, hledger, hcall⟩ := hcall
        rcases mintTerminalSample_spec host ledger state context r t counters with
          ⟨e, heq⟩ | ⟨hchecked, heq⟩
        · rw [heq] at hcall
          cases hcall
          exact Or.inl ⟨e, rfl, rfl⟩
        · rw [heq] at hcall
          cases hcall
          obtain ⟨book', hstep, hnext⟩ := h.mintTerminalSample hledger
            hcontext hchecked counters
          exact Or.inr ⟨_, book', rfl, hstep, hnext⟩
      · cases hcall

/-- Every reachable host is represented by a book. -/
theorem represents_reachable {host : Host} (h : Reachable host) :
    ∃ book, Represents host book := by
  refine h.preserves (I := fun host => ∃ book, Represents host book) ?_
    ⟨[], represents_empty⟩
  rintro host call host' ⟨book, hbook⟩ hstep
  obtain ⟨⟨result, next⟩, hcall, rfl⟩ := Option.map_eq_some_iff.1 hstep
  rcases hbook.call hcall with ⟨e, -, rfl⟩ | ⟨reply, book', -, -, hnext⟩
  · exact ⟨book, hbook⟩
  · exact ⟨book', hnext⟩

/-! ## What the book says about the values handed out -/

/-- A request instance of this ledger and id that is not terminal.  An
instance is named by its stamp and known by the contexts handed out. -/
def OpenInstance (host : Host) (ledger : Seal) (r : RequestId)
    (stamp : StampRef) : Prop :=
  ∃ c ∈ host.contexts, c.stamp = stamp ∧ c.lease.ledgerSeal = ledger ∧
    c.requestId = r ∧ host.isTerminal c = false

/-- `c` is a snapshot that no later one of its instance has replaced. -/
def Latest (host : Host) (c : UsageContextSnapshot) : Prop :=
  c ∈ host.contexts ∧ ∀ d ∈ host.contexts, d.stamp = c.stamp →
    d.resolvedModel.isSome → d = c

namespace Represents

variable {host : Host} {book : Book} (h : Represents host book)
include h

theorem latest_of_instance {i : Nat} {a : Instance} (ha : book[i]? = some a) :
    Latest host a.latest := by
  refine ⟨h.mem_contexts ha a.latest_mem_snapshots, ?_⟩
  intro d hd hstamp hresolved
  obtain ⟨b, hb, hdb⟩ := h.instance_of_context hd
  rw [hstamp, a.latest_stamp, h.wellFormed.stamp i a ha, ha] at hb
  cases hb
  exact a.resolved_snapshot hdb hresolved

theorem resolved_le_one (stamp : StampRef) :
    (host.contexts.filter
      (fun c => c.resolvedModel.isSome && c.stamp == stamp)).length ≤ 1 := by
  rw [(h.contexts.filter _).length_eq, ← List.filter_filter,
    h.wellFormed.tagged_snapshots.filter_flatMap]
  cases book[stamp]? with
  | none => simp
  | some a => exact a.resolved_snapshots_le_one

theorem sampled_le_one (stamp : StampRef) :
    (host.samples.filter (fun s => s.context.stamp == stamp)).length ≤ 1 := by
  rw [(h.samples.filter _).length_eq,
    h.wellFormed.tagged_samples.filter_flatMap]
  cases book[stamp]? with
  | none => simp
  | some a => exact a.samples_le_one

theorem sample_latest {s : UsageSample} (hs : s ∈ host.samples) :
    Latest host s.context := by
  obtain ⟨a, ha, hsa⟩ := h.instance_of_sample hs
  rw [a.sample_context hsa]
  exact h.latest_of_instance ha

theorem terminal_iff_sampled {c : UsageContextSnapshot}
    (hc : c ∈ host.contexts) :
    host.isTerminal c = true ↔
      ∃ s ∈ host.samples, s.context.stamp = c.stamp := by
  obtain ⟨a, ha, -⟩ := h.instance_of_context hc
  rw [h.isTerminal_eq ha]
  constructor
  · intro hterminal
    obtain ⟨k, hk⟩ := Option.isSome_iff_exists.1 hterminal
    refine ⟨⟨a.latest, k⟩, h.samples.mem_iff.2 (List.mem_flatMap.2
      ⟨a, List.mem_of_getElem? ha, ?_⟩), ?_⟩
    · simp [Instance.samples, hk]
    · exact a.latest_stamp.trans (h.wellFormed.stamp _ a ha)
  · rintro ⟨s, hs, hstamp⟩
    obtain ⟨b, hb, hsb⟩ := h.instance_of_sample hs
    rw [hstamp, ha] at hb
    cases hb
    exact a.terminal_of_sample hsb

theorem openInstance_iff {ledger : Seal} {r : RequestId} {i : StampRef} :
    OpenInstance host ledger r i ↔
      ∃ a, book[i]? = some a ∧ a.terminal = false ∧
        a.minted.lease.ledgerSeal = ledger ∧ a.minted.requestId = r := by
  constructor
  · rintro ⟨c, hc, rfl, hseal, hid, hopen⟩
    obtain ⟨a, ha, hca⟩ := h.instance_of_context hc
    rw [h.isTerminal_eq ha] at hopen
    rw [a.snapshot_lease hca] at hseal
    rw [a.snapshot_requestId hca] at hid
    exact ⟨a, ha, hopen, hseal, hid⟩
  · rintro ⟨a, ha, hopen, hseal, hid⟩
    have hstamp := h.wellFormed.stamp i a ha
    refine ⟨a.minted, h.mem_contexts ha List.mem_cons_self, hstamp, hseal,
      hid, ?_⟩
    rw [h.isTerminal_eq (a := a) (by rw [hstamp, ha]), hopen]

theorem openInstance_unique {ledger : Seal} {r : RequestId} {i j : StampRef}
    (hi : OpenInstance host ledger r i) (hj : OpenInstance host ledger r j) :
    i = j := by
  obtain ⟨a, ha, haopen, haseal, haid⟩ := h.openInstance_iff.1 hi
  obtain ⟨b, hb, hbopen, hbseal, hbid⟩ := h.openInstance_iff.1 hj
  exact h.wellFormed.openUnique i j a b ha hb haopen hbopen
    (haseal.trans hbseal.symm) (haid.trans hbid.symm)

theorem live_iff_open {ledger : Nat} {state : LedgerState}
    (hledger : host.ledgers[ledger]? = some state) (r : RequestId) :
    r ∈ state.requests ↔ ∃ i, OpenInstance host ledger r i := by
  rw [ExtTreeMap.mem_iff_isSome_getElem?, Option.isSome_iff_exists]
  constructor
  · rintro ⟨c, hc⟩
    obtain ⟨a, ha, hopen, hseal, hid, -⟩ := (h.live ledger state hledger r c).1 hc
    obtain ⟨i, hi⟩ := List.mem_iff_getElem?.1 ha
    exact ⟨i, h.openInstance_iff.2 ⟨a, hi, hopen, hseal, hid⟩⟩
  · rintro ⟨i, hi⟩
    obtain ⟨a, ha, hopen, hseal, hid⟩ := h.openInstance_iff.1 hi
    exact ⟨a.latest, (h.live ledger state hledger r a.latest).2
      ⟨a, List.mem_of_getElem? ha, hopen, hseal, hid, rfl⟩⟩

theorem live_latest {ledger : Nat} {state : LedgerState}
    (hledger : host.ledgers[ledger]? = some state) {r : RequestId}
    {c : UsageContextSnapshot} (hc : state.requests[r]? = some c) :
    Latest host c ∧ OpenInstance host ledger r c.stamp := by
  obtain ⟨a, ha, hopen, hseal, hid, rfl⟩ := (h.live ledger state hledger r c).1 hc
  obtain ⟨i, hi⟩ := List.mem_iff_getElem?.1 ha
  have hstamp : a.latest.stamp = i :=
    a.latest_stamp.trans (h.wellFormed.stamp i a hi)
  exact ⟨h.latest_of_instance hi,
    h.openInstance_iff.2 ⟨a, hstamp ▸ hi, hopen, hseal, hid⟩⟩

end Represents

/-! ## Calls that name a context -/

/-- The context a call acts on. -/
def Call.context? : Call → Option UsageContextSnapshot
  | .recordResolvedModel _ context _ _ _ => some context
  | .mintTerminalSample _ context _ _ _ => some context
  | _ => none

/-- A call that acts on a terminal context fails and changes nothing. -/
theorem call_terminal {host host' : Host} {call : Call}
    {context : UsageContextSnapshot} {result : Except Fault Reply}
    (hcontext : Call.context? call = some context)
    (hterminal : host.isTerminal context = true)
    (hcall : host.call call = some (result, host')) :
    host' = host ∧ ∃ e, result = .error (.error e) := by
  cases call with
  | recordResolvedModel ledger c r t model =>
      cases hcontext
      simp only [Host.call] at hcall
      split at hcall
      · obtain ⟨state, -, hcall⟩ := Option.map_eq_some_iff.1 hcall
        rcases recordResolvedModel_spec host ledger state context r t model with
          ⟨e, heq⟩ | ⟨hchecked, -⟩
        · rw [heq] at hcall
          cases hcall
          exact ⟨rfl, e, rfl⟩
        · rw [hchecked.notTerminal] at hterminal
          cases hterminal
      · cases hcall
  | mintTerminalSample ledger c r t counters =>
      cases hcontext
      simp only [Host.call] at hcall
      split at hcall
      · obtain ⟨state, -, hcall⟩ := Option.map_eq_some_iff.1 hcall
        rcases mintTerminalSample_spec host ledger state context r t counters with
          ⟨e, heq⟩ | ⟨hchecked, -⟩
        · rw [heq] at hcall
          cases hcall
          exact ⟨rfl, e, rfl⟩
        · rw [hchecked.notTerminal] at hterminal
          cases hterminal
      · cases hcall
  | new => cases hcontext
  | registerOwnerClaims ledger owner claims => cases hcontext
  | mintModelRouteLease ledger owner routeId model => cases hcontext
  | mintUsageContext ledger owner lease r t model requestedAlias => cases hcontext

theorem call_recordResolvedModel {host host' : Host} {ledger : Seal}
    {c c' : UsageContextSnapshot} {r : RequestId} {t : TurnId} {m : ModelId}
    (hcall : host.call (.recordResolvedModel ledger c r t m) =
      some (.ok (.context c'), host')) :
    c' = c.withResolvedModel m := by
  simp only [Host.call] at hcall
  split at hcall
  · obtain ⟨state, -, hcall⟩ := Option.map_eq_some_iff.1 hcall
    rcases recordResolvedModel_spec host ledger state c r t m with
      ⟨e, heq⟩ | ⟨-, -, heq⟩
    · rw [heq] at hcall
      cases hcall
    · rw [heq] at hcall
      cases hcall
      rfl
  · cases hcall

theorem call_mintTerminalSample {host host' : Host} {ledger : Seal}
    {c : UsageContextSnapshot} {r : RequestId} {t : TurnId}
    {k : UsageCounters} {s : UsageSample}
    (hcall : host.call (.mintTerminalSample ledger c r t k) =
      some (.ok (.sample s), host')) :
    s = ⟨c, k⟩ := by
  simp only [Host.call] at hcall
  split at hcall
  · obtain ⟨state, -, hcall⟩ := Option.map_eq_some_iff.1 hcall
    rcases mintTerminalSample_spec host ledger state c r t k with
      ⟨e, heq⟩ | ⟨-, heq⟩
    · rw [heq] at hcall
      cases hcall
    · rw [heq] at hcall
      cases hcall
      rfl
  · cases hcall

/-! ## The guarantee -/

/-- What holds of the usage contexts of a host. -/
structure ExactlyOnce (host : Host) : Prop where
  resolvedOnce : ∀ stamp, (host.contexts.filter
    (fun c => c.resolvedModel.isSome && c.stamp == stamp)).length ≤ 1
  sampledOnce : ∀ stamp,
    (host.samples.filter (fun s => s.context.stamp == stamp)).length ≤ 1
  sampleLatest : ∀ s ∈ host.samples, Latest host s.context
  terminalIff : ∀ c ∈ host.contexts, (host.isTerminal c = true ↔
    ∃ s ∈ host.samples, s.context.stamp = c.stamp)
  liveIff : ∀ (ledger : Nat) (state : LedgerState),
    host.ledgers[ledger]? = some state →
    ∀ r, r ∈ state.requests ↔ ∃ i, OpenInstance host ledger r i
  openUnique : ∀ ledger r i j,
    OpenInstance host ledger r i → OpenInstance host ledger r j → i = j
  liveLatest : ∀ (ledger : Nat) (state : LedgerState),
    host.ledgers[ledger]? = some state →
    ∀ r c, state.requests[r]? = some c →
      Latest host c ∧ OpenInstance host ledger r c.stamp
  terminalInert : ∀ call c, Call.context? call = some c →
    host.isTerminal c = true → ∀ result host',
    host.call call = some (result, host') →
      host' = host ∧ ∃ e, result = .error (.error e)
  failureInert : ∀ call fault host',
    host.call call = some (.error fault, host') →
      host' = host ∧ ∃ e, fault = .error e
  records : ∀ ledger c r t m c' host',
    host.call (.recordResolvedModel ledger c r t m) =
      some (.ok (.context c'), host') → c' = c.withResolvedModel m
  samples : ∀ ledger c r t k s host',
    host.call (.mintTerminalSample ledger c r t k) =
      some (.ok (.sample s), host') → s = ⟨c, k⟩

/-- **Usage contexts under every sequence of calls.**  Each request instance
gets at most one resolved model and one sample; a sample carries the latest
snapshot and the counters given; a live map holds an id exactly when one open
instance has it; a terminal context can do nothing any more; and a failed
call changes nothing and never comes from an assertion. -/
theorem usage_contexts_exactly_once (host : Host) (h : Reachable host) :
    ExactlyOnce host := by
  obtain ⟨book, hbook⟩ := represents_reachable h
  exact
    { resolvedOnce := hbook.resolved_le_one
      sampledOnce := hbook.sampled_le_one
      sampleLatest := fun _ => hbook.sample_latest
      terminalIff := fun _ => hbook.terminal_iff_sampled
      liveIff := fun _ _ hledger => hbook.live_iff_open hledger
      openUnique := fun _ _ _ _ => hbook.openInstance_unique
      liveLatest := fun _ _ hledger _ _ => hbook.live_latest hledger
      terminalInert := fun _ _ hcontext hterminal _ _ =>
        call_terminal hcontext hterminal
      failureInert := by
        intro call fault host' hcall
        rcases hbook.call hcall with ⟨e, hfault, hhost⟩ | ⟨reply, _, hok, -⟩
        · cases hfault
          exact ⟨hhost, e, rfl⟩
        · cases hok
      records := fun _ _ _ _ _ _ _ => call_recordResolvedModel
      samples := fun _ _ _ _ _ _ _ => call_mintTerminalSample }

/-! A request that is minted, resolved and closed, on one ledger with one
route. -/

private def owner : ProviderRouteOwner :=
  ⟨.Providers, ⟨"1.0.0", "d0"⟩, "pack", "registry", ⟨"1.0.0", "d1"⟩,
    ⟨1, by decide⟩⟩

private def claim : ProviderRouteClaim :=
  ⟨⟨"openai", by decide⟩, ⟨"openai/main", by decide⟩, ⟨"main", by decide⟩, "e", "a"⟩

private def minted : UsageContextSnapshot :=
  UsageContextSnapshot.new 0 ⟨0, ⟨owner, claim⟩, ⟨"gpt", by decide⟩⟩
    ⟨"req-1", by decide⟩ ⟨"turn-1", by decide⟩ ⟨"gpt", by decide⟩ none

private def counters : UsageCounters := ⟨some ⟨7, by decide⟩, none, none, none⟩

private def closingRun : List Call :=
  let resolved := minted.withResolvedModel ⟨"gpt-2", by decide⟩
  [.new,
    .registerOwnerClaims 0 owner [claim],
    .mintModelRouteLease 0 owner claim.routeId minted.lease.currentModel,
    .mintUsageContext 0 owner minted.lease minted.requestId minted.turnId
      minted.requestedModel none,
    .recordResolvedModel 0 minted minted.requestId minted.turnId
      ⟨"gpt-2", by decide⟩,
    .mintTerminalSample 0 resolved minted.requestId minted.turnId counters]

theorem usage_contexts_exactly_once_closing :
    ∃ host, Machine.run Host.step Host.empty closingRun = some host ∧
      host.samples.length = 1 ∧ ExactlyOnce host := by
  have hrun : (Machine.run Host.step Host.empty closingRun).any
      (fun host => host.samples.length = 1) = true := by decide
  obtain ⟨host, hhost, hsamples⟩ := (Option.any_eq_true _ _).1 hrun
  exact ⟨host, hhost, of_decide_eq_true hsamples,
    usage_contexts_exactly_once host ⟨closingRun, hhost⟩⟩

end MCode.Routes.Usage
