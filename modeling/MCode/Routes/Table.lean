import MCode.Lib.FreshKeys
import MCode.Routes.Stamps

/-!
# The route table and its registrations

`RouteTable`, `register_owner_claims`, `collect_claims` and
`validate_registration` of `provider_routes/ledger.rs`.  The table is three
`BTreeMap`s over one set of claims; a registration checks the whole batch
against itself and against the table, and only then inserts it into a copy
that replaces the published one.

The copy matters to whoever holds an earlier snapshot, so the published
tables are kept in the order of their publication: a `ProviderRouteSnapshot`
is the place of its table among them, which is what an `Arc<RouteTable>`
shared with the ledger amounts to.
-/

namespace MCode.Routes.Table

open Std
open MCode.Lib.FreshKeys
open MCode.Routes.Identity
open MCode.Routes.Stamps

def MAX_PROVIDER_ROUTE_CLAIMS_PER_BATCH : Nat := 256
def MAX_PROVIDER_ROUTE_CLAIMS : Nat := 4096

/-- `u64::checked_add`. -/
def checkedAdd (a b : Nat) : Option Nat :=
  if a + b < 2 ^ 64 then some (a + b) else none

structure RouteTable where
  revision : Nat
  routes : ExtTreeMap ProviderRouteId ProviderRouteOwnership
  providers : ExtTreeMap ProviderId ProviderRouteId
  authSlots : ExtTreeMap AuthSlotId ProviderRouteId

def RouteTable.default : RouteTable := ⟨0, ∅, ∅, ∅⟩

/-! ## Registration -/

/-- The loop of `collect_claims`: the claims taken so far, and the rest of
the iterator. -/
def collectFrom (collected : List ProviderRouteClaim) :
    List ProviderRouteClaim →
      Except ProviderRouteError (List ProviderRouteClaim)
  | [] => .ok collected
  | claim :: claims =>
      if collected.length = MAX_PROVIDER_ROUTE_CLAIMS_PER_BATCH then
        .error .ClaimBatchTooLarge
      else collectFrom (collected ++ [claim]) claims

def collectClaims (claims : List ProviderRouteClaim) :
    Except ProviderRouteError (List ProviderRouteClaim) :=
  match collectFrom [] claims with
  | .error e => .error e
  | .ok [] => .error .EmptyClaimBatch
  | .ok collected => .ok collected

/-- The first loop of `validate_registration`, with the three sets of
identifiers seen so far. -/
def rejectRepeats (providers : ExtTreeSet ProviderId)
    (routes : ExtTreeSet ProviderRouteId) (authSlots : ExtTreeSet AuthSlotId) :
    List ProviderRouteClaim → Except ProviderRouteError Unit
  | [] => .ok ()
  | claim :: claims =>
      if providers.contains claim.providerId then .error .DuplicateProviderId
      else if routes.contains claim.routeId then .error .DuplicateRouteId
      else if authSlots.contains claim.authSlotId then
        .error .DuplicateAuthSlotId
      else
        rejectRepeats (providers.insert claim.providerId)
          (routes.insert claim.routeId) (authSlots.insert claim.authSlotId)
          claims

def validateRegistration (table : RouteTable)
    (claims : List ProviderRouteClaim) : Except ProviderRouteError Unit :=
  match rejectRepeats ∅ ∅ ∅ claims with
  | .error e => .error e
  | .ok () =>
      if claims.any (fun c => table.providers.contains c.providerId) then
        .error .ProviderIdCollision
      else if claims.any (fun c => table.routes.contains c.routeId) then
        .error .RouteIdCollision
      else if claims.any (fun c => table.authSlots.contains c.authSlotId) then
        .error .AuthSlotIdCollision
      else if (checkedAdd table.routes.size claims.length).all
          (fun count => MAX_PROVIDER_ROUTE_CLAIMS < count) then
        .error .RouteCapacityExceeded
      else .ok ()

/-- One iteration of the insertion loop. -/
def insertClaim (owner : ProviderRouteOwner) (candidate : RouteTable)
    (claim : ProviderRouteClaim) : RouteTable :=
  { candidate with
    providers := candidate.providers.insert claim.providerId claim.routeId
    authSlots := candidate.authSlots.insert claim.authSlotId claim.routeId
    routes := candidate.routes.insert claim.routeId ⟨owner, claim⟩ }

/-- The candidate table that `register_owner_claims` publishes. -/
def RouteTable.registerOwnerClaims (table : RouteTable)
    (owner : ProviderRouteOwner) (claims : List ProviderRouteClaim) :
    Except Fault RouteTable :=
  if owner.managerFamily ≠ .Providers then
    .error (.error .WrongManagerFamily)
  else
    match collectClaims claims with
    | .error e => .error (.error e)
    | .ok claims =>
        match validateRegistration table claims with
        | .error e => .error (.error e)
        | .ok () =>
            match checkedAdd table.revision 1 with
            | none =>
                .error (.panic "bounded append-only route table revision cannot overflow")
            | some revision =>
                .ok (claims.foldl (insertClaim owner) { table with revision })

/-! ## Publication -/

/-- The tables a ledger has published: the replaced ones, oldest first, and
the current one. -/
structure PublishedTable where
  replaced : List RouteTable
  table : RouteTable

def PublishedTable.new : PublishedTable := ⟨[], RouteTable.default⟩

/-- A `ProviderRouteSnapshot`: which publication it holds. -/
abbrev ProviderRouteSnapshot := Nat

def PublishedTable.snapshot (self : PublishedTable) : ProviderRouteSnapshot :=
  self.replaced.length

/-- The table behind a snapshot. -/
def PublishedTable.deref (self : PublishedTable)
    (snapshot : ProviderRouteSnapshot) : Option RouteTable :=
  (self.replaced ++ [self.table])[snapshot]?

/-- `register_owner_claims` on the published table: the result, and what is
published afterwards. -/
def PublishedTable.registerOwnerClaims (self : PublishedTable)
    (owner : ProviderRouteOwner) (claims : List ProviderRouteClaim) :
    Except Fault ProviderRouteSnapshot × PublishedTable :=
  match self.table.registerOwnerClaims owner claims with
  | .error fault => (.error fault, self)
  | .ok candidate =>
      let published : PublishedTable :=
        ⟨self.replaced ++ [self.table], candidate⟩
      (.ok published.snapshot, published)

/-! ## When a registration is accepted

`Admissible` is the whole acceptance condition.  Each check of the code
decides one part of it. -/

/-- The conditions on a batch of claims against the current table. -/
structure Admissible (table : RouteTable) (owner : ProviderRouteOwner)
    (claims : List ProviderRouteClaim) : Prop where
  family : owner.managerFamily = .Providers
  nonempty : 1 ≤ claims.length
  batch : claims.length ≤ MAX_PROVIDER_ROUTE_CLAIMS_PER_BATCH
  providers : Fresh ProviderRouteClaim.providerId table.providers claims
  routes : Fresh ProviderRouteClaim.routeId table.routes claims
  authSlots : Fresh ProviderRouteClaim.authSlotId table.authSlots claims
  capacity : table.routes.size + claims.length ≤ MAX_PROVIDER_ROUTE_CLAIMS

private theorem collectFrom_ok_iff (claims collected : List ProviderRouteClaim)
    (hcollected : collected.length ≤ MAX_PROVIDER_ROUTE_CLAIMS_PER_BATCH)
    (out : List ProviderRouteClaim) :
    collectFrom collected claims = .ok out ↔
      out = collected ++ claims ∧
        collected.length + claims.length ≤ MAX_PROVIDER_ROUTE_CLAIMS_PER_BATCH := by
  induction claims generalizing collected with
  | nil =>
      simp only [collectFrom, Except.ok.injEq, List.append_nil, List.length_nil,
        Nat.add_zero, hcollected, and_true]
      exact eq_comm
  | cons claim claims ih =>
      rw [collectFrom]
      split
      · rename_i hfull
        simp only [reduceCtorEq, List.length_cons, false_iff]
        omega
      · rename_i hroom
        rw [ih _ (by simp only [List.length_append, List.length_singleton]; omega)]
        simp only [List.append_assoc, List.singleton_append, List.length_append,
          List.length_cons, List.length_nil, Nat.zero_add, Nat.add_assoc,
          Nat.add_comm 1]

/-- `collect_claims` keeps the batch, and accepts 1 to 256 claims. -/
theorem collectClaims_ok_iff (claims out : List ProviderRouteClaim) :
    collectClaims claims = .ok out ↔
      out = claims ∧ 1 ≤ claims.length ∧
        claims.length ≤ MAX_PROVIDER_ROUTE_CLAIMS_PER_BATCH := by
  have hcollect := collectFrom_ok_iff claims [] (Nat.zero_le _)
  simp only [List.nil_append, List.length_nil, Nat.zero_add] at hcollect
  unfold collectClaims
  cases hfrom : collectFrom [] claims with
  | error e =>
      simp only [reduceCtorEq, false_iff]
      rintro ⟨-, -, hle⟩
      have := (hcollect claims).2 ⟨rfl, hle⟩
      rw [hfrom] at this
      cases this
  | ok collected =>
      obtain ⟨rfl, hle⟩ := (hcollect collected).1 hfrom
      cases collected with
      | nil => simp
      | cons claim rest =>
          simp only [Except.ok.injEq, hle, and_true]
          constructor
          · rintro rfl
            exact ⟨rfl, by simp⟩
          · rintro ⟨rfl, -⟩
            rfl

private theorem rejectRepeats_ok_iff (claims : List ProviderRouteClaim)
    (providers : ExtTreeSet ProviderId) (routes : ExtTreeSet ProviderRouteId)
    (authSlots : ExtTreeSet AuthSlotId) :
    rejectRepeats providers routes authSlots claims = .ok () ↔
      ((claims.map (·.providerId)).Nodup ∧ ∀ c ∈ claims, c.providerId ∉ providers) ∧
      ((claims.map (·.routeId)).Nodup ∧ ∀ c ∈ claims, c.routeId ∉ routes) ∧
      ((claims.map (·.authSlotId)).Nodup ∧ ∀ c ∈ claims, c.authSlotId ∉ authSlots) := by
  induction claims generalizing providers routes authSlots with
  | nil => simp [rejectRepeats]
  | cons claim claims ih =>
      rw [rejectRepeats]
      split
      · rename_i h
        simp only [reduceCtorEq, false_iff]
        rintro ⟨⟨-, habsent⟩, -⟩
        exact habsent claim List.mem_cons_self (ExtTreeSet.mem_iff_contains.2 h)
      split
      · rename_i h
        simp only [reduceCtorEq, false_iff]
        rintro ⟨-, ⟨-, habsent⟩, -⟩
        exact habsent claim List.mem_cons_self (ExtTreeSet.mem_iff_contains.2 h)
      split
      · rename_i h
        simp only [reduceCtorEq, false_iff]
        rintro ⟨-, -, -, habsent⟩
        exact habsent claim List.mem_cons_self (ExtTreeSet.mem_iff_contains.2 h)
      · rename_i hp hr ha
        rw [← ExtTreeSet.mem_iff_contains] at hp hr ha
        rw [ih]
        simp only [List.map_cons, List.nodup_cons, List.mem_cons, List.mem_map,
          ExtTreeSet.mem_insert, Std.compare_eq_iff_eq, not_or, forall_eq_or_imp]
        grind

private theorem any_contains_eq_false {κ β : Type} [Ord κ] [TransOrd κ]
    {key : ProviderRouteClaim → κ} {m : ExtTreeMap κ β}
    {claims : List ProviderRouteClaim} :
    ¬ (claims.any (fun c => m.contains (key c)) = true) ↔
      ∀ c ∈ claims, key c ∉ m := by
  simp [List.any_eq_true]

private theorem capacity_exceeded_iff (size count : Nat) :
    (checkedAdd size count).all (fun n => MAX_PROVIDER_ROUTE_CLAIMS < n) = true ↔
      ¬ size + count ≤ MAX_PROVIDER_ROUTE_CLAIMS := by
  unfold checkedAdd MAX_PROVIDER_ROUTE_CLAIMS
  split
  · simp
  · simp only [Option.all_none, true_iff]
    omega

/-- `validate_registration` decides the three key spaces and the capacity. -/
theorem validateRegistration_ok_iff (table : RouteTable)
    (claims : List ProviderRouteClaim) :
    validateRegistration table claims = .ok () ↔
      Fresh ProviderRouteClaim.providerId table.providers claims ∧
      Fresh ProviderRouteClaim.routeId table.routes claims ∧
      Fresh ProviderRouteClaim.authSlotId table.authSlots claims ∧
      table.routes.size + claims.length ≤ MAX_PROVIDER_ROUTE_CLAIMS := by
  have hrepeats := rejectRepeats_ok_iff claims ∅ ∅ ∅
  simp only [ExtTreeSet.not_mem_empty, not_false_eq_true, implies_true,
    and_true] at hrepeats
  unfold validateRegistration
  cases hr : rejectRepeats ∅ ∅ ∅ claims with
  | error e =>
      simp only [reduceCtorEq, false_iff]
      rintro ⟨hp, hroutes, ha, -⟩
      rw [hrepeats.2 ⟨hp.nodup, hroutes.nodup, ha.nodup⟩] at hr
      cases hr
  | ok u =>
      obtain ⟨hp, hroutes, ha⟩ := hrepeats.1 hr
      simp only
      split
      · rename_i h
        simp only [reduceCtorEq, false_iff]
        rintro ⟨hfresh, -⟩
        exact any_contains_eq_false.2 hfresh.absent h
      rename_i hproviders
      split
      · rename_i h
        simp only [reduceCtorEq, false_iff]
        rintro ⟨-, hfresh, -⟩
        exact any_contains_eq_false.2 hfresh.absent h
      rename_i hroutesAbsent
      split
      · rename_i h
        simp only [reduceCtorEq, false_iff]
        rintro ⟨-, -, hfresh, -⟩
        exact any_contains_eq_false.2 hfresh.absent h
      rename_i hauthSlots
      rw [any_contains_eq_false] at hproviders hroutesAbsent hauthSlots
      split
      · rename_i h
        simp only [reduceCtorEq, false_iff]
        rintro ⟨-, -, -, hle⟩
        exact (capacity_exceeded_iff _ _).1 h hle
      · rename_i h
        rw [capacity_exceeded_iff, not_not] at h
        exact iff_of_true rfl
          ⟨⟨hp, hproviders⟩, ⟨hroutes, hroutesAbsent⟩, ⟨ha, hauthSlots⟩, h⟩

/-! ## What an accepted registration inserts -/

/-- The insertion loop fills each of the three maps independently. -/
private theorem foldl_insertClaim (owner : ProviderRouteOwner)
    (claims : List ProviderRouteClaim) (table : RouteTable) :
    claims.foldl (insertClaim owner) table =
      { revision := table.revision
        routes := insertAll (·.routeId) (fun c => ⟨owner, c⟩) table.routes claims
        providers := insertAll (·.providerId) (·.routeId) table.providers claims
        authSlots := insertAll (·.authSlotId) (·.routeId) table.authSlots claims } := by
  induction claims generalizing table with
  | nil => rfl
  | cons claim claims ih => rw [List.foldl_cons, ih]; rfl

/-- `after` holds the ownerships of `before` and exactly the batch on top. -/
structure Extends (before after : RouteTable) (owner : ProviderRouteOwner)
    (claims : List ProviderRouteClaim) : Prop where
  revision : after.revision = before.revision + 1
  routes : ∀ r o, after.routes[r]? = some o ↔
    before.routes[r]? = some o ∨ ∃ c ∈ claims, c.routeId = r ∧ ⟨owner, c⟩ = o
  providers : ∀ p r, after.providers[p]? = some r ↔
    before.providers[p]? = some r ∨ ∃ c ∈ claims, c.providerId = p ∧ c.routeId = r
  authSlots : ∀ a r, after.authSlots[a]? = some r ↔
    before.authSlots[a]? = some r ∨ ∃ c ∈ claims, c.authSlotId = a ∧ c.routeId = r
  routesSize : after.routes.size = before.routes.size + claims.length
  providersSize : after.providers.size = before.providers.size + claims.length
  authSlotsSize : after.authSlots.size = before.authSlots.size + claims.length

/-- The one spec of `register_owner_claims`: on a table whose revision is in
range, it succeeds exactly on an admissible batch, never panics, and then
extends the table by the batch. -/
theorem RouteTable.registerOwnerClaims_spec (table : RouteTable)
    (owner : ProviderRouteOwner) (claims : List ProviderRouteClaim)
    (hrevision : table.revision ≤ MAX_PROVIDER_ROUTE_CLAIMS) :
    (Admissible table owner claims ∧
      ∃ after, table.registerOwnerClaims owner claims = .ok after ∧
        Extends table after owner claims) ∨
    (¬ Admissible table owner claims ∧
      ∃ e, table.registerOwnerClaims owner claims = .error (.error e)) := by
  unfold RouteTable.registerOwnerClaims
  split
  · rename_i hfamily
    exact Or.inr ⟨fun h => hfamily h.family, _, rfl⟩
  rename_i hfamily
  rw [not_not] at hfamily
  cases hcollect : collectClaims claims with
  | error e =>
      refine Or.inr ⟨fun h => ?_, e, rfl⟩
      have := (collectClaims_ok_iff claims claims).2 ⟨rfl, h.nonempty, h.batch⟩
      rw [hcollect] at this
      cases this
  | ok collected =>
      obtain ⟨rfl, hnonempty, hbatch⟩ := (collectClaims_ok_iff _ _).1 hcollect
      dsimp only
      cases hvalid : validateRegistration table collected with
      | error e =>
          refine Or.inr ⟨fun h => ?_, e, rfl⟩
          rw [(validateRegistration_ok_iff _ _).2
            ⟨h.providers, h.routes, h.authSlots, h.capacity⟩] at hvalid
          cases hvalid
      | ok u =>
          obtain ⟨hp, hr, ha, hcapacity⟩ :=
            (validateRegistration_ok_iff _ _).1 hvalid
          have hnext : checkedAdd table.revision 1 = some (table.revision + 1) := by
            unfold checkedAdd MAX_PROVIDER_ROUTE_CLAIMS at *
            rw [if_pos (by omega)]
          refine Or.inl
            ⟨⟨hfamily, hnonempty, hbatch, hp, hr, ha, hcapacity⟩,
              collected.foldl (insertClaim owner)
                { table with revision := table.revision + 1 }, ?_, ?_⟩
          · simp only [hnext]
          · rw [foldl_insertClaim]
            exact
              { revision := rfl
                routes := getElem?_insertAll _ hr
                providers := getElem?_insertAll _ hp
                authSlots := getElem?_insertAll _ ha
                routesSize := size_insertAll _ hr
                providersSize := size_insertAll _ hp
                authSlotsSize := size_insertAll _ ha }

/-! ## The three maps describe one set of claims -/

/-- The invariant of a published table: its two indexes point at exactly the
registered routes, by the provider and by the slot each claim names. -/
structure RouteTable.Consistent (t : RouteTable) : Prop where
  routeKey : ∀ (r) (o : ProviderRouteOwnership), t.routes[r]? = some o → o.claim.routeId = r
  providers : ∀ p r, t.providers[p]? = some r ↔
    ∃ o : ProviderRouteOwnership, t.routes[r]? = some o ∧ o.claim.providerId = p
  authSlots : ∀ a r, t.authSlots[a]? = some r ↔
    ∃ o : ProviderRouteOwnership, t.routes[r]? = some o ∧ o.claim.authSlotId = a
  providersSize : t.providers.size = t.routes.size
  authSlotsSize : t.authSlots.size = t.routes.size
  sizeBound : t.routes.size ≤ MAX_PROVIDER_ROUTE_CLAIMS
  revisionBound : t.revision ≤ t.routes.size

theorem RouteTable.consistent_default : RouteTable.default.Consistent := by
  constructor <;> simp [RouteTable.default]

/-- Two providers never name the same route. -/
theorem RouteTable.Consistent.providers_injective {t : RouteTable}
    (h : t.Consistent) {p q : ProviderId} {r : ProviderRouteId}
    (hp : t.providers[p]? = some r) (hq : t.providers[q]? = some r) : p = q := by
  obtain ⟨o, ho, rfl⟩ := (h.providers p r).1 hp
  obtain ⟨o', ho', rfl⟩ := (h.providers q r).1 hq
  rw [ho] at ho'
  cases ho'
  rfl

/-- Two authentication slots never name the same route. -/
theorem RouteTable.Consistent.authSlots_injective {t : RouteTable}
    (h : t.Consistent) {a b : AuthSlotId} {r : ProviderRouteId}
    (ha : t.authSlots[a]? = some r) (hb : t.authSlots[b]? = some r) : a = b := by
  obtain ⟨o, ho, rfl⟩ := (h.authSlots a r).1 ha
  obtain ⟨o', ho', rfl⟩ := (h.authSlots b r).1 hb
  rw [ho] at ho'
  cases ho'
  rfl

/-- An index that grows by the batch still points at exactly the routes that
grew by the batch. -/
private theorem index_extends {κ : Type} [Ord κ] [TransOrd κ]
    {index index' : ExtTreeMap κ ProviderRouteId}
    {routes routes' : ExtTreeMap ProviderRouteId ProviderRouteOwnership}
    {key : ProviderRouteClaim → κ} {owner : ProviderRouteOwner}
    {claims : List ProviderRouteClaim}
    (hindex : ∀ k r, index[k]? = some r ↔
      ∃ o : ProviderRouteOwnership, routes[r]? = some o ∧ key o.claim = k)
    (hindex' : ∀ k r, index'[k]? = some r ↔
      index[k]? = some r ∨ ∃ c ∈ claims, key c = k ∧ c.routeId = r)
    (hroutes' : ∀ r o, routes'[r]? = some o ↔
      routes[r]? = some o ∨
        ∃ c ∈ claims, c.routeId = r ∧ ProviderRouteOwnership.mk owner c = o)
    (k : κ) (r : ProviderRouteId) :
    index'[k]? = some r ↔
      ∃ o : ProviderRouteOwnership, routes'[r]? = some o ∧ key o.claim = k := by
  rw [hindex', hindex]
  constructor
  · rintro (⟨o, ho, hk⟩ | ⟨c, hc, hk, hr⟩)
    · exact ⟨o, (hroutes' r o).2 (Or.inl ho), hk⟩
    · exact ⟨⟨owner, c⟩, (hroutes' r _).2 (Or.inr ⟨c, hc, hr, rfl⟩), hk⟩
  · rintro ⟨o, ho, hk⟩
    rcases (hroutes' r o).1 ho with ho | ⟨c, hc, hr, rfl⟩
    · exact Or.inl ⟨o, ho, hk⟩
    · exact Or.inr ⟨c, hc, hk, hr⟩

/-- The step lemma: an admissible batch keeps the table consistent. -/
theorem RouteTable.Consistent.extends {before after : RouteTable}
    {owner : ProviderRouteOwner} {claims : List ProviderRouteClaim}
    (h : before.Consistent) (hadm : Admissible before owner claims)
    (hext : Extends before after owner claims) : after.Consistent := by
  have hnonempty := hadm.nonempty
  refine
    { routeKey := ?_
      providers := index_extends h.providers hext.providers hext.routes
      authSlots := index_extends h.authSlots hext.authSlots hext.routes
      providersSize := by
        rw [hext.providersSize, hext.routesSize, h.providersSize]
      authSlotsSize := by
        rw [hext.authSlotsSize, hext.routesSize, h.authSlotsSize]
      sizeBound := by rw [hext.routesSize]; exact hadm.capacity
      revisionBound := by
        have := h.revisionBound
        rw [hext.routesSize, hext.revision]
        omega }
  intro r o ho
  rcases (hext.routes r o).1 ho with ho | ⟨c, -, hr, rfl⟩
  · exact h.routeKey r o ho
  · exact hr

/-! ## Sequences of registrations -/

/-- One call of `register_owner_claims`. -/
abbrev Registration := ProviderRouteOwner × List ProviderRouteClaim

/-- What is published after the calls, failed ones included. -/
def PublishedTable.after (self : PublishedTable)
    (history : List Registration) : PublishedTable :=
  history.foldl (fun p call => (p.registerOwnerClaims call.1 call.2).2) self

/-- The spec of one call on the published table: it fails without a trace, or
publishes one more table on top of those published before. -/
theorem PublishedTable.registerOwnerClaims_spec (self : PublishedTable)
    (owner : ProviderRouteOwner) (claims : List ProviderRouteClaim)
    (h : self.table.Consistent) :
    (Admissible self.table owner claims ∧
      ∃ after, Extends self.table after owner claims ∧ after.Consistent ∧
        self.registerOwnerClaims owner claims =
          (.ok (self.replaced.length + 1), ⟨self.replaced ++ [self.table], after⟩)) ∨
    (¬ Admissible self.table owner claims ∧
      ∃ e, self.registerOwnerClaims owner claims = (.error (.error e), self)) := by
  have hrevision := Nat.le_trans h.revisionBound h.sizeBound
  unfold PublishedTable.registerOwnerClaims
  rcases self.table.registerOwnerClaims_spec owner claims hrevision with
    ⟨hadm, after, hok, hext⟩ | ⟨hadm, e, herr⟩
  · refine Or.inl ⟨hadm, after, hext, h.extends hadm hext, ?_⟩
    rw [hok]
    simp [PublishedTable.snapshot]
  · refine Or.inr ⟨hadm, e, ?_⟩
    rw [herr]

/-- One call keeps the published table consistent. -/
theorem PublishedTable.consistent_registerOwnerClaims (self : PublishedTable)
    (owner : ProviderRouteOwner) (claims : List ProviderRouteClaim)
    (h : self.table.Consistent) :
    (self.registerOwnerClaims owner claims).2.table.Consistent := by
  rcases self.registerOwnerClaims_spec owner claims h with
    ⟨-, after, -, hafter, heq⟩ | ⟨-, e, heq⟩
  · rw [heq]
    exact hafter
  · rw [heq]
    exact h

theorem PublishedTable.consistent_after (history : List Registration)
    (self : PublishedTable) (h : self.table.Consistent) :
    (self.after history).table.Consistent := by
  induction history generalizing self with
  | nil => exact h
  | cons call history ih =>
      exact ih _ (self.consistent_registerOwnerClaims call.1 call.2 h)

/-- One call leaves the table behind every earlier snapshot as it was. -/
theorem PublishedTable.deref_registerOwnerClaims (self : PublishedTable)
    (owner : ProviderRouteOwner) (claims : List ProviderRouteClaim)
    {snapshot : ProviderRouteSnapshot} {t : RouteTable}
    (h : self.deref snapshot = some t) :
    (self.registerOwnerClaims owner claims).2.deref snapshot = some t := by
  unfold PublishedTable.registerOwnerClaims
  cases self.table.registerOwnerClaims owner claims with
  | error fault => exact h
  | ok candidate =>
      unfold PublishedTable.deref at h ⊢
      dsimp only
      rw [List.getElem?_append_left]
      · exact h
      · exact (List.getElem?_eq_some_iff.1 h).1

theorem PublishedTable.deref_after (history : List Registration)
    (self : PublishedTable) {snapshot : ProviderRouteSnapshot} {t : RouteTable}
    (h : self.deref snapshot = some t) :
    (self.after history).deref snapshot = some t := by
  induction history generalizing self with
  | nil => exact h
  | cons call history ih =>
      exact ih _ (self.deref_registerOwnerClaims call.1 call.2 h)

/-- **The route table under every sequence of registrations.**  After any
calls, the three maps describe one set of at most 4,096 claims; the next call
succeeds exactly on an admissible batch, then publishes the old table
extended by exactly that batch under the next revision, and otherwise leaves
everything as it was without panicking; and a snapshot shows the same table
after any further calls. -/
theorem route_table_registrations (history : List Registration) :
    let published := PublishedTable.new.after history
    published.table.Consistent ∧
    (∀ (p q : ProviderId) (r : ProviderRouteId),
      published.table.providers[p]? = some r →
      published.table.providers[q]? = some r → p = q) ∧
    (∀ (a b : AuthSlotId) (r : ProviderRouteId),
      published.table.authSlots[a]? = some r →
      published.table.authSlots[b]? = some r → a = b) ∧
    (∀ owner claims,
      (Admissible published.table owner claims ↔
        ∃ snapshot, (published.registerOwnerClaims owner claims).1 = .ok snapshot) ∧
      (∀ snapshot, (published.registerOwnerClaims owner claims).1 = .ok snapshot →
        let next := (published.registerOwnerClaims owner claims).2
        Extends published.table next.table owner claims ∧
          next.deref snapshot = some next.table) ∧
      (∀ fault, (published.registerOwnerClaims owner claims).1 = .error fault →
        (published.registerOwnerClaims owner claims).2 = published ∧
          ∃ e, fault = .error e)) ∧
    (∀ snapshot t, published.deref snapshot = some t →
      ∀ further, (published.after further).deref snapshot = some t) := by
  intro published
  have h : published.table.Consistent :=
    PublishedTable.consistent_after history _ RouteTable.consistent_default
  refine ⟨h, fun p q r => h.providers_injective,
    fun a b r => h.authSlots_injective, fun owner claims => ?_,
    fun snapshot t ht further => PublishedTable.deref_after further _ ht⟩
  rcases published.registerOwnerClaims_spec owner claims h with
    ⟨hadm, after, hext, -, heq⟩ | ⟨hadm, e, heq⟩
  · rw [heq]
    refine ⟨iff_of_true hadm ⟨_, rfl⟩, ?_, by simp⟩
    intro snapshot hsnapshot
    cases hsnapshot
    exact ⟨hext, by simp [PublishedTable.deref]⟩
  · rw [heq]
    refine ⟨iff_of_false hadm (by simp), by simp, ?_⟩
    intro fault hfault
    cases hfault
    exact ⟨rfl, e, rfl⟩

end MCode.Routes.Table
