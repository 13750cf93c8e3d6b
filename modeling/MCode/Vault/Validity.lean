import MCode.Lib.Results
import MCode.Vault.Reducer

/-!
# Valid documents stay valid

What `validate_document` accepts, as a structure of its own (`Valid`), and the
four ways in which a command that succeeds changes the lists (`Change`): a new
credential with its grants, the next secret of a credential, its end, and other
grants.  Each keeps a document valid.
-/

namespace MCode.Vault

open MCode.Lib
open MCode.Lib.Results (bind_ok bind_unit_ok mapError_ok isOk_false forM_ok)
open MCode.Lib.SortedTable (Sorted sortBy sortBy_perm sorted_iff binarySearchBy_ok
  binarySearchBy_error)

/-! ## What is accepted -/

theorem validateLocalId_ok {value : String} : validateLocalId value = .ok () ↔ isLocalId value := by
  unfold validateLocalId
  rw [reject_ok, Bool.not_eq_false']

/-- The credentials that `validate_document` lets pass, one by one. -/
structure WellFormed (credential : Credential) : Prop where
  serviceId : isLocalId credential.serviceId
  accountId : isLocalId credential.accountId
  issuerId : isLocalId credential.issuerId
  authSchemaId : isLocalId credential.authSchemaId
  secret : credential.secretBase64Url.isSome ↔ credential.state = .Active

theorem validateCredential_ok {active result : Nat} {credential : Credential} :
    validateCredential active credential = .ok result ↔
      WellFormed credential ∧
        result = active + if credential.state = .Active then 1 else 0 := by
  unfold validateCredential
  rw [bind_unit_ok, bind_unit_ok, bind_unit_ok, bind_unit_ok, validateLocalId_ok,
    validateLocalId_ok, validateLocalId_ok, validateLocalId_ok]
  constructor
  · intro ⟨hservice, haccount, hissuer, hschema, hmatch⟩
    split at hmatch
    · rename_i hstate hsecret
      cases hmatch
      exact ⟨⟨hservice, haccount, hissuer, hschema, by simp [hstate, hsecret]⟩, by simp [hstate]⟩
    · rename_i hstate hsecret
      cases hmatch
      exact ⟨⟨hservice, haccount, hissuer, hschema, by simp [hstate, hsecret]⟩, by simp [hstate]⟩
    · cases hmatch
  · intro ⟨hformed, hresult⟩
    refine ⟨hformed.serviceId, hformed.accountId, hformed.issuerId, hformed.authSchemaId, ?_⟩
    have hsecret := hformed.secret
    cases hstate : credential.state with
    | Active =>
        rw [hstate] at hsecret hresult
        obtain ⟨secret, hsome⟩ := Option.isSome_iff_exists.1 (hsecret.2 rfl)
        rw [hsome, hresult, if_pos rfl]
        rfl
    | Revoked =>
        rw [hstate] at hsecret hresult
        have hnone : credential.secretBase64Url = none := by
          cases hvalue : credential.secretBase64Url with
          | none => rfl
          | some secret =>
              rw [hvalue] at hsecret
              exact absurd (hsecret.1 rfl) (by decide)
        rw [hnone, hresult, if_neg (by decide)]
        rfl

theorem foldlM_validateCredential {credentials : List Credential} {active result : Nat} :
    credentials.foldlM validateCredential active = .ok result ↔
      (∀ c ∈ credentials, WellFormed c) ∧
        result = active + credentials.countP fun c => c.state == .Active := by
  induction credentials generalizing active with
  | nil => simp [pure, Except.pure, eq_comm]
  | cons credential credentials ih =>
      rw [List.foldlM_cons, bind_ok, List.countP_cons, List.forall_mem_cons]
      constructor
      · rintro ⟨next, hnext, hrest⟩
        obtain ⟨hformed, hcount⟩ := validateCredential_ok.1 hnext
        obtain ⟨hall, hresult⟩ := ih.1 hrest
        refine ⟨⟨hformed, hall⟩, ?_⟩
        simp only [beq_iff_eq]
        omega
      · rintro ⟨⟨hformed, hall⟩, hresult⟩
        refine ⟨_, validateCredential_ok.2 ⟨hformed, rfl⟩, ih.2 ⟨hall, ?_⟩⟩
        simp only [beq_iff_eq] at hresult
        omega

/-- The documents that `validate_document` accepts. -/
structure Valid (document : VaultDocument) : Prop where
  format : document.formatVersion = HOST_VAULT_FORMAT_VERSION
  kind : document.kind = HOST_VAULT_KIND
  revision : document.revision ≤ MAX_SIGNED
  formed : ∀ c ∈ document.credentials, WellFormed c
  active : activeCount document ≤ MAX_ACTIVE_CREDENTIALS
  total : document.credentials.length ≤ MAX_CREDENTIALS
  sorted : Sorted credentialKey document.credentials
  grantTotal : document.grants.length ≤ MAX_GRANTS
  granted : ∀ g ∈ document.grants,
    validateGrant g = .ok () ∧ references document.credentials g = 1
  grantsSorted : Sorted grantTuple document.grants

theorem validateReference_ok {credentials : List Credential} {grant : Grant} :
    validateReference credentials grant = .ok () ↔
      validateGrant grant = .ok () ∧ references credentials grant = 1 := by
  unfold validateReference
  rw [bind_unit_ok, reject_ok, bne_eq_false_iff_eq]

theorem validateDocument_iff {document : VaultDocument} :
    validateDocument document = .ok () ↔ Valid document := by
  unfold validateDocument
  rw [bind_unit_ok, reject_ok, bind_ok]
  simp only [foldlM_validateCredential, Nat.zero_add, and_assoc, exists_and_left, exists_eq_left]
  rw [bind_unit_ok, reject_ok, bind_unit_ok, reject_ok, sorted_iff, bind_unit_ok, reject_ok,
    bind_unit_ok, forM_ok, reject_ok, sorted_iff]
  simp only [Bool.or_eq_false_iff, bne_eq_false_iff_eq, decide_eq_false_iff_not, Nat.not_lt,
    validateReference_ok]
  constructor
  · rintro ⟨⟨⟨hformat, hkind⟩, hrevision⟩, hformed, ⟨hactive, htotal⟩, hsorted, hgrants, hgranted,
      hgrantsSorted⟩
    exact ⟨hformat, hkind, hrevision, hformed, hactive, htotal, hsorted, hgrants, hgranted,
      hgrantsSorted⟩
  · intro h
    exact ⟨⟨⟨h.format, h.kind⟩, h.revision⟩, h.formed, ⟨h.active, h.total⟩, h.sorted, h.grantTotal,
      h.granted, h.grantsSorted⟩

/-! ## Consistent lists -/

/-- The credential that a grant gives access to. -/
def Refers (grant : Grant) (credential : Credential) : Prop :=
  credential.state = .Active ∧ credential.serviceId = grant.serviceId ∧
    credential.accountId = grant.accountId

theorem Refers.key {grant : Grant} {credential : Credential} (h : Refers grant credential) :
    credentialKey credential = toLex (grant.serviceId, grant.accountId) := by
  unfold credentialKey
  rw [h.2.1, h.2.2]

theorem references_eq_one {credentials : List Credential}
    (hkeys : (credentials.map credentialKey).Nodup) {grant : Grant} :
    references credentials grant = 1 ↔ ∃ c ∈ credentials, Refers grant c := by
  have hrefers : ∀ c : Credential, (c.state == .Active && c.serviceId == grant.serviceId
      && c.accountId == grant.accountId) = true ↔ Refers grant c := by
    intro c
    simp [Refers, and_assoc]
  unfold references
  rw [SortedTable.countP_eq_one hkeys fun c hc => ((hrefers c).1 hc).key]
  simp only [hrefers]

/-- What validity says of the two lists in whatever order they are. -/
structure Consistent (credentials : List Credential) (grants : List Grant) : Prop where
  formed : ∀ c ∈ credentials, WellFormed c
  active : (credentials.countP fun c => c.state == .Active) ≤ MAX_ACTIVE_CREDENTIALS
  total : credentials.length ≤ MAX_CREDENTIALS
  keys : (credentials.map credentialKey).Nodup
  grantTotal : grants.length ≤ MAX_GRANTS
  granted : ∀ g ∈ grants, validateGrant g = .ok () ∧ ∃ c ∈ credentials, Refers g c
  grantKeys : (grants.map grantTuple).Nodup

theorem Valid.consistent {document : VaultDocument} (h : Valid document) :
    Consistent document.credentials document.grants where
  formed := h.formed
  active := h.active
  total := h.total
  keys := h.sorted.nodup
  grantTotal := h.grantTotal
  granted := fun g hg => ⟨(h.granted g hg).1, (references_eq_one h.sorted.nodup).1 (h.granted g hg).2⟩
  grantKeys := h.grantsSorted.nodup

/-- The document behind a mutation: the next revision, and both lists sorted. -/
def finished (document : VaultDocument) (credentials : List Credential) (grants : List Grant) :
    VaultDocument :=
  { document with
    revision := document.revision + 1
    credentials := sortBy credentialKey credentials
    grants := sortBy grantTuple grants }

theorem Consistent.finished {document : VaultDocument} (hvalid : Valid document)
    (hrevision : document.revision + 1 ≤ MAX_SIGNED) {credentials : List Credential}
    {grants : List Grant} (h : Consistent credentials grants) :
    Valid (finished document credentials grants) := by
  have hperm := sortBy_perm credentialKey credentials
  have hgrants := sortBy_perm grantTuple grants
  have hsorted := SortedTable.sortBy_sorted h.keys
  exact {
    format := hvalid.format
    kind := hvalid.kind
    revision := hrevision
    formed := fun c hc => h.formed c (hperm.mem_iff.1 hc)
    active := (hperm.countP_eq _).trans_le h.active
    total := hperm.length_eq.trans_le h.total
    sorted := hsorted
    grantTotal := hgrants.length_eq.trans_le h.grantTotal
    granted := fun g hg => by
      obtain ⟨hgrant, c, hc, hrefers⟩ := h.granted g (hgrants.mem_iff.1 hg)
      exact ⟨hgrant, (references_eq_one hsorted.nodup).2 ⟨c, hperm.mem_iff.2 hc, hrefers⟩⟩
    grantsSorted := SortedTable.sortBy_sorted h.grantKeys }

/-! ## Changes -/

/-- What a command that succeeds does to the two lists before they are sorted. -/
inductive Change (credentials : List Credential) (grants : List Grant) :
    List Credential → List Grant → Prop
  | insert {credential : Credential} {added : List Grant} (formed : WellFormed credential)
      (active : credential.state = .Active) (first : credential.credentialVersion = .FIRST)
      (absent : credentialKey credential ∉ credentials.map credentialKey)
      (activeRoom : (credentials.countP fun c => c.state == .Active) < MAX_ACTIVE_CREDENTIALS)
      (room : credentials.length < MAX_CREDENTIALS)
      (grantRoom : grants.length + added.length ≤ MAX_GRANTS)
      (keys : ((grants ++ added).map grantTuple).Nodup)
      (granted : ∀ g ∈ added, validateGrant g = .ok () ∧ Refers g credential) :
      Change credentials grants (credentials ++ [credential]) (grants ++ added)
  | rotate {i : Nat} {credential : Credential} {version : CredentialVersion} {secret : Secret}
      (found : credentials[i]? = some credential) (active : credential.state = .Active)
      (next : version.value = credential.credentialVersion.value + 1) :
      Change credentials grants
        (credentials.set i
          { credential with credentialVersion := version, secretBase64Url := some secret })
        grants
  | revoke {i : Nat} {credential : Credential} {version : CredentialVersion}
      (found : credentials[i]? = some credential) (active : credential.state = .Active)
      (next : version.value = credential.credentialVersion.value + 1) :
      Change credentials grants
        (credentials.set i
          { credential with
            credentialVersion := version, state := .Revoked, secretBase64Url := none })
        (grants.filter fun grant =>
          grant.serviceId != credential.serviceId || grant.accountId != credential.accountId)
  | grants {others : List Grant} (room : others.length ≤ MAX_GRANTS)
      (keys : (others.map grantTuple).Nodup)
      (granted : ∀ g ∈ others, g ∈ grants ∨
        validateGrant g = .ok () ∧ ∃ c ∈ credentials, Refers g c) :
      Change credentials grants credentials others

/-! ## Changes keep the lists consistent -/

/-- A credential that changes, but neither its key nor the rest of the list. -/
theorem consistent_set {credentials : List Credential} {grants others : List Grant}
    (h : Consistent credentials grants) {i : Nat} {credential changed : Credential}
    (found : credentials[i]? = some credential) (active : credential.state = .Active)
    (hkey : credentialKey changed = credentialKey credential) (hformed : WellFormed changed)
    (hsub : others.Sublist grants)
    (hrefers : ∀ g ∈ others, Refers g credential → Refers g changed) :
    Consistent (credentials.set i changed) others := by
  obtain ⟨hi, hat⟩ := List.getElem?_eq_some_iff.1 found
  have hkeys := SortedTable.map_set found hkey
  refine {
    formed := ?_
    active := ?_
    total := by rw [List.length_set]; exact h.total
    keys := by rw [hkeys]; exact h.keys
    grantTotal := hsub.length_le.trans h.grantTotal
    granted := ?_
    grantKeys := h.grantKeys.sublist (hsub.map grantTuple) }
  · intro c hc
    rcases List.mem_or_eq_of_mem_set hc with hc | rfl
    · exact h.formed c hc
    · exact hformed
  · have hpos : 0 < credentials.countP fun c => c.state == .Active :=
      List.countP_pos_iff.2 ⟨credential, List.mem_of_getElem? found, by simp [active]⟩
    have hcap := h.active
    rw [List.countP_set hi, hat, active, if_pos (by decide)]
    split <;> omega
  · intro g hg
    obtain ⟨hgrant, c, hc, hc'⟩ := h.granted g (hsub.mem hg)
    refine ⟨hgrant, ?_⟩
    rcases SortedTable.mem_set_of_mem found hc with rfl | hc
    · exact ⟨changed, List.mem_set hi changed, hrefers g hg hc'⟩
    · exact ⟨c, hc, hc'⟩

theorem Change.consistent {credentials credentials' : List Credential} {grants grants' : List Grant}
    (h : Consistent credentials grants) (hchange : Change credentials grants credentials' grants') :
    Consistent credentials' grants' := by
  cases hchange with
  | @insert credential added formed active first absent activeRoom room grantRoom keys granted =>
      refine {
        formed := ?_
        active := ?_
        total := by rw [List.length_append, List.length_singleton]; omega
        keys := ?_
        grantTotal := by rw [List.length_append]; exact grantRoom
        granted := ?_
        grantKeys := keys }
      · intro c hc
        rcases List.mem_append.1 hc with hc | hc
        · exact h.formed c hc
        · rw [List.mem_singleton.1 hc]
          exact formed
      · rw [List.countP_append, List.countP_singleton, active]
        simp only [beq_self_eq_true, if_true]
        omega
      · rw [List.map_append, List.map_singleton, List.nodup_append]
        refine ⟨h.keys, List.nodup_singleton _, ?_⟩
        intro k hk k' hk' heq
        rw [List.mem_singleton.1 hk'] at heq
        exact absent (heq ▸ hk)
      · intro g hg
        rcases List.mem_append.1 hg with hg | hg
        · obtain ⟨hgrant, c, hc, hrefers⟩ := h.granted g hg
          exact ⟨hgrant, c, List.mem_append_left _ hc, hrefers⟩
        · obtain ⟨hgrant, hrefers⟩ := granted g hg
          exact ⟨hgrant, credential, List.mem_append_right _ (List.mem_singleton.2 rfl), hrefers⟩
  | @rotate i credential version secret found active next =>
      have hformed := h.formed credential (List.mem_of_getElem? found)
      exact consistent_set h found active rfl
        ⟨hformed.serviceId, hformed.accountId, hformed.issuerId, hformed.authSchemaId,
          by simp [active]⟩
        (List.Sublist.refl _) fun g _ hrefers => hrefers
  | @revoke i credential version found active next =>
      have hformed := h.formed credential (List.mem_of_getElem? found)
      refine consistent_set h found active rfl
        ⟨hformed.serviceId, hformed.accountId, hformed.issuerId, hformed.authSchemaId, by simp⟩
        List.filter_sublist ?_
      -- the grants of this credential are gone
      intro g hg hrefers
      obtain ⟨-, hkept⟩ := List.mem_filter.1 hg
      rw [← hrefers.2.1, ← hrefers.2.2] at hkept
      simp at hkept
  | grants room keys granted =>
      refine { h with grantTotal := room, granted := ?_, grantKeys := keys }
      intro g hg
      rcases granted g hg with hold | hnew
      · exact h.granted g hold
      · exact hnew

end MCode.Vault
