import MCode.Vault.Validity

/-!
# What each command does

For every command the change that it makes to a valid document when it
succeeds, with the checks that it made before.
-/

namespace MCode.Vault

open MCode.Lib
open MCode.Lib.Results (bind_ok bind_unit_ok mapError_ok isOk_false forM_ok)
open MCode.Lib.Reducer (get_bind check_bind_ok)
open MCode.Lib.SortedTable (Sorted sortBy_perm binarySearchBy_ok binarySearchBy_error)

/-! ## Checks -/

theorem nextRevision_ok {current : Nat} {revision : VaultRevision} :
    nextRevision current = .ok revision ↔
      current + 1 ≤ MAX_SIGNED ∧ revision = ⟨current + 1⟩ := by
  unfold nextRevision
  by_cases hle : current + 1 ≤ MAX_SIGNED
  · rw [if_pos hle, Except.ok.injEq]
    exact ⟨fun h => ⟨hle, h.symm⟩, fun h => h.2.symm⟩
  · simp [hle]

theorem checkedIncrement_ok {version next : CredentialVersion}
    (h : version.checkedIncrement = .ok next) : next.value = version.value + 1 := by
  unfold CredentialVersion.checkedIncrement at h
  split at h
  · cases h
    rfl
  · cases h

theorem credentialAt_ok {document : VaultDocument} {index : Nat} {credential : Credential} :
    credentialAt document index = .ok credential ↔
      document.credentials[index]? = some credential := by
  unfold credentialAt
  cases document.credentials[index]? with
  | none => simp
  | some found => simp

theorem activeCredentialIndex_ok {document : VaultDocument} {serviceId accountId : String}
    {version : CredentialVersion} {index : Nat}
    (h : activeCredentialIndex document serviceId accountId version = .ok index) :
    ∃ c, document.credentials[index]? = some c ∧ c.state = .Active ∧
      c.credentialVersion = version ∧ c.serviceId = serviceId ∧ c.accountId = accountId := by
  unfold activeCredentialIndex at h
  simp only [bind_ok, mapError_ok, credentialAt_ok, reject_ok] at h
  obtain ⟨found, hfind, credential, hat, _, hstate, hindex⟩ := h
  cases hindex
  obtain ⟨same, hsame, hkey⟩ := binarySearchBy_ok hfind
  rw [hat] at hsame
  cases hsame
  rw [compare_eq_iff_eq, credentialKey, toLex_inj, Prod.mk.injEq] at hkey
  rw [Bool.or_eq_false_iff, bne_eq_false_iff_eq, bne_eq_false_iff_eq] at hstate
  exact ⟨credential, hat, hstate.1, hstate.2, hkey.1, hkey.2⟩

theorem exactActiveCredential_ok {document : VaultDocument} {target : CredentialTarget}
    {index : Nat} (h : exactActiveCredential document target = .ok index) :
    ∃ c ∈ document.credentials, c.state = .Active ∧ c.serviceId = target.descriptor.serviceId ∧
      c.accountId = target.descriptor.accountId := by
  unfold exactActiveCredential at h
  rw [bind_ok] at h
  obtain ⟨index, hindex, -⟩ := h
  obtain ⟨c, hat, hactive, -, hservice, haccount⟩ := activeCredentialIndex_ok hindex
  exact ⟨c, List.mem_of_getElem? hat, hactive, hservice, haccount⟩

theorem exactGrantIndex_ok {document : VaultDocument} {key : GrantKey} {old : PersistedBinding}
    {index : Nat} (h : exactGrantIndex document key old = .ok index) :
    ∃ g, document.grants[index]? = some g ∧ grantTuple g = inputGrantTuple key := by
  unfold exactGrantIndex at h
  rw [bind_ok] at h
  obtain ⟨found, hfind, h⟩ := h
  obtain ⟨grant, hgrant, hkey⟩ := binarySearchBy_ok (mapError_ok.1 hfind)
  rw [hgrant] at h
  dsimp only at h
  rw [bind_unit_ok] at h
  cases h.2
  exact ⟨grant, hgrant, compare_eq_iff_eq.1 hkey⟩

/-- Keys that are new are new among themselves, too. -/
theorem ensureNewGrantKeys_ok {document : VaultDocument}
    (hsorted : Sorted grantTuple document.grants) {keys : List GrantKey}
    (h : ensureNewGrantKeys document keys = .ok ()) :
    (document.grants.map grantTuple ++ keys.map inputGrantTuple).Nodup := by
  unfold ensureNewGrantKeys at h
  dsimp only at h
  rw [reject_ok, Bool.or_eq_false_iff] at h
  rw [List.nodup_append]
  refine ⟨hsorted.nodup, SortedTable.nodup_of_sortBy h.1, ?_⟩
  intro k hk k' hk' heq
  obtain ⟨key, hkey, rfl⟩ := List.mem_map.1 hk'
  have hmissing := List.any_eq_false.1 h.2 key ((sortBy_perm inputGrantTuple keys).mem_iff.2 hkey)
  rw [Bool.not_eq_true, isOk_false] at hmissing
  obtain ⟨place, hplace⟩ := hmissing
  exact binarySearchBy_error hsorted hplace (heq ▸ hk)

theorem validateDescriptor_ok {descriptor : CredentialDescriptor} :
    validateDescriptor descriptor = .ok () ↔
      isLocalId descriptor.serviceId ∧ isLocalId descriptor.accountId ∧
        isLocalId descriptor.issuerId ∧ isLocalId descriptor.authSchemaId := by
  unfold validateDescriptor
  rw [bind_unit_ok, bind_unit_ok, bind_unit_ok, validateLocalId_ok, validateLocalId_ok,
    validateLocalId_ok, validateLocalId_ok]

theorem validateGrant_ok {grant : Grant} :
    validateGrant grant = .ok () ↔
      validateGrantCoordinates grant.consumerFamily grant.managerId grant.packId
          grant.operationId = .ok () ∧
        isLocalId grant.serviceId ∧ isLocalId grant.accountId ∧
          isValidSha256Digest grant.authorityDigest := by
  unfold validateGrant
  rw [bind_unit_ok, bind_unit_ok, bind_unit_ok, validateLocalId_ok, validateLocalId_ok, reject_ok,
    Bool.not_eq_false']

theorem validateGrant_owned {key : GrantKey} {serviceId accountId : String}
    {digest : Sha256Digest} (hkey : validateGrantInput key = .ok ())
    (hservice : isLocalId serviceId) (haccount : isLocalId accountId) :
    validateGrant (ownedGrant key serviceId accountId digest) = .ok () :=
  validateGrant_ok.2 ⟨hkey, hservice, haccount, digest.valid⟩

/-! ## Commands -/

/-- One change, at the next revision. -/
def Mutates (document : VaultDocument) (result : MutationResult) (document' : VaultDocument) :
    Prop :=
  document.revision + 1 ≤ MAX_SIGNED ∧ result.revision = ⟨document.revision + 1⟩ ∧
    ∃ credentials grants, Change document.credentials document.grants credentials grants ∧
      document' = finished document credentials grants

variable {document document' : VaultDocument} {result : MutationResult}

theorem insert_ok (hvalid : Valid document) {descriptor : CredentialDescriptor}
    {secret : List UInt8} {approvals : List GrantApproval}
    (h : insert descriptor secret approvals document = (.ok result, document')) :
    Mutates document result document' := by
  unfold insert at h
  simp only [check_bind_ok, get_bind] at h
  obtain ⟨_, -, _, habsent, _, hfresh, _, hdescriptor, stored, -, _, hkeys, _, hroom, revision,
    hrevision, h⟩ := h
  obtain ⟨hle, rfl⟩ := nextRevision_ok.1 hrevision
  obtain ⟨hservice, haccount, hissuer, hschema⟩ := validateDescriptor_ok.1 hdescriptor
  rw [reject_ok, Bool.or_eq_false_iff, Bool.or_eq_false_iff, decide_eq_false_iff_not,
    decide_eq_false_iff_not, decide_eq_false_iff_not] at hroom
  have hgrants := hvalid.grantTotal
  have hactive : (document.credentials.countP fun c => c.state == .Active) <
      MAX_ACTIVE_CREDENTIALS := Nat.not_le.1 hroom.1.2
  have hmissing : credentialKey (newCredential descriptor stored) ∉
      document.credentials.map credentialKey := by
    rw [reject_ok, isOk_false] at habsent
    obtain ⟨place, hplace⟩ := habsent
    exact binarySearchBy_error hvalid.sorted hplace
  cases h
  refine ⟨hle, rfl, _, _, Change.insert ?formed rfl rfl hmissing hactive (Nat.not_le.1 hroom.2)
    ?room ?keys ?granted, rfl⟩
  case formed => exact ⟨hservice, haccount, hissuer, hschema, iff_of_true rfl rfl⟩
  case room =>
    rw [List.length_map]
    omega
  case keys =>
    rw [List.map_append, List.map_map]
    have hnodup := ensureNewGrantKeys_ok hvalid.grantsSorted hfresh
    rw [List.map_map] at hnodup
    exact hnodup
  case granted =>
    intro g hg
    obtain ⟨approval, happroval, rfl⟩ := List.mem_map.1 hg
    exact ⟨validateGrant_owned (forM_ok.1 hkeys approval happroval) hservice haccount,
      rfl, rfl, rfl⟩

theorem rotate_ok {serviceId accountId : String} {version : CredentialVersion}
    {secret : List UInt8}
    (h : rotate serviceId accountId version secret document = (.ok result, document')) :
    Mutates document result document' := by
  unfold rotate at h
  simp only [check_bind_ok, get_bind] at h
  obtain ⟨index, hindex, stored, -, credential, hat, next, hnext, revision, hrevision, h⟩ := h
  obtain ⟨hle, rfl⟩ := nextRevision_ok.1 hrevision
  obtain ⟨found, hfound, hactive, -, -, -⟩ := activeCredentialIndex_ok hindex
  rw [credentialAt_ok] at hat
  rw [hat] at hfound
  cases hfound
  cases h
  refine ⟨hle, rfl, _, document.grants,
    @Change.rotate _ _ _ _ _ stored hat hactive (checkedIncrement_ok hnext), ?_⟩
  dsimp only
  rw [List.modify_modify_eq, SortedTable.modify_found hat]
  rfl

theorem revoke_ok {serviceId accountId : String} {version : CredentialVersion}
    (h : revoke serviceId accountId version document = (.ok result, document')) :
    Mutates document result document' ∧ ∃ c ∈ document'.credentials,
      c.state = .Revoked ∧ c.serviceId = serviceId ∧ c.accountId = accountId := by
  unfold revoke at h
  simp only [check_bind_ok, get_bind] at h
  obtain ⟨index, hindex, credential, hat, next, hnext, revision, hrevision, h⟩ := h
  obtain ⟨hle, rfl⟩ := nextRevision_ok.1 hrevision
  obtain ⟨found, hfound, hactive, -, rfl, rfl⟩ := activeCredentialIndex_ok hindex
  rw [credentialAt_ok] at hat
  rw [hat] at hfound
  cases hfound
  cases h
  refine ⟨⟨hle, rfl, _, _, Change.revoke hat hactive (checkedIncrement_ok hnext), ?same⟩, ?gone⟩
  case same =>
    dsimp only
    rw [List.modify_modify_eq, List.modify_modify_eq, SortedTable.modify_found hat]
    rfl
  case gone =>
    dsimp only
    rw [List.modify_modify_eq, List.modify_modify_eq, SortedTable.modify_found hat]
    exact ⟨_, (sortBy_perm _ _).mem_iff.2 (List.mem_set (List.getElem?_eq_some_iff.1 hat).1 _),
      rfl, rfl, rfl⟩

theorem bindCommand_ok (hvalid : Valid document) {approvals : List BindApproval}
    (h : bind approvals document = (.ok result, document')) : Mutates document result document' := by
  unfold bind at h
  simp only [check_bind_ok, get_bind] at h
  obtain ⟨_, -, _, hfresh, _, htargets, _, hkeys, _, hroom, revision, hrevision, h⟩ := h
  obtain ⟨hle, rfl⟩ := nextRevision_ok.1 hrevision
  have hgrants := hvalid.grantTotal
  rw [reject_ok, decide_eq_false_iff_not] at hroom
  cases h
  refine ⟨hle, rfl, _, _, Change.grants ?room ?keys ?granted, rfl⟩
  case room =>
    rw [List.length_append, List.length_map]
    omega
  case keys =>
    rw [List.map_append, List.map_map]
    have hnodup := ensureNewGrantKeys_ok hvalid.grantsSorted hfresh
    rw [List.map_map] at hnodup
    exact hnodup
  case granted =>
    intro g hg
    rcases List.mem_append.1 hg with hold | hnew
    · exact Or.inl hold
    · obtain ⟨approval, happroval, rfl⟩ := List.mem_map.1 hnew
      have htarget := forM_ok.1 htargets approval happroval
      have hinput := forM_ok.1 hkeys approval happroval
      rw [bind_ok] at htarget
      rw [bind_unit_ok, validateDescriptor_ok] at hinput
      obtain ⟨index, hindex, -⟩ := htarget
      obtain ⟨c, hc, hrefers⟩ := exactActiveCredential_ok hindex
      exact Or.inr ⟨validateGrant_owned hinput.1 hinput.2.1 hinput.2.2.1, c, hc, hrefers⟩

theorem rebind_ok (hvalid : Valid document) {key : GrantKey} {old : PersistedBinding}
    {replacement : CredentialTarget} {digest : Sha256Digest}
    (h : rebind key old replacement digest document = (.ok result, document')) :
    Mutates document result document' := by
  unfold rebind at h
  simp only [check_bind_ok, get_bind] at h
  obtain ⟨index, hindex, _, htarget, _, -, _, -, _, hdescriptor, revision, hrevision, h⟩ := h
  obtain ⟨hle, rfl⟩ := nextRevision_ok.1 hrevision
  obtain ⟨grant, hgrant, -⟩ := exactGrantIndex_ok hindex
  obtain ⟨c, hc, hrefers⟩ := exactActiveCredential_ok htarget
  rw [validateDescriptor_ok] at hdescriptor
  cases h
  refine ⟨hle, rfl, document.credentials, document.grants.set index (replaceBinding replacement digest grant),
    Change.grants ?room ?keys ?granted, ?same⟩
  case room =>
    rw [List.length_set]
    exact hvalid.grantTotal
  case keys =>
    have hsame : grantTuple (replaceBinding replacement digest grant) = grantTuple grant := rfl
    rw [SortedTable.map_set hgrant hsame]
    exact hvalid.grantsSorted.nodup
  case granted =>
    intro g hg
    rcases List.mem_or_eq_of_mem_set hg with hold | rfl
    · exact Or.inl hold
    · have hvalidGrant := (hvalid.granted grant (List.mem_of_getElem? hgrant)).1
      exact Or.inr ⟨validateGrant_ok.2 ⟨(validateGrant_ok.1 hvalidGrant).1, hdescriptor.1,
        hdescriptor.2.1, digest.valid⟩, c, hc, hrefers⟩
  case same =>
    dsimp only
    rw [SortedTable.modify_found hgrant]
    rfl

theorem unbind_ok (hvalid : Valid document) {key : GrantKey} {old : PersistedBinding}
    (h : unbind key old document = (.ok result, document')) : Mutates document result document' := by
  unfold unbind at h
  simp only [check_bind_ok, get_bind] at h
  obtain ⟨index, -, _, -, _, -, revision, hrevision, h⟩ := h
  obtain ⟨hle, rfl⟩ := nextRevision_ok.1 hrevision
  have hsub := List.eraseIdx_sublist document.grants index
  cases h
  refine ⟨hle, rfl, document.credentials, _, Change.grants ?room ?keys ?granted, rfl⟩
  case room => exact hsub.length_le.trans hvalid.grantTotal
  case keys => exact hvalid.grantsSorted.nodup.sublist (hsub.map grantTuple)
  case granted => exact fun g hg => Or.inl (hsub.mem hg)

/-- A command that succeeds makes one change, or it found an empty vault. -/
theorem applyCommand_ok (hvalid : Valid document) {command : VaultCommand}
    (h : applyCommand command document = (.ok result, document')) :
    (command = .InitializeEmpty ∧ document' = document) ∨ Mutates document result document' := by
  cases command with
  | InitializeEmpty =>
      cases h
      exact Or.inl ⟨rfl, rfl⟩
  | Insert expected descriptor secret approvals => exact Or.inr (insert_ok hvalid h)
  | Rotate expected serviceId accountId version secret => exact Or.inr (rotate_ok h)
  | Revoke expected serviceId accountId version => exact Or.inr (revoke_ok h).1
  | Bind expected approvals => exact Or.inr (bindCommand_ok hvalid h)
  | Rebind expected key old replacement digest => exact Or.inr (rebind_ok hvalid h)
  | Unbind expected key old => exact Or.inr (unbind_ok hvalid h)

theorem Mutates.valid (hvalid : Valid document) (h : Mutates document result document') :
    Valid document' := by
  obtain ⟨hle, -, credentials, grants, hchange, rfl⟩ := h
  exact (hchange.consistent hvalid.consistent).finished hvalid hle

theorem applyCommand_valid (hvalid : Valid document) {command : VaultCommand}
    (h : applyCommand command document = (.ok result, document')) : Valid document' := by
  rcases applyCommand_ok hvalid h with ⟨-, rfl⟩ | hmutates
  · exact hvalid
  · exact hmutates.valid hvalid

end MCode.Vault
