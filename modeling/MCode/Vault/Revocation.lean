import MCode.Vault.Persist
import MCode.Vault.Sizes

/-!
# Revoking at the size limit

`revoke` in `host_vault/reducer.rs` with the limit of `model/serializer.rs`.
With the current revision and version a revocation always gets as far as the
serializer.  There the state has one letter more and the two counters may have
one digit more each, while the secret and the grants are gone: the document
grows by at most three bytes, and a secret of one byte leaves nothing to spare.
-/

namespace MCode.Vault

open MCode.Lib
open MCode.Lib.Json (digits listSize layoutSize)
open MCode.Lib.Results (bind_ok bind_unit_ok)
open MCode.Lib.SortedTable (Sorted sortBy sortBy_perm binarySearchBy_found)

/-! ## What is revoked -/

def CredentialVersion.next (version : CredentialVersion) (h : version.value < MAX_SIGNED) :
    CredentialVersion :=
  ⟨version.value + 1, version.one_le_next, h⟩

def revokedCredential (credential : Credential) (version : CredentialVersion) : Credential :=
  { credential with credentialVersion := version, state := .Revoked, secretBase64Url := none }

/-- `retain`. -/
def keptGrants (credential : Credential) (grants : List Grant) : List Grant :=
  grants.filter fun grant =>
    grant.serviceId != credential.serviceId || grant.accountId != credential.accountId

/-- The command with the current revision and version. -/
def currentRevoke (document : VaultDocument) (credential : Credential) : VaultCommand :=
  .Revoke (.Present ⟨document.revision⟩) credential.serviceId credential.accountId
    credential.credentialVersion

variable {codecs : Codecs} {document : VaultDocument} {credential : Credential} {i : Nat}

theorem activeCredentialIndex_found (hvalid : Valid document)
    (hat : document.credentials[i]? = some credential) (hactive : credential.state = .Active) :
    activeCredentialIndex document credential.serviceId credential.accountId
      credential.credentialVersion = .ok i := by
  have hfind : findCredential document credential.serviceId credential.accountId = .ok i :=
    binarySearchBy_found hvalid.sorted hat rfl
  unfold activeCredentialIndex
  rw [bind_ok]
  refine ⟨i, by rw [hfind]; rfl, bind_ok.2 ⟨credential, ?_, ?_⟩⟩
  · unfold credentialAt
    rw [hat]
  · rw [hactive, bne_self_eq_false, bne_self_eq_false]
    rfl

theorem checkedIncrement_next {version : CredentialVersion} (h : version.value < MAX_SIGNED) :
    version.checkedIncrement = .ok (version.next h) := dif_pos h

theorem nextRevision_next {revision : Nat} (h : revision < MAX_SIGNED) :
    nextRevision revision = .ok ⟨revision + 1⟩ := if_pos h

/-- The document is still sorted. -/
theorem finished_revoked (hvalid : Valid document)
    (hat : document.credentials[i]? = some credential) (version : CredentialVersion) :
    finished document (document.credentials.set i (revokedCredential credential version))
        (keptGrants credential document.grants) =
      { document with
        revision := document.revision + 1
        credentials := document.credentials.set i (revokedCredential credential version)
        grants := keptGrants credential document.grants } := by
  have hcredentials : Sorted credentialKey
      (document.credentials.set i (revokedCredential credential version)) := by
    have hkey : credentialKey (revokedCredential credential version) = credentialKey credential := rfl
    unfold Sorted
    rw [SortedTable.map_set hat hkey]
    exact hvalid.sorted
  have hgrants : Sorted grantTuple (keptGrants credential document.grants) :=
    hvalid.grantsSorted.sublist List.filter_sublist
  unfold finished
  rw [hcredentials.sortBy, hgrants.sortBy]

theorem applyCommand_revoke (hvalid : Valid document)
    (hat : document.credentials[i]? = some credential) (hactive : credential.state = .Active)
    (hrevision : document.revision < MAX_SIGNED)
    (hversion : credential.credentialVersion.value < MAX_SIGNED) :
    applyCommand (currentRevoke document credential) document =
      (.ok ⟨⟨document.revision + 1⟩, some (credential.credentialVersion.next hversion)⟩,
        { document with
          revision := document.revision + 1
          credentials := document.credentials.set i
            (revokedCredential credential (credential.credentialVersion.next hversion))
          grants := keptGrants credential document.grants }) := by
  rw [← finished_revoked hvalid hat]
  show revoke _ _ _ document = _
  unfold revoke
  simp only [Reducer.get_bind, Reducer.check_bind_ok]
  refine ⟨i, activeCredentialIndex_found hvalid hat hactive, credential, credentialAt_ok.2 hat,
    _, checkedIncrement_next hversion, _, nextRevision_next hrevision, ?_⟩
  show (Except.ok _, _) = _
  rw [Prod.mk.injEq]
  refine ⟨rfl, ?_⟩
  dsimp only
  rw [List.modify_modify_eq, List.modify_modify_eq, SortedTable.modify_found hat]
  rfl

/-- With a counter at its end. -/
theorem applyCommand_exhausted (hvalid : Valid document)
    (hat : document.credentials[i]? = some credential) (hactive : credential.state = .Active)
    (h : document.revision = MAX_SIGNED ∨ credential.credentialVersion.value = MAX_SIGNED) :
    applyCommand (currentRevoke document credential) document =
      (.error .RevisionExhausted, document) := by
  show revoke _ _ _ document = _
  unfold revoke
  rw [Reducer.get_bind, activeCredentialIndex_found hvalid hat hactive, Reducer.check_ok,
    credentialAt_ok.2 hat, Reducer.check_ok]
  by_cases hversion : credential.credentialVersion.value < MAX_SIGNED
  · have hrevision : document.revision = MAX_SIGNED := by omega
    have hnext : nextRevision document.revision = .error .RevisionExhausted := by
      unfold nextRevision
      rw [if_neg (by omega)]
    rw [checkedIncrement_next hversion, Reducer.check_ok, hnext, Reducer.check_error]
  · have hnext : credential.credentialVersion.checkedIncrement = .error .RevisionExhausted := by
      unfold CredentialVersion.checkedIncrement
      rw [dif_neg (by omega)]
    rw [hnext, Reducer.check_error]

/-! ## The balance -/

theorem sum_set {l : List Credential} (f : Credential → Nat) {a b : Credential}
    (hat : l[i]? = some a) : ((l.set i b).map f).sum + f a = (l.map f).sum + f b := by
  induction l generalizing i with
  | nil => cases hat
  | cons c l ih =>
      cases i with
      | zero =>
          cases hat
          rw [List.set_cons_zero, List.map_cons, List.map_cons, List.sum_cons, List.sum_cons]
          omega
      | succ i =>
          have hrest := ih (i := i) hat
          rw [List.set_cons_succ, List.map_cons, List.map_cons, List.sum_cons, List.sum_cons]
          omega

theorem credentialsSize_set {credentials : List Credential} {a b : Credential}
    (hat : credentials[i]? = some a) :
    credentialsSize (credentials.set i b) + credentialSize a =
      credentialsSize credentials + credentialSize b := by
  have hsum := @sum_set _ credentials credentialSize a b hat
  unfold credentialsSize listSize
  rw [List.length_map, List.length_map, List.length_set]
  omega

/-- What a filter drops is not written any more. -/
theorem grantsSize_filter (keep : Grant → Bool) (grants : List Grant) :
    grantsSize (grants.filter keep) ≤ grantsSize grants ∧
      ∀ g ∈ grants, keep g = false →
        grantsSize (grants.filter keep) + grantSize g ≤ grantsSize grants := by
  have hsums : ((grants.filter keep).map grantSize).sum ≤ (grants.map grantSize).sum ∧
      ∀ g ∈ grants, keep g = false →
        ((grants.filter keep).map grantSize).sum + grantSize g ≤ (grants.map grantSize).sum := by
    induction grants with
    | nil => exact ⟨Nat.le_refl 0, fun g hg => (List.not_mem_nil hg).elim⟩
    | cons grant grants ih =>
        rw [List.map_cons, List.sum_cons]
        cases hkeep : keep grant with
        | true =>
            rw [List.filter_cons_of_pos hkeep, List.map_cons, List.sum_cons]
            refine ⟨by omega, ?_⟩
            intro g hg hdrop
            rcases List.mem_cons.1 hg with rfl | hg
            · rw [hkeep] at hdrop
              cases hdrop
            · have hrest := ih.2 g hg hdrop
              omega
        | false =>
            rw [List.filter_cons_of_neg (by rw [hkeep]; exact Bool.false_ne_true)]
            refine ⟨by omega, ?_⟩
            intro g hg hdrop
            rcases List.mem_cons.1 hg with rfl | hg
            · omega
            · have hrest := ih.2 g hg hdrop
              omega
  have hlength := List.length_filter_le keep grants
  unfold grantsSize listSize
  rw [List.length_map, List.length_map]
  refine ⟨by omega, ?_⟩
  intro g hg hdrop
  have hsum := hsums.2 g hg hdrop
  omega

theorem four_le_grantSize (grant : Grant) : 4 ≤ grantSize grant := by
  have hlayout : layoutSize grantFields = 102 := by decide
  unfold grantSize
  omega

theorem revokedCredential_size {secret : Secret} (hsecret : credential.secretBase64Url = some secret)
    (hactive : credential.state = .Active) {version : CredentialVersion}
    (hversion : version.value = credential.credentialVersion.value + 1) :
    credentialSize (revokedCredential credential version) + Base64.textLength secret.bytes.length
        + digits credential.credentialVersion.value =
      credentialSize credential + 3 + digits (credential.credentialVersion.value + 1) := by
  have hstates : quotedSize (stateText .Active) = 8 ∧ quotedSize (stateText .Revoked) = 9 :=
    ⟨rfl, rfl⟩
  unfold credentialSize revokedCredential
  dsimp only
  rw [hsecret, hactive, hstates.1, hstates.2, hversion]
  unfold secretSize
  dsimp only
  omega

/-- What is added and taken away. -/
theorem revoked_balance {secret : Secret} (hat : document.credentials[i]? = some credential)
    (hsecret : credential.secretBase64Url = some secret) (hactive : credential.state = .Active)
    {version : CredentialVersion}
    (hversion : version.value = credential.credentialVersion.value + 1) :
    documentSize { document with
        revision := document.revision + 1
        credentials := document.credentials.set i (revokedCredential credential version)
        grants := keptGrants credential document.grants }
        + Base64.textLength secret.bytes.length + grantsSize document.grants
        + digits document.revision + digits credential.credentialVersion.value =
      documentSize document + 3 + grantsSize (keptGrants credential document.grants)
        + digits (document.revision + 1) + digits (credential.credentialVersion.value + 1) := by
  have hcredential := revokedCredential_size hsecret hactive hversion
  have hcredentials := @credentialsSize_set i _ _ (revokedCredential credential version) hat
  unfold documentSize
  dsimp only
  omega

/-! ## Revocations -/

/-- `replacement` of a file that is accepted, with the current revision. -/
theorem replacement_revoke {bytes : FileBytes} (hparse : parseVault codecs bytes = .ok document)
    {answer : Except ConfigErrorKind MutationResult} {changed : VaultDocument}
    (happly : applyCommand (currentRevoke document credential) document = (answer, changed)) :
    replacement codecs (some bytes) (currentRevoke document credential) =
      (answer >>= fun result => validateDocument changed >>= fun _ =>
        serializeDocument codecs changed >>= fun file => pure (file, result)) := by
  have hexpected : compareExpected true ⟨document.revision⟩ (currentRevoke document credential) =
      .ok () := by
    show reject (!(true && (⟨document.revision⟩ : VaultRevision) == ⟨document.revision⟩)) conflict = _
    rw [beq_self_eq_true]
    rfl
  unfold replacement
  show (parseVault codecs bytes >>= _) = _
  rw [hparse]
  show (compareExpected true ⟨document.revision⟩ _ >>= _) = _
  rw [hexpected]
  rw [happly]
  rfl

/-- A revocation with the current revision and version fails for a counter at its end,
or for the size of the document that it leaves.  The size is what the names of the
states, the counters, the secret and the grants make of it, so that there is room
if the secret has four bytes, if there was a grant, or if three bytes were free. -/
theorem revocation_fails_only_by_size (codecs : Codecs) (hlawful : codecs.Lawful)
    (hsized : codecs.Sized) (bytes : FileBytes) (hstored : bytes.len ≤ MAX_HOST_VAULT_BYTES)
    (document : VaultDocument) (hparse : parseVault codecs bytes = .ok document)
    (credential : Credential) (hmem : credential ∈ document.credentials)
    (hactive : credential.state = .Active) :
    (document.revision = MAX_SIGNED ∨ credential.credentialVersion.value = MAX_SIGNED →
      replacement codecs (some bytes) (currentRevoke document credential) =
        .error .RevisionExhausted) ∧
    (document.revision < MAX_SIGNED → credential.credentialVersion.value < MAX_SIGNED →
      ∃ secret result changed, credential.secretBase64Url = some secret ∧
        applyCommand (currentRevoke document credential) document = (.ok result, changed) ∧
        validateDocument changed = .ok () ∧
        changed.grants = keptGrants credential document.grants ∧
        documentSize changed + Base64.textLength secret.bytes.length + grantsSize document.grants
            + digits document.revision + digits credential.credentialVersion.value =
          documentSize document + 3 + grantsSize changed.grants
            + digits (document.revision + 1) + digits (credential.credentialVersion.value + 1) ∧
        (documentSize changed < MAX_HOST_VAULT_BYTES → ∃ file,
          serializeDocument codecs changed = .ok file ∧ file.len = documentSize changed + 1 ∧
          replacement codecs (some bytes) (currentRevoke document credential) =
            .ok (file, result)) ∧
        (MAX_HOST_VAULT_BYTES ≤ documentSize changed →
          replacement codecs (some bytes) (currentRevoke document credential) =
            .error .Serialization) ∧
        (4 ≤ secret.bytes.length ∨ (∃ grant ∈ document.grants, Refers grant credential) ∨
            documentSize document + 3 < MAX_HOST_VAULT_BYTES →
          documentSize changed < MAX_HOST_VAULT_BYTES)) := by
  have hvalid := parseVault_valid hparse
  have hfile := parseVault_size hsized hparse
  obtain ⟨i, hat⟩ := List.getElem?_of_mem hmem
  constructor
  · intro hend
    rw [replacement_revoke hparse (applyCommand_exhausted hvalid hat hactive hend)]
    rfl
  intro hrevision hversion
  obtain ⟨secret, hsecret⟩ := Option.isSome_iff_exists.1 ((hvalid.formed credential hmem).secret.2 hactive)
  have happly := applyCommand_revoke hvalid hat hactive hrevision hversion
  have hchanged := applyCommand_valid hvalid happly
  have hbalance := @revoked_balance document credential i secret hat hsecret hactive
    (credential.credentialVersion.next hversion) rfl
  have hreplacement := replacement_revoke hparse happly
  have hfits := serializeDocument_fits hlawful hsized hchanged
  refine ⟨secret, _, _, hsecret, happly, validateDocument_iff.2 hchanged, rfl, hbalance, ?_, ?_, ?_⟩
  · intro hroom
    obtain ⟨file, hwrite, hlen⟩ := hfits.1 hroom
    refine ⟨file, hwrite, hlen, ?_⟩
    rw [hreplacement, validateDocument_iff.2 hchanged, hwrite]
    rfl
  · intro hfull
    rw [hreplacement, validateDocument_iff.2 hchanged, hfits.2 hfull]
    rfl
  · have hdigits := Json.digits_succ document.revision
    have hdigits' := Json.digits_succ credential.credentialVersion.value
    have hgrants := grantsSize_filter (fun grant =>
      grant.serviceId != credential.serviceId || grant.accountId != credential.accountId)
      document.grants
    have hencoded := textLength_cases secret.bytes.length
    have hnonempty := secret.nonempty
    intro hcase
    rcases hcase with hlong | ⟨grant, hgrant, hrefers⟩ | hroom
    · have hkept : grantsSize (keptGrants credential document.grants) ≤ grantsSize document.grants :=
        hgrants.1
      omega
    · have hdropped : grantsSize (keptGrants credential document.grants) + grantSize grant ≤
          grantsSize document.grants := by
        apply hgrants.2 grant hgrant
        rw [hrefers.2.1, hrefers.2.2, bne_self_eq_false, bne_self_eq_false]
        rfl
      have hfour := four_le_grantSize grant
      omega
    · have hkept : grantsSize (keptGrants credential document.grants) ≤ grantsSize document.grants :=
        hgrants.1
      omega

theorem revocation_fails_only_by_size_shared :
    ∃ bytes credential file result, credential ∈ sharedDocument.credentials ∧
      parseVault compactCodecs bytes = .ok sharedDocument ∧
      replacement compactCodecs (some bytes) (currentRevoke sharedDocument credential) =
        .ok (file, result) := by
  obtain ⟨bytes, hbytes⟩ : ∃ bytes, serializeDocument compactCodecs sharedDocument = .ok bytes :=
    MCode.Lib.Results.isOk_true.1 (by decide +kernel)
  obtain ⟨hparse, hlen⟩ := parseVault_serialized compactCodecs_lawful
    (validateDocument_iff.1 (by decide +kernel : validateDocument sharedDocument = .ok ())) hbytes
  obtain ⟨secret, result, changed, hsecret, -, -, -, -, hwritten, -, hroom⟩ :=
    (revocation_fails_only_by_size compactCodecs compactCodecs_lawful compactCodecs_sized bytes hlen
      sharedDocument hparse _ List.mem_cons_self rfl).2 (by decide) (by decide)
  cases hsecret
  obtain ⟨file, -, -, hreplaced⟩ := hwritten (hroom (Or.inl (by decide)))
  exact ⟨bytes, _, file, result, List.mem_cons_self, hparse, hreplaced⟩

/-! ## A document at the limit -/

def unary (c : Char) (length : Nat) : String := String.ofList (List.replicate length c)

theorem utf8ByteSize_unary {c : Char} (hc : c.utf8Size = 1) (length : Nat) :
    (unary c length).utf8ByteSize = length := by
  unfold unary
  rw [Json.utf8ByteSize_ofList, Json.textSize, List.map_replicate, hc, List.sum_replicate_nat,
    Nat.mul_one]

theorem isLocalId_unary {c : Char} (hc : isAsciiLowercase c) (hsize : c.utf8Size = 1)
    (hplain : isSeparator c = false) {length : Nat} (hpos : 0 < length) (hle : length ≤ 128) :
    isLocalId (unary c length) := by
  obtain ⟨less, rfl⟩ := Nat.exists_eq_add_of_le' hpos
  have hid : isIdChar c = true := by
    unfold isIdChar
    rw [hc]
    rfl
  have hneighbours : SortedTable.anyNeighbours (fun a b => isSeparator a && isSeparator b)
      (List.replicate (less + 1) c) = false := by
    rw [SortedTable.anyNeighbours_false, List.isChain_iff_getElem]
    intro i hi
    rw [List.getElem_replicate, hplain]
    rfl
  unfold isLocalId
  rw [utf8ByteSize_unary hsize]
  unfold unary
  rw [String.toList_ofList, hneighbours, List.all_replicate, List.getLast?_replicate,
    List.head?_replicate]
  simp [hc, hid, hplain, hle]

theorem unary_lt (c : Char) {m n : Nat} (h : m < n) : unary c m < unary c n := by
  have hlists : List.replicate m c < List.replicate n c := by
    induction m generalizing n with
    | zero =>
        obtain ⟨more, rfl⟩ := Nat.exists_eq_add_of_le' h
        exact List.Lex.nil
    | succ m ih =>
        obtain ⟨more, rfl⟩ := Nat.exists_eq_add_of_le' (Nat.zero_lt_of_lt h)
        rw [List.replicate_succ, List.replicate_succ, List.cons_lt_cons_iff]
        exact Or.inr ⟨rfl, ih (by omega)⟩
  unfold unary
  rw [String.lt_iff_toList_lt, String.toList_ofList, String.toList_ofList]
  exact hlists

def soleSecret : Secret := ⟨[0], by decide, by decide⟩

def longSecret : Secret :=
  ⟨List.replicate MAX_SECRET_BYTES 0, by rw [List.length_replicate]; decide,
    by rw [List.length_replicate]⟩

/-- A secret of one byte, and no grant. -/
def smallCredential : Credential where
  serviceId := unary 'a' 1
  accountId := unary 'a' 56
  issuerId := unary 'i' 1
  authSchemaId := unary 's' 52
  credentialVersion := .FIRST
  state := .Active
  secretBase64Url := some soleSecret

def largeCredential (n : Nat) : Credential where
  serviceId := unary 'h' (n + 1)
  accountId := unary 'a' 56
  issuerId := unary 'i' 1
  authSchemaId := unary 's' 1
  credentialVersion := .FIRST
  state := .Active
  secretBase64Url := some longSecret

def largeGrant (packId : String) (n : Nat) : Grant where
  consumerFamily := .Providers
  managerId := pluginId ConsumerFamily.Providers.pluginFamily
  packId := packId
  operationId := unary 'o' (n + 1)
  serviceId := unary 'h' 1
  accountId := unary 'a' 56
  authorityDigest := "sha256:0000000000000000000000000000000000000000000000000000000000000000"

def packIds : List String := ["a", "b", "c", "d", "e", "f", "g", "h"]

/-- One byte less than the file may have, with the newline to come. -/
def fullDocument : VaultDocument where
  formatVersion := 1
  kind := HOST_VAULT_KIND
  revision := 1
  credentials := smallCredential :: (List.range 63).map largeCredential
  grants := packIds.flatMap fun packId => (List.range 128).map (largeGrant packId)

theorem fullDocument_formed {credential : Credential} (h : credential ∈ fullDocument.credentials) :
    WellFormed credential := by
  have hlocal : ∀ c ∈ ['a', 'h', 'i', 's'], ∀ length, 0 < length → length ≤ 128 →
      isLocalId (unary c length) := by
    intro c hc length hpos hle
    simp only [List.mem_cons, List.not_mem_nil, or_false] at hc
    rcases hc with rfl | rfl | rfl | rfl
    all_goals exact isLocalId_unary (by decide) (by decide) (by decide) hpos hle
  rcases List.mem_cons.1 h with rfl | h
  · exact ⟨hlocal 'a' (by decide) 1 (by decide) (by decide),
      hlocal 'a' (by decide) 56 (by decide) (by decide),
      hlocal 'i' (by decide) 1 (by decide) (by decide),
      hlocal 's' (by decide) 52 (by decide) (by decide), iff_of_true rfl rfl⟩
  · obtain ⟨n, hn, rfl⟩ := List.mem_map.1 h
    rw [List.mem_range] at hn
    exact ⟨hlocal 'h' (by decide) (n + 1) (by omega) (by omega),
      hlocal 'a' (by decide) 56 (by decide) (by decide),
      hlocal 'i' (by decide) 1 (by decide) (by decide),
      hlocal 's' (by decide) 1 (by decide) (by decide), iff_of_true rfl rfl⟩

theorem fullDocument_sorted : Sorted credentialKey fullDocument.credentials := by
  unfold Sorted
  rw [List.pairwise_map]
  apply List.pairwise_cons.2
  constructor
  · intro other hother
    obtain ⟨n, -, rfl⟩ := List.mem_map.1 hother
    unfold credentialKey
    rw [Prod.Lex.toLex_lt_toLex]
    left
    show unary 'a' 1 < unary 'h' (n + 1)
    rw [String.lt_iff_toList_lt, unary, unary, String.toList_ofList, String.toList_ofList,
      List.replicate_succ, List.replicate_succ, List.cons_lt_cons_iff]
    exact Or.inl (by decide)
  · rw [List.pairwise_map]
    apply List.pairwise_lt_range.imp
    intro m n hlt
    unfold credentialKey
    rw [Prod.Lex.toLex_lt_toLex]
    exact Or.inl (unary_lt 'h' (Nat.succ_lt_succ hlt))

theorem fullDocument_grantsSorted : Sorted grantTuple fullDocument.grants := by
  unfold Sorted
  rw [List.pairwise_map]
  apply List.pairwise_flatMap.2
  constructor
  · intro packId hpack
    rw [List.pairwise_map]
    apply List.pairwise_lt_range.imp
    intro m n hlt
    unfold grantTuple
    simp only [Prod.Lex.toLex_lt_toLex]
    exact Or.inr ⟨rfl, Or.inr ⟨rfl, Or.inr ⟨rfl, unary_lt 'o' (Nat.succ_lt_succ hlt)⟩⟩⟩
  · have hpacks : packIds.Pairwise (· < ·) := by decide
    apply hpacks.imp
    intro left right hlt grant hgrant other hother
    obtain ⟨m, -, rfl⟩ := List.mem_map.1 hgrant
    obtain ⟨n, -, rfl⟩ := List.mem_map.1 hother
    unfold grantTuple
    simp only [Prod.Lex.toLex_lt_toLex]
    exact Or.inr ⟨rfl, Or.inr ⟨rfl, Or.inl hlt⟩⟩

theorem largeGrant_valid {packId : String} (hpack : packId ∈ packIds) {n : Nat} (hn : n < 128) :
    validateGrant (largeGrant packId n) = .ok () := by
  have hpacks : ∀ packId ∈ packIds, isValidPortableId packId = true := by decide +kernel
  have hdigest : isValidSha256Digest
      "sha256:0000000000000000000000000000000000000000000000000000000000000000" = true := by
    decide +kernel
  have hoperation : isValidOperationId (unary 'o' (n + 1)) = true :=
    isLocalId_unary (by decide) (by decide) (by decide) (by omega) (by omega)
  rw [validateGrant_ok]
  refine ⟨?_, isLocalId_unary (by decide) (by decide) (by decide) (by decide) (by decide),
    isLocalId_unary (by decide) (by decide) (by decide) (by decide) (by decide), hdigest⟩
  unfold validateGrantCoordinates
  rw [bind_unit_ok, reject_ok, reject_ok, Bool.not_eq_false', Bool.or_eq_false_iff,
    bne_eq_false_iff_eq, Bool.not_eq_false']
  exact ⟨hoperation, rfl, hpacks packId hpack⟩

theorem fullDocument_valid : Valid fullDocument where
  format := rfl
  kind := rfl
  revision := by decide
  formed := fun _ h => fullDocument_formed h
  active := by
    have hle : activeCount fullDocument ≤ fullDocument.credentials.length := List.countP_le_length
    have hlength : fullDocument.credentials.length = 64 := by
      show ((List.range 63).map largeCredential).length + 1 = 64
      rw [List.length_map, List.length_range]
    rw [hlength] at hle
    exact hle
  total := by
    show ((List.range 63).map largeCredential).length + 1 ≤ 320
    rw [List.length_map, List.length_range]
    decide
  sorted := fullDocument_sorted
  grantTotal := by
    show (packIds.flatMap fun packId => (List.range 128).map (largeGrant packId)).length ≤ 1024
    simp [packIds]
  granted := by
    intro grant hgrant
    obtain ⟨packId, hpack, hgrant⟩ := List.mem_flatMap.1 hgrant
    obtain ⟨n, hn, rfl⟩ := List.mem_map.1 hgrant
    rw [List.mem_range] at hn
    refine ⟨largeGrant_valid hpack hn, (references_eq_one fullDocument_sorted.nodup).2 ?_⟩
    refine ⟨largeCredential 0, List.mem_cons_of_mem _ ?_, rfl, rfl, rfl⟩
    exact List.mem_map_of_mem (List.mem_range.2 (by decide))
  grantsSorted := fullDocument_grantsSorted

theorem smallCredential_size : credentialSize smallCredential = 235 := by
  have hlayout : layoutSize credentialFields = 104 := by decide
  unfold credentialSize smallCredential quotedSize
  dsimp only
  rw [hlayout, utf8ByteSize_unary (by decide), utf8ByteSize_unary (by decide),
    utf8ByteSize_unary (by decide), utf8ByteSize_unary (by decide)]
  decide

theorem largeCredential_size (n : Nat) : credentialSize (largeCredential n) = 11105 + n := by
  have hlayout : layoutSize credentialFields = 104 := by decide
  have hsecret : secretSize (some longSecret) = 10925 := by
    show Base64.textLength (List.replicate MAX_SECRET_BYTES 0).length + 2 = _
    rw [List.length_replicate]
    decide
  have hstate : (stateText .Active).utf8ByteSize = 6 := rfl
  have hversion : digits CredentialVersion.FIRST.value = 1 := by decide
  unfold credentialSize largeCredential quotedSize
  dsimp only
  rw [hlayout, hsecret, hstate, hversion, utf8ByteSize_unary (by decide),
    utf8ByteSize_unary (by decide), utf8ByteSize_unary (by decide), utf8ByteSize_unary (by decide)]
  omega

theorem largeGrant_size {packId : String} (hpack : packId.utf8ByteSize = 1) (n : Nat) :
    grantSize (largeGrant packId n) = 274 + n := by
  have hlayout : layoutSize grantFields = 102 := by decide
  unfold grantSize largeGrant quotedSize
  dsimp only
  rw [hlayout, hpack, utf8ByteSize_unary (by decide), utf8ByteSize_unary (by decide),
    utf8ByteSize_unary (by decide)]
  show 102 + (9 + 2) + (19 + 2) + (1 + 2) + (n + 1 + 2) + (1 + 2) + (56 + 2) + (71 + 2) = 274 + n
  omega

theorem fullDocument_size : documentSize fullDocument + 1 = MAX_HOST_VAULT_BYTES := by
  have hcredentials : credentialsSize fullDocument.credentials = 701866 := by
    show listSize (credentialSize smallCredential ::
      ((List.range 63).map largeCredential).map credentialSize) = _
    have hsizes : ((List.range 63).map largeCredential).map credentialSize =
        (List.range 63).map fun n => 11105 + n := by
      rw [List.map_map]
      exact List.map_congr_left fun n _ => largeCredential_size n
    rw [smallCredential_size, hsizes]
    decide +kernel
  have hgrants : grantsSize fullDocument.grants = 346623 := by
    have hpacks : ∀ packId ∈ packIds, packId.utf8ByteSize = 1 := by decide
    have hsizes : fullDocument.grants.map grantSize =
        packIds.flatMap fun _ => (List.range 128).map fun n => 274 + n := by
      show (packIds.flatMap fun packId => (List.range 128).map (largeGrant packId)).map grantSize = _
      rw [List.map_flatMap]
      apply List.flatMap_congr
      intro packId hpack
      rw [List.map_map]
      exact List.map_congr_left fun n _ => largeGrant_size (hpacks packId hpack) n
    unfold grantsSize
    rw [hsizes]
    decide +kernel
  unfold documentSize
  rw [hcredentials, hgrants]
  decide

/-- A file that is stored, an active credential in it, the current revision and version,
no counter at its end, and a revocation that is refused for its size. -/
theorem revocation_refused_at_limit :
    ∃ bytes, serializeDocument compactCodecs fullDocument = .ok bytes ∧
      bytes.len = MAX_HOST_VAULT_BYTES ∧ parseVault compactCodecs bytes = .ok fullDocument ∧
      smallCredential ∈ fullDocument.credentials ∧ smallCredential.state = .Active ∧
      fullDocument.revision < MAX_SIGNED ∧ smallCredential.credentialVersion.value < MAX_SIGNED ∧
      replacement compactCodecs (some bytes) (currentRevoke fullDocument smallCredential) =
        .error .Serialization := by
  have hsize := fullDocument_size
  obtain ⟨bytes, hbytes, hlen⟩ :=
    (serializeDocument_fits compactCodecs_lawful compactCodecs_sized fullDocument_valid).1 (by omega)
  have hparse := (parseVault_serialized compactCodecs_lawful fullDocument_valid hbytes).1
  have hat : fullDocument.credentials[0]? = some smallCredential := rfl
  have hrevision : fullDocument.revision < MAX_SIGNED := by decide
  have hversion : smallCredential.credentialVersion.value < MAX_SIGNED := by decide
  have happly := applyCommand_revoke fullDocument_valid hat rfl hrevision hversion
  have hchanged := applyCommand_valid fullDocument_valid happly
  -- no digit is added, and `null` is as long as the secret
  have hbalance := @revoked_balance fullDocument smallCredential 0 soleSecret hat rfl rfl
    (smallCredential.credentialVersion.next hversion) rfl
  have hkept : keptGrants smallCredential fullDocument.grants = fullDocument.grants := by
    apply List.filter_eq_self.2
    intro grant hgrant
    obtain ⟨packId, -, hgrant⟩ := List.mem_flatMap.1 hgrant
    obtain ⟨n, -, rfl⟩ := List.mem_map.1 hgrant
    have hother : (unary 'h' 1 != unary 'a' 1) = true := by decide
    rw [Bool.or_eq_true]
    exact Or.inl hother
  have hencoded : Base64.textLength soleSecret.bytes.length = 2 := rfl
  have hdigits : digits fullDocument.revision = 1 ∧ digits (fullDocument.revision + 1) = 1 ∧
      digits smallCredential.credentialVersion.value = 1 ∧
      digits (smallCredential.credentialVersion.value + 1) = 1 := by decide
  have hfull := (serializeDocument_fits compactCodecs_lawful compactCodecs_sized hchanged).2
    (by rw [hkept] at hbalance ⊢; omega)
  refine ⟨bytes, hbytes, by omega, hparse, List.mem_cons_self, rfl, hrevision, hversion, ?_⟩
  rw [replacement_revoke hparse happly, validateDocument_iff.2 hchanged, hfull]
  rfl

end MCode.Vault
