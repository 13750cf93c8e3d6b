import MCode.Lib.JsonSize
import MCode.Vault.RoundTrip

/-!
# The size of a vault

How many bytes the compact text of a document has, as a sum over its fields: the
same for every tree that is read as the document, in whatever order its members
come.  `Codecs.Sized` is what this needs to know of `serde_json`.
-/

namespace MCode.Vault

open MCode.Lib
open MCode.Lib.Json (digits listSize layoutSize)
open MCode.Lib.Results (bind_ok bind_unit_ok mapM_ok)

/-- Trees are written compactly, and a text without escapes is not shorter than the
compact text of what it is read as. -/
structure Codecs.Sized (codecs : Codecs) : Prop where
  write_size : ∀ tree : Json, tree.plain SERDE_DEPTH →
    (codecs.write tree).utf8ByteSize = Json.size SERDE_DEPTH tree
  read_size : ∀ (text : String) (tree : Json), '\\' ∉ text.toList → codecs.read text = .ok tree →
    Json.size SERDE_DEPTH tree ≤ text.utf8ByteSize

theorem compactCodecs_sized : compactCodecs.Sized where
  write_size tree hplain := Json.utf8ByteSize_ofList _
  read_size text tree hslash h := by
    rw [← Json.textSize_toList]
    apply Json.read_size
    unfold compactCodecs at h
    dsimp only at h
    split at h
    · rename_i found hfound
      cases h
      exact hfound
    · cases h

/-! ## Sums -/

def quotedSize (value : String) : Nat := value.utf8ByteSize + 2

/-- A secret in Base64, or `null`. -/
def secretSize : Option Secret → Nat
  | none => 4
  | some secret => Base64.textLength secret.bytes.length + 2

def credentialSize (credential : Credential) : Nat :=
  layoutSize credentialFields + quotedSize credential.serviceId + quotedSize credential.accountId
    + quotedSize credential.issuerId + quotedSize credential.authSchemaId
    + digits credential.credentialVersion.value + quotedSize (stateText credential.state)
    + secretSize credential.secretBase64Url

def grantSize (grant : Grant) : Nat :=
  layoutSize grantFields + quotedSize grant.consumerFamily.sortKey + quotedSize grant.managerId
    + quotedSize grant.packId + quotedSize grant.operationId + quotedSize grant.serviceId
    + quotedSize grant.accountId + quotedSize grant.authorityDigest

def credentialsSize (credentials : List Credential) : Nat := listSize (credentials.map credentialSize)

def grantsSize (grants : List Grant) : Nat := listSize (grants.map grantSize)

/-- Without the newline at the end. -/
def documentSize (document : VaultDocument) : Nat :=
  layoutSize documentFields + digits document.formatVersion + quotedSize document.kind
    + digits document.revision + (2 + credentialsSize document.credentials)
    + (2 + grantsSize document.grants)

/-! ## Slots -/

theorem readMembers_slots {known : List String} {members slots result : List (String × Json)}
    (h : readMembers known slots members = .ok result) :
    result = slots ++ members ∧ (∀ m ∈ members, m.1 ∈ known) ∧
      ((slots.map Prod.fst).Nodup → (result.map Prod.fst).Nodup) := by
  induction members generalizing slots with
  | nil =>
      cases h
      exact ⟨(List.append_nil _).symm, fun m hm => (List.not_mem_nil hm).elim, id⟩
  | cons member members ih =>
      rw [readMembers, bind_unit_ok, reject_ok, Bool.or_eq_false_iff] at h
      obtain ⟨⟨hknown, hnew⟩, h⟩ := h
      obtain ⟨hresult, hmembers, hnodup⟩ := ih h
      refine ⟨by rw [hresult]; simp, ?_, ?_⟩
      · intro m hm
        rcases List.mem_cons.1 hm with rfl | hm
        · simpa using hknown
        · exact hmembers m hm
      · intro hslots
        apply hnodup
        rw [List.map_append, List.map_singleton, List.nodup_append]
        refine ⟨hslots, List.nodup_singleton _, ?_⟩
        intro name hname other hother heq
        rw [List.mem_singleton.1 hother] at heq
        subst heq
        simp only [List.contains_eq_mem, decide_eq_false_iff_not] at hnew
        exact hnew hname

theorem required_mem {slots : List (String × Json)} {name : String} {value : Json}
    (h : required slots name = .ok value) : (name, value) ∈ slots := by
  unfold required at h
  split at h
  · rename_i found hfound
    cases h
    obtain ⟨front, rest, rfl, -⟩ := List.lookup_eq_some_iff.1 hfound
    exact List.mem_append_right _ List.mem_cons_self
  · cases h

/-- A tree whose members are all read has the size of its members in any order. -/
theorem visitMap_size {known : List String} {tree : Json} {slots members : List (String × Json)}
    (h : visitMap known tree = .ok slots) (hnames : members.map Prod.fst = known)
    (hmembers : ∀ m ∈ members, required slots m.1 = .ok m.2) (depth : Nat) (hknown : known.Nodup) :
    Json.size (depth + 1) tree =
      layoutSize known + (members.map fun member => Json.size depth member.2).sum := by
  unfold visitMap at h
  split at h
  · obtain ⟨rfl, hfound, hnodup⟩ := readMembers_slots h
    have hslots := hnodup List.nodup_nil
    have hlength : slots.length ≤ members.length := by
      have hsub : (slots.map Prod.fst).Subperm known := by
        apply List.subperm_of_subset hslots
        intro name hname
        obtain ⟨member, hmember, rfl⟩ := List.mem_map.1 hname
        exact hfound member hmember
      have hle := hsub.length_le
      rw [← hnames, List.length_map, List.length_map] at hle
      exact hle
    have hsub : members.Subperm slots := by
      apply List.subperm_of_subset
      · exact List.Nodup.of_map Prod.fst (hnames ▸ hknown)
      · exact fun m hm => required_mem (hmembers m hm)
    have hperm := hsub.perm_of_length_le hlength
    rw [Json.size_object_perm depth hperm.symm, Json.size_object_layout, hnames]
  · cases h

/-! ## Fields -/

variable {codecs : Codecs}

theorem borrowedString_ok {tree : Json} {value : String} (h : borrowedString tree = .ok value) :
    tree = .string value := by
  unfold borrowedString at h
  split at h
  · cases h
    rfl
  · cases h

theorem u64Value_ok {tree : Json} {value : Nat} (h : u64Value tree = .ok value) :
    tree = .natural value := by
  unfold u64Value at h
  split at h
  · cases h
    rfl
  · cases h

theorem credentialVersion_value {value : Nat} {version : CredentialVersion}
    (h : CredentialVersion.new value = .ok version) : value = version.value := by
  unfold CredentialVersion.new at h
  split at h
  · cases h
    rfl
  · cases h

theorem credentialState_ok {tree : Json} {state : CredentialState}
    (h : credentialState tree = .ok state) : tree = .string (stateText state) := by
  unfold credentialState at h
  split at h
  · cases h
    rfl
  · cases h
    rfl
  · cases h

theorem consumerFamily_ok {tree : Json} {family : ConsumerFamily}
    (h : consumerFamily tree = .ok family) : tree = .string family.sortKey := by
  unfold consumerFamily at h
  split at h
  · cases h
    rfl
  · cases h
    rfl
  · cases h
    rfl
  · cases h

theorem vaultArray_ok {α : Type} {item : Json → Except ConfigErrorKind α} {tree : Json}
    {values : List α} (h : vaultArray item tree = .ok values) :
    ∃ items, tree = .array items ∧ List.Forall₂ (fun item' a => item item' = .ok a) items values := by
  unfold vaultArray at h
  split at h
  · rename_i items
    exact ⟨items, rfl, mapM_ok.1 h⟩
  · cases h

theorem textLength_decodedCapacity {length capacity : Nat}
    (h : decodedCapacity length = some capacity) : Base64.textLength capacity = length := by
  have hcases := textLength_cases capacity
  unfold decodedCapacity at h
  split at h
  · have hcapacity := Option.some.inj h
    omega
  · have hcapacity := Option.some.inj h
    omega
  · have hcapacity := Option.some.inj h
    omega
  · cases h

theorem decodeSecret_size {encoded : String} {secret : Secret}
    (h : decodeSecret codecs encoded = .ok secret) :
    Base64.textLength secret.bytes.length = encoded.utf8ByteSize := by
  unfold decodeSecret at h
  rw [bind_unit_ok] at h
  obtain ⟨-, h⟩ := h
  split at h
  · rename_i capacity bytes hcapacity hbytes
    rw [bind_unit_ok, reject_ok, bne_eq_false_iff_eq] at h
    obtain ⟨hlength, hsecret⟩ := h
    unfold Secret.fromInput at hsecret
    split at hsecret
    · cases hsecret
      show Base64.textLength bytes.length = _
      rw [hlength]
      exact textLength_decodedCapacity hcapacity
    · cases hsecret
  · cases h

theorem optionalSecret_size {tree : Json} {secret : Option Secret}
    (h : optionalSecret codecs tree = .ok secret) (depth : Nat) :
    Json.size depth tree = secretSize secret := by
  unfold optionalSecret at h
  split at h
  · cases h
    exact Json.size_null depth
  · rename_i encoded
    cases hdecode : decodeSecret codecs encoded with
    | error error =>
        rw [hdecode] at h
        cases h
    | ok found =>
        rw [hdecode] at h
        cases h
        rw [Json.size_string, ← decodeSecret_size hdecode]
        rfl
  · cases h

/-! ## Documents -/

theorem readCredential_size {tree : Json} {credential : Credential}
    (h : readCredential codecs tree = .ok credential) (depth : Nat) :
    Json.size (depth + 1) tree = credentialSize credential := by
  simp only [readCredential, bind_ok] at h
  obtain ⟨slots, hslots, serviceId, ⟨service, hservice, h1⟩, accountId, ⟨account, haccount, h2⟩,
    issuerId, ⟨issuer, hissuer, h3⟩, authSchemaId, ⟨schema, hschema, h4⟩,
    version, ⟨number, ⟨counter, hcounter, h5⟩, h6⟩, state, ⟨word, hword, h7⟩,
    secret, ⟨text, htext, h8⟩, h⟩ := h
  cases h
  obtain rfl := borrowedString_ok h1
  obtain rfl := borrowedString_ok h2
  obtain rfl := borrowedString_ok h3
  obtain rfl := borrowedString_ok h4
  obtain rfl := u64Value_ok h5
  obtain rfl := credentialVersion_value h6
  obtain rfl := credentialState_ok h7
  have hmembers : ∀ m ∈ credentialMembers
      { serviceId, accountId, issuerId, authSchemaId, credentialVersion := version, state,
        secretBase64Url := secret } text, required slots m.1 = .ok m.2 := by
    simp only [credentialMembers, List.forall_mem_cons]
    exact ⟨hservice, haccount, hissuer, hschema, hcounter, hword, htext,
      fun m hm => (List.not_mem_nil hm).elim⟩
  rw [visitMap_size hslots rfl hmembers depth (by decide)]
  simp only [credentialMembers, List.map_cons, List.map_nil, List.sum_cons, List.sum_nil,
    Json.size_string, Json.size_natural, optionalSecret_size h8]
  unfold credentialSize quotedSize
  dsimp only
  omega

theorem readGrant_size {tree : Json} {grant : Grant} (h : readGrant tree = .ok grant)
    (depth : Nat) : Json.size (depth + 1) tree = grantSize grant := by
  simp only [readGrant, bind_ok] at h
  obtain ⟨slots, hslots, family, ⟨word, hword, h1⟩, managerId, ⟨manager, hmanager, h2⟩,
    packId, ⟨pack, hpack, h3⟩, operationId, ⟨operation, hoperation, h4⟩,
    serviceId, ⟨service, hservice, h5⟩, accountId, ⟨account, haccount, h6⟩,
    authorityDigest, ⟨digest, hdigest, h7⟩, h⟩ := h
  cases h
  obtain rfl := consumerFamily_ok h1
  obtain rfl := borrowedString_ok h2
  obtain rfl := borrowedString_ok h3
  obtain rfl := borrowedString_ok h4
  obtain rfl := borrowedString_ok h5
  obtain rfl := borrowedString_ok h6
  obtain rfl := borrowedString_ok h7
  have hmembers : ∀ m ∈ grantMembers
      { consumerFamily := family, managerId, packId, operationId, serviceId, accountId,
        authorityDigest }, required slots m.1 = .ok m.2 := by
    simp only [grantMembers, List.forall_mem_cons]
    exact ⟨hword, hmanager, hpack, hoperation, hservice, haccount, hdigest,
      fun m hm => (List.not_mem_nil hm).elim⟩
  rw [visitMap_size hslots rfl hmembers depth (by decide)]
  simp only [grantMembers, List.map_cons, List.map_nil, List.sum_cons, List.sum_nil,
    Json.size_string]
  unfold grantSize quotedSize
  dsimp only
  omega

/-- Elements that are read have the sizes of what they are read as. -/
theorem array_size {α : Type} {item : Json → Except ConfigErrorKind α} {measure : α → Nat}
    {depth : Nat} (hitem : ∀ tree a, item tree = .ok a → Json.size depth tree = measure a)
    {items : List Json} {values : List α}
    (h : List.Forall₂ (fun tree a => item tree = .ok a) items values) :
    Json.size (depth + 1) (.array items) = 2 + listSize (values.map measure) := by
  have hsizes : items.map (Json.size depth) = values.map measure := by
    induction h with
    | nil => rfl
    | cons hfirst hrest ih => rw [List.map_cons, List.map_cons, hitem _ _ hfirst, ih]
  rw [Json.size_array, hsizes]

/-- Every text of a document has at least this size. -/
theorem readDocument_size {tree : Json} {document : VaultDocument}
    (h : readDocument codecs tree = .ok document) :
    Json.size SERDE_DEPTH tree = documentSize document := by
  simp only [readDocument, bind_ok] at h
  obtain ⟨slots, hslots, formatVersion, ⟨format, hformat, h1⟩, _, -, kind, ⟨name, hname, h2⟩,
    revision, ⟨number, hnumber, h3⟩, credentials, ⟨array, harray, h4⟩,
    grants, ⟨others, hothers, h5⟩, h⟩ := h
  cases h
  obtain rfl := u64Value_ok h1
  obtain rfl := borrowedString_ok h2
  obtain rfl := u64Value_ok h3
  obtain ⟨credentialTrees, rfl, hcredentials⟩ := vaultArray_ok h4
  obtain ⟨grantTrees, rfl, hgrants⟩ := vaultArray_ok h5
  have hmembers : ∀ m ∈ [("formatVersion", Json.natural formatVersion), ("kind", .string kind),
      ("revision", .natural revision), ("credentials", .array credentialTrees),
      ("grants", .array grantTrees)], required slots m.1 = .ok m.2 := by
    simp only [List.forall_mem_cons]
    exact ⟨hformat, hname, hnumber, harray, hothers, fun m hm => (List.not_mem_nil hm).elim⟩
  have hcredentialsSize : Json.size 126 (.array credentialTrees) = 2 + credentialsSize credentials :=
    array_size (fun tree credential h => readCredential_size h 124) hcredentials
  have hgrantsSize : Json.size 126 (.array grantTrees) = 2 + grantsSize grants :=
    array_size (fun tree grant h => readGrant_size h 124) hgrants
  have hsize := visitMap_size hslots rfl hmembers 126 (by decide)
  simp only [List.map_cons, List.map_nil, List.sum_cons, List.sum_nil, Json.size_string,
    Json.size_natural, hcredentialsSize, hgrantsSize] at hsize
  show Json.size (126 + 1) tree = _
  rw [hsize]
  unfold documentSize quotedSize
  dsimp only
  omega

/-- A valid document fits exactly if its size does. -/
theorem serializeDocument_fits (hlawful : codecs.Lawful) (hsized : codecs.Sized)
    {document : VaultDocument} (hvalid : Valid document) :
    (documentSize document < MAX_HOST_VAULT_BYTES →
      ∃ file, serializeDocument codecs document = .ok file ∧
        file.len = documentSize document + 1) ∧
    (MAX_HOST_VAULT_BYTES ≤ documentSize document →
      serializeDocument codecs document = .error .Serialization) := by
  obtain ⟨tree, hwrite, hread, hplain⟩ := documentTree_reads hlawful hvalid
  have hsize : (codecs.write tree).utf8ByteSize = documentSize document := by
    rw [hsized.write_size tree hplain, readDocument_size hread]
  have hmax : 0 < MAX_HOST_VAULT_BYTES := by decide
  unfold serializeDocument
  rw [hwrite]
  constructor
  · intro hlt
    have hpass : reject (decide (MAX_HOST_VAULT_BYTES - 1 < (codecs.write tree).utf8ByteSize))
        .Serialization = .ok () := by
      rw [reject_ok, decide_eq_false_iff_not]
      omega
    refine ⟨.utf8 (codecs.write tree ++ "\n"), ?_, ?_⟩
    · show (reject (decide (MAX_HOST_VAULT_BYTES - 1 < (codecs.write tree).utf8ByteSize))
        .Serialization >>= fun _ => pure (FileBytes.utf8 (codecs.write tree ++ "\n"))) = _
      rw [hpass]
      rfl
    · show (codecs.write tree ++ "\n").utf8ByteSize = _
      rw [String.utf8ByteSize_append, hsize]
      rfl
  · intro hle
    have hexceeds : decide (MAX_HOST_VAULT_BYTES - 1 < (codecs.write tree).utf8ByteSize) = true := by
      rw [decide_eq_true_eq]
      omega
    show (reject (decide (MAX_HOST_VAULT_BYTES - 1 < (codecs.write tree).utf8ByteSize))
      .Serialization >>= fun _ => pure (FileBytes.utf8 (codecs.write tree ++ "\n"))) = _
    rw [hexceeds]
    rfl

/-- A file that is accepted is not shorter than what would be written. -/
theorem parseVault_size (hsized : codecs.Sized) {bytes : FileBytes} {document : VaultDocument}
    (h : parseVault codecs bytes = .ok document) : documentSize document ≤ bytes.len := by
  cases bytes with
  | other length => cases h
  | utf8 text =>
      unfold parseVault at h
      rw [bind_unit_ok, reject_ok, bind_ok] at h
      obtain ⟨hslash, found, hfound, h⟩ := h
      rw [bind_unit_ok] at h
      cases h.2
      obtain ⟨tree, htree, hread⟩ := bind_ok.1 hfound
      rw [← readDocument_size hread]
      apply hsized.read_size text tree _ htree
      rw [← List.contains_iff_mem, hslash]
      exact Bool.false_ne_true

end MCode.Vault
