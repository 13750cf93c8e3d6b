import MCode.Vault.Codec

/-!
# What is stored is read back

A valid document has plain strings only, so its text has no backslash, and the
members that were written are read as they were.
-/

namespace MCode.Vault

open MCode.Lib
open MCode.Lib.Json (plainChar plainString)
open MCode.Lib.Results (bind_ok bind_unit_ok)

/-! ## Plain strings -/

theorem plainChar_digit {c : Char} (h : isAsciiDigit c) : plainChar c := by
  unfold isAsciiDigit at h
  rw [Bool.and_eq_true, decide_eq_true_eq, decide_eq_true_eq] at h
  have hlow : 0x30 ≤ c.toNat := h.1
  have hhigh : c.toNat ≤ 0x39 := h.2
  rw [Json.plainChar_iff]
  omega

theorem plainChar_lowercase {c : Char} (hlow : 'a' ≤ c) (hhigh : c ≤ 'z') : plainChar c := by
  have hlow : 0x61 ≤ c.toNat := hlow
  have hhigh : c.toNat ≤ 0x7a := hhigh
  rw [Json.plainChar_iff]
  omega

theorem plainChar_id {c : Char} (h : isIdChar c) : plainChar c := by
  unfold isIdChar at h
  rw [Bool.or_eq_true, Bool.or_eq_true] at h
  rcases h with (h | h) | h
  · unfold isAsciiLowercase at h
    rw [Bool.and_eq_true, decide_eq_true_eq, decide_eq_true_eq] at h
    exact plainChar_lowercase h.1 h.2
  · exact plainChar_digit h
  · unfold isSeparator at h
    rw [Bool.or_eq_true, Bool.or_eq_true, beq_iff_eq, beq_iff_eq, beq_iff_eq] at h
    rcases h with (rfl | rfl) | rfl
    all_goals decide

theorem plainString_localId {value : String} (h : isLocalId value) : plainString value := by
  unfold isLocalId at h
  simp only [Bool.and_eq_true] at h
  unfold plainString
  rw [List.all_eq_true] at h ⊢
  exact fun c hc => plainChar_id (h.1.1.2 c hc)

theorem plainString_portableId {value : String} (h : isValidPortableId value) :
    plainString value := by
  unfold isValidPortableId at h
  simp only [Bool.and_eq_true] at h
  unfold plainString
  have hhead := h.1.1.1.2
  have htail := h.1.1.2
  rw [List.all_eq_true] at htail ⊢
  cases hvalue : value.toList with
  | nil => simp
  | cons first rest =>
      rw [hvalue] at hhead htail
      intro c hc
      rcases List.mem_cons.1 hc with rfl | hc
      · apply plainChar_id
        unfold isIdChar
        rw [Bool.or_eq_true, Bool.or_eq_true]
        exact Or.inl (Or.inl hhead)
      · exact plainChar_id (htail c hc)

theorem plainString_digest {value : String} (h : isValidSha256Digest value) :
    plainString value := by
  unfold isValidSha256Digest at h
  simp only [Bool.and_eq_true] at h
  obtain ⟨rest, hrest⟩ := List.isPrefixOf_iff_prefix.1 h.1.1
  have hdigits := h.2
  unfold plainString
  rw [← hrest] at hdigits ⊢
  rw [List.all_append, Bool.and_eq_true]
  refine ⟨by decide, ?_⟩
  rw [List.drop_left' (by rfl), List.all_eq_true] at hdigits
  rw [List.all_eq_true]
  intro c hc
  have hdigit := hdigits c hc
  rw [Bool.or_eq_true, Bool.and_eq_true, decide_eq_true_eq, decide_eq_true_eq] at hdigit
  rcases hdigit with hdigit | ⟨hlow, hhigh⟩
  · exact plainChar_digit hdigit
  · exact plainChar_lowercase hlow (le_trans hhigh (by decide))

/-! ## Members -/

theorem readMembers_ok {known : List String} {members slots : List (String × Json)}
    (hknown : ∀ m ∈ members, m.1 ∈ known) (hnodup : ((slots ++ members).map Prod.fst).Nodup) :
    readMembers known slots members = .ok (slots ++ members) := by
  induction members generalizing slots with
  | nil => rw [List.append_nil]; rfl
  | cons member members ih =>
      have hnew : member.1 ∉ slots.map Prod.fst := by
        rw [List.map_append, List.map_cons, List.nodup_append] at hnodup
        intro hmem
        exact hnodup.2.2 _ hmem _ List.mem_cons_self rfl
      have hpass : reject (!known.contains member.1 || (slots.map Prod.fst).contains member.1)
          authorityError = .ok () := by
        rw [reject_ok, Bool.or_eq_false_iff]
        exact ⟨by simpa using hknown member List.mem_cons_self, by simpa using hnew⟩
      rw [readMembers, hpass]
      show readMembers known (slots ++ [member]) members = _
      rw [ih (fun m hm => hknown m (List.mem_cons_of_mem _ hm)) (by simpa using hnodup)]
      simp

/-- An object of all members is read into their slots. -/
theorem visitMap_ok {known : List String} {members : List (String × Json)}
    (hnames : members.map Prod.fst = known) (hnodup : known.Nodup) :
    visitMap known (.object members) = .ok members := by
  have hread : readMembers known [] members = .ok ([] ++ members) :=
    readMembers_ok (fun m hm => hnames ▸ List.mem_map_of_mem hm)
      (by rw [List.nil_append, hnames]; exact hnodup)
  exact hread

/-! ## Secrets -/

variable {codecs : Codecs}

theorem textLength_cases (length : Nat) :
    length = length / 3 * 3 ∧ Base64.textLength length = length / 3 * 4 ∨
    length = length / 3 * 3 + 1 ∧ Base64.textLength length = length / 3 * 4 + 2 ∨
    length = length / 3 * 3 + 2 ∧ Base64.textLength length = length / 3 * 4 + 3 := by
  unfold Base64.textLength
  split
  · omega
  · omega

theorem decodedCapacity_textLength (length : Nat) :
    decodedCapacity (Base64.textLength length) = some length := by
  unfold decodedCapacity
  rcases textLength_cases length with ⟨hlength, htext⟩ | ⟨hlength, htext⟩ | ⟨hlength, htext⟩
  · rw [show Base64.textLength length % 4 = 0 by omega]
    show some _ = _
    rw [Option.some.injEq]
    omega
  · rw [show Base64.textLength length % 4 = 2 by omega]
    show some _ = _
    rw [Option.some.injEq]
    omega
  · rw [show Base64.textLength length % 4 = 3 by omega]
    show some _ = _
    rw [Option.some.injEq]
    omega

theorem secretText_ok (hlawful : codecs.Lawful) (secret : Secret) :
    secretText codecs secret = .ok (codecs.encode secret.bytes) := by
  unfold secretText
  exact if_pos (hlawful.encode_length _)

theorem decodeSecret_encode (hlawful : codecs.Lawful) (secret : Secret) :
    decodeSecret codecs (codecs.encode secret.bytes) = .ok secret := by
  have hnonempty := secret.nonempty
  have hbounded : secret.bytes.length ≤ 8192 := secret.bounded
  have hpass : reject ((codecs.encode secret.bytes).utf8ByteSize == 0 ||
      decide (MAX_ENCODED_SECRET_BYTES < (codecs.encode secret.bytes).utf8ByteSize))
      authorityError = .ok () := by
    rw [reject_ok, Bool.or_eq_false_iff, beq_eq_false_iff_ne, decide_eq_false_iff_not,
      hlawful.encode_length, MAX_ENCODED_SECRET_BYTES]
    have hcases := textLength_cases secret.bytes.length
    omega
  have hsame : reject (secret.bytes.length != secret.bytes.length) authorityError = .ok () := by
    rw [reject_ok, bne_self_eq_false]
  unfold decodeSecret
  rw [hpass, hlawful.decode_encode, hlawful.encode_length, decodedCapacity_textLength]
  show (reject (secret.bytes.length != secret.bytes.length) authorityError >>= fun _ =>
    Secret.fromInput secret.bytes) = _
  rw [hsame]
  show Secret.fromInput secret.bytes = .ok secret
  unfold Secret.fromInput
  rw [dif_pos ⟨secret.nonempty, secret.bounded⟩]

theorem secretTree_reads (hlawful : codecs.Lawful) (secret : Option Secret) :
    ∃ tree, secretTree codecs secret = .ok tree ∧ optionalSecret codecs tree = .ok secret ∧
      tree.plain 0 := by
  cases secret with
  | none => exact ⟨.null, rfl, rfl, rfl⟩
  | some secret =>
      refine ⟨.string (codecs.encode secret.bytes), ?_, ?_, hlawful.encode_plain _⟩
      · show (secretText codecs secret).map Json.string = _
        rw [secretText_ok hlawful]
        rfl
      · show (decodeSecret codecs (codecs.encode secret.bytes)).map some = _
        rw [decodeSecret_encode hlawful]
        rfl

/-! ## Documents -/

theorem credentialVersion_new (version : CredentialVersion) :
    CredentialVersion.new version.value = .ok version := by
  unfold CredentialVersion.new
  rw [dif_pos ⟨version.atLeast, version.atMost⟩]

theorem credentialState_text (state : CredentialState) :
    credentialState (.string (stateText state)) = .ok state := by
  cases state with
  | Active => rfl
  | Revoked => rfl

theorem consumerFamily_sortKey (family : ConsumerFamily) :
    consumerFamily (.string family.sortKey) = .ok family := by
  cases family with
  | Providers => rfl
  | Web => rfl
  | Usage => rfl

theorem natural_plain {value : Nat} (h : value ≤ MAX_SIGNED) (depth : Nat) :
    (Json.natural value).plain depth := by
  have hlt : value < 2 ^ 64 := Nat.lt_of_le_of_lt h (by decide)
  rw [Json.plain, decide_eq_true_eq]
  exact hlt

theorem credentialTree_reads (hlawful : codecs.Lawful) {credential : Credential}
    (hformed : WellFormed credential) :
    ∃ tree, credentialTree codecs credential = .ok tree ∧
      readCredential codecs tree = .ok credential ∧ tree.plain 1 := by
  obtain ⟨secret, hwrite, hread, hplain⟩ := secretTree_reads hlawful credential.secretBase64Url
  have hslots : visitMap credentialFields (.object (credentialMembers credential secret)) =
      .ok (credentialMembers credential secret) := visitMap_ok (by rfl) (by decide)
  refine ⟨.object (credentialMembers credential secret), ?_, ?_, ?_⟩
  · unfold credentialTree
    rw [hwrite]
    rfl
  · have hversion := credentialVersion_new credential.credentialVersion
    have hstate := credentialState_text credential.state
    simp only [readCredential, bind_ok, required]
    exact ⟨_, hslots, _, ⟨_, rfl, rfl⟩, _, ⟨_, rfl, rfl⟩, _, ⟨_, rfl, rfl⟩, _, ⟨_, rfl, rfl⟩, _,
      ⟨_, ⟨_, rfl, rfl⟩, hversion⟩, _, ⟨_, rfl, hstate⟩, _, ⟨_, rfl, hread⟩, rfl⟩
  · have hstate : (Json.string (stateText credential.state)).plain 0 := by
      cases credential.state with
      | Active => decide
      | Revoked => decide
    rw [Json.plain]
    simp only [credentialMembers, List.all_cons, List.all_nil, Bool.and_true, Bool.and_eq_true]
    exact ⟨⟨by decide, plainString_localId hformed.serviceId⟩,
      ⟨by decide, plainString_localId hformed.accountId⟩,
      ⟨by decide, plainString_localId hformed.issuerId⟩,
      ⟨by decide, plainString_localId hformed.authSchemaId⟩,
      ⟨by decide, natural_plain credential.credentialVersion.atMost 0⟩,
      ⟨by decide, hstate⟩, ⟨by decide, hplain⟩⟩

theorem grantTree_reads {grant : Grant} (hgrant : validateGrant grant = .ok ()) :
    readGrant (grantTree grant) = .ok grant ∧ (grantTree grant).plain 1 := by
  have hslots : visitMap grantFields (grantTree grant) = .ok (grantMembers grant) :=
    visitMap_ok (by rfl) (by decide)
  obtain ⟨hcoordinates, hservice, haccount, hdigest⟩ := validateGrant_ok.1 hgrant
  unfold validateGrantCoordinates at hcoordinates
  rw [bind_unit_ok, reject_ok, reject_ok, Bool.not_eq_false', Bool.or_eq_false_iff,
    bne_eq_false_iff_eq, Bool.not_eq_false'] at hcoordinates
  obtain ⟨hoperation, hmanager, hpack⟩ := hcoordinates
  constructor
  · have hfamily := consumerFamily_sortKey grant.consumerFamily
    simp only [readGrant, bind_ok, required]
    exact ⟨_, hslots, _, ⟨_, rfl, hfamily⟩, _, ⟨_, rfl, rfl⟩, _, ⟨_, rfl, rfl⟩, _, ⟨_, rfl, rfl⟩,
      _, ⟨_, rfl, rfl⟩, _, ⟨_, rfl, rfl⟩, _, ⟨_, rfl, rfl⟩, rfl⟩
  · have hnames : (Json.string grant.consumerFamily.sortKey).plain 0 ∧
        (Json.string grant.managerId).plain 0 := by
      rw [hmanager]
      cases grant.consumerFamily with
      | Providers => decide
      | Web => decide
      | Usage => decide
    unfold grantTree
    rw [Json.plain]
    simp only [grantMembers, List.all_cons, List.all_nil, Bool.and_true, Bool.and_eq_true]
    exact ⟨⟨by decide, hnames.1⟩, ⟨by decide, hnames.2⟩, ⟨by decide, plainString_portableId hpack⟩,
      ⟨by decide, plainString_localId hoperation⟩, ⟨by decide, plainString_localId hservice⟩,
      ⟨by decide, plainString_localId haccount⟩, ⟨by decide, plainString_digest hdigest⟩⟩

/-- The credentials that are written are read back. -/
theorem credentials_read (hlawful : codecs.Lawful) {credentials : List Credential}
    (hformed : ∀ c ∈ credentials, WellFormed c) :
    ∃ trees, credentials.mapM (credentialTree codecs) = .ok trees ∧
      trees.mapM (readCredential codecs) = .ok credentials ∧
      ∀ tree ∈ trees, tree.plain 1 := by
  induction credentials with
  | nil => exact ⟨[], rfl, rfl, by simp⟩
  | cons credential credentials ih =>
      obtain ⟨tree, hwrite, hread, hplain⟩ :=
        credentialTree_reads hlawful (hformed credential List.mem_cons_self)
      obtain ⟨trees, hwrites, hreads, hplains⟩ :=
        ih fun c hc => hformed c (List.mem_cons_of_mem _ hc)
      refine ⟨tree :: trees, ?_, ?_, ?_⟩
      · rw [List.mapM_cons, hwrite, hwrites]
        rfl
      · rw [List.mapM_cons, hread, hreads]
        rfl
      · intro other hother
        rcases List.mem_cons.1 hother with rfl | hother
        · exact hplain
        · exact hplains other hother

theorem grants_read {grants : List Grant} (hgrants : ∀ g ∈ grants, validateGrant g = .ok ()) :
    (grants.map grantTree).mapM readGrant = .ok grants := by
  induction grants with
  | nil => rfl
  | cons grant grants ih =>
      rw [List.map_cons, List.mapM_cons, (grantTree_reads (hgrants grant List.mem_cons_self)).1,
        ih fun g hg => hgrants g (List.mem_cons_of_mem _ hg)]
      rfl

/-- A valid document is written as a plain tree that is read as the document. -/
theorem documentTree_reads (hlawful : codecs.Lawful) {document : VaultDocument}
    (hvalid : Valid document) :
    ∃ tree, documentTree codecs document = .ok tree ∧
      readDocument codecs tree = .ok document ∧ tree.plain SERDE_DEPTH := by
  obtain ⟨trees, hwrites, hreads, hplains⟩ := credentials_read hlawful hvalid.formed
  have hgrants := grants_read fun g hg => (hvalid.granted g hg).1
  have hslots : visitMap documentFields (.object (documentMembers document trees)) =
      .ok (documentMembers document trees) := visitMap_ok (by rfl) (by decide)
  have hversion : reject (decide (2 ^ 32 ≤ document.formatVersion)) authorityError = .ok () := by
    rw [hvalid.format]
    rfl
  refine ⟨.object (documentMembers document trees), ?_, ?_, ?_⟩
  · unfold documentTree
    rw [hwrites]
    rfl
  · simp only [readDocument, bind_ok, required]
    exact ⟨_, hslots, _, ⟨_, rfl, rfl⟩, (), hversion, _, ⟨_, rfl, rfl⟩, _, ⟨_, rfl, rfl⟩, _,
      ⟨_, rfl, hreads⟩, _, ⟨_, rfl, hgrants⟩, rfl⟩
  · have hcredentials : (Json.array trees).plain 126 := by
      show trees.all (Json.plain 125) = true
      rw [List.all_eq_true]
      exact fun tree htree => Json.plain_mono (by decide) (hplains tree htree)
    have hgrantTrees : (Json.array (document.grants.map grantTree)).plain 126 := by
      show (document.grants.map grantTree).all (Json.plain 125) = true
      rw [List.all_eq_true]
      intro tree htree
      obtain ⟨grant, hgrant, rfl⟩ := List.mem_map.1 htree
      exact Json.plain_mono (by decide) (grantTree_reads (hvalid.granted grant hgrant).1).2
    show (documentMembers document trees).all (fun m => plainString m.1 && m.2.plain 126) = true
    simp only [documentMembers, List.all_cons, List.all_nil, Bool.and_true, Bool.and_eq_true]
    refine ⟨⟨by decide, ?_⟩, ⟨by decide, ?_⟩, ⟨by decide, natural_plain hvalid.revision 126⟩,
      ⟨by decide, hcredentials⟩, ⟨by decide, hgrantTrees⟩⟩
    · rw [hvalid.format]
      rfl
    · rw [hvalid.kind]
      rfl

/-- The text of a valid document fits, and has no backslash. -/
theorem serializeDocument_ok (hlawful : codecs.Lawful) {document : VaultDocument}
    (hvalid : Valid document) {bytes : FileBytes}
    (h : serializeDocument codecs document = .ok bytes) :
    ∃ text, bytes = .utf8 text ∧ bytes.len ≤ MAX_HOST_VAULT_BYTES ∧ '\\' ∉ text.toList ∧
      codecs.read text >>= readDocument codecs = .ok document := by
  obtain ⟨tree, hwrite, hread, hplain⟩ := documentTree_reads hlawful hvalid
  unfold serializeDocument at h
  rw [hwrite, bind_ok] at h
  obtain ⟨same, hsame, h⟩ := h
  cases hsame
  rw [bind_unit_ok, reject_ok, decide_eq_false_iff_not] at h
  obtain ⟨hfits, hbytes⟩ := h
  refine ⟨codecs.write tree ++ "\n", (Except.ok.inj hbytes).symm, ?_, ?_, ?_⟩
  · rw [← Except.ok.inj hbytes]
    show (codecs.write tree ++ "\n").utf8ByteSize ≤ _
    rw [String.utf8ByteSize_append]
    have hnewline : "\n".utf8ByteSize = 1 := rfl
    unfold MAX_HOST_VAULT_BYTES at hfits ⊢
    omega
  · rw [String.toList_append]
    intro hmem
    rcases List.mem_append.1 hmem with hmem | hmem
    · exact hlawful.unescaped tree hplain hmem
    · exact absurd hmem (by decide)
  · rw [bind_ok]
    exact ⟨tree, hlawful.read_write tree hplain, hread⟩

/-- What is stored is read back, if it is a valid document. -/
theorem parseVault_serialized (hlawful : codecs.Lawful) {document : VaultDocument}
    (hvalid : Valid document) {bytes : FileBytes}
    (h : serializeDocument codecs document = .ok bytes) :
    parseVault codecs bytes = .ok document ∧ bytes.len ≤ MAX_HOST_VAULT_BYTES := by
  obtain ⟨text, rfl, hlen, hplain, hread⟩ := serializeDocument_ok hlawful hvalid h
  refine ⟨?_, hlen⟩
  have hslash : reject (text.toList.contains '\\') authorityError = .ok () := by
    rw [reject_ok, ← Bool.not_eq_true, List.contains_iff_mem]
    exact hplain
  unfold parseVault
  simp only [bind_ok]
  exact ⟨(), hslash, document, bind_ok.1 hread, (), validateDocument_iff.2 hvalid, rfl⟩

/-- Nothing that the vault writes is refused or changed by its own parser. -/
theorem serialized_document_returns (codecs : Codecs) (hlawful : codecs.Lawful)
    (document : VaultDocument) (hvalid : validateDocument document = .ok ()) (bytes : FileBytes)
    (h : serializeDocument codecs document = .ok bytes) :
    bytes.len ≤ 1024 * 1024 ∧ (∃ text, bytes = .utf8 text ∧ '\\' ∉ text.toList) ∧
      parseVault codecs bytes = .ok document := by
  have hvalid := validateDocument_iff.1 hvalid
  obtain ⟨text, hbytes, hlen, hplain, -⟩ := serializeDocument_ok hlawful hvalid h
  exact ⟨hlen, ⟨text, hbytes, hplain⟩, (parseVault_serialized hlawful hvalid h).1⟩

/-! ## Codecs that are lawful -/

/-- Compact text without white space, and Base64 that is safe in URLs. -/
def compactCodecs : Codecs where
  write tree := String.ofList (Json.compact SERDE_DEPTH tree)
  read text :=
    match Json.read SERDE_DEPTH text.toList with
    | some tree => .ok tree
    | none => .error .InvalidJson
  encode bytes := String.ofList (Base64.encode Base64.urlSafe bytes)
  decode text := Base64.decode Base64.urlSafe text.toList

theorem urlSafe_plain : ∀ i, plainChar (Base64.urlSafe.char i) := by decide +kernel

theorem encode_plain (bytes : List UInt8) :
    plainString (String.ofList (Base64.encode Base64.urlSafe bytes)) := by
  unfold plainString Base64.encode
  rw [String.toList_ofList, List.all_map, List.all_eq_true]
  exact fun i _ => urlSafe_plain i

theorem utf8ByteSize_plain {chars : List Char} (h : chars.all plainChar) :
    (String.ofList chars).utf8ByteSize = chars.length := by
  induction chars with
  | nil => rfl
  | cons c chars ih =>
      rw [List.all_cons, Bool.and_eq_true] at h
      have hsize : c.utf8Size = 1 := by
        have hrange := Json.plainChar_iff.1 h.1
        rw [Char.utf8Size_eq_one_iff]
        show c.toNat ≤ 127
        omega
      have happend : String.ofList (c :: chars) = String.singleton c ++ String.ofList chars := by
        rw [← String.toList_inj]
        simp
      rw [happend, String.utf8ByteSize_append, String.utf8ByteSize_singleton, hsize, ih h.2,
        List.length_cons]
      omega

theorem compactCodecs_lawful : compactCodecs.Lawful where
  read_write tree h := by
    have hread : Json.read SERDE_DEPTH (Json.compact SERDE_DEPTH tree ++ ['\n']) = some tree :=
      Json.read_compact h (by decide)
    show (match Json.read SERDE_DEPTH (String.ofList (Json.compact SERDE_DEPTH tree) ++ "\n").toList
      with
      | some tree => Except.ok tree
      | none => .error ConfigErrorKind.InvalidJson) = _
    rw [String.toList_append, String.toList_ofList]
    show (match Json.read SERDE_DEPTH (Json.compact SERDE_DEPTH tree ++ ['\n']) with
      | some tree => Except.ok tree
      | none => .error ConfigErrorKind.InvalidJson) = _
    rw [hread]
  unescaped tree h := by
    show '\\' ∉ (String.ofList (Json.compact SERDE_DEPTH tree)).toList
    rw [String.toList_ofList]
    exact Json.compact_unescaped h
  decode_encode bytes := by
    show Base64.decode Base64.urlSafe (String.ofList _).toList = _
    rw [String.toList_ofList]
    exact Base64.decode_encode _ _
  encode_length bytes := by
    show (String.ofList (Base64.encode Base64.urlSafe bytes)).utf8ByteSize = _
    have hplain := encode_plain bytes
    unfold plainString at hplain
    rw [String.toList_ofList] at hplain
    rw [utf8ByteSize_plain hplain, Base64.encode_length]
  encode_plain := encode_plain

/-- A credential with a secret of four bytes, and a grant of it. -/
def sharedDocument : VaultDocument where
  formatVersion := 1
  kind := HOST_VAULT_KIND
  revision := 7
  credentials :=
    [{ serviceId := "service", accountId := "account", issuerId := "issuer",
       authSchemaId := "schema", credentialVersion := ⟨2, by decide, by decide⟩, state := .Active,
       secretBase64Url := some ⟨[1, 2, 250, 255], by decide, by decide⟩ }]
  grants :=
    [{ consumerFamily := .Providers, managerId := pluginId ConsumerFamily.Providers.pluginFamily, packId := "com.example.pack",
       operationId := "complete", serviceId := "service", accountId := "account",
       authorityDigest :=
         "sha256:0000000000000000000000000000000000000000000000000000000000000000" }]

theorem serialized_document_returns_shared :
    ∃ bytes, serializeDocument compactCodecs sharedDocument = .ok bytes ∧
      parseVault compactCodecs bytes = .ok sharedDocument := by
  obtain ⟨bytes, hbytes⟩ : ∃ bytes, serializeDocument compactCodecs sharedDocument = .ok bytes :=
    MCode.Lib.Results.isOk_true.1 (by decide +kernel)
  have hreturns := serialized_document_returns compactCodecs compactCodecs_lawful sharedDocument
    (by decide +kernel) bytes hbytes
  exact ⟨bytes, hbytes, hreturns.2.2⟩

end MCode.Vault
