import MCode.Lib.Mealy
import MCode.Vault.Changes

/-!
# The history of a vault

Runs of commands from the empty document, with those that fail among them.  A
failure changes nothing, because every command makes its checks first; a
success follows `Mutates`.  What a run does to one credential is `Succeeds`: it
stays as it is, or it was active and has a greater version now.
-/

namespace MCode.Vault

open MCode.Lib
open MCode.Lib.Reducer (Clean ReadOnly Total readOnly_get readOnly_check total_pure total_modify)
open MCode.Lib.SortedTable (sortBy_perm)

/-! ## Failures -/

theorem finishMutation_total (revision : VaultRevision) (version : Option CredentialVersion) :
    Total (finishMutation revision version) :=
  (total_modify _).bind fun _ => (total_modify _).bind fun _ => (total_modify _).bind fun _ =>
    total_pure _

/-- A command that fails has changed nothing. -/
theorem applyCommand_clean (command : VaultCommand) : Clean (applyCommand command) := by
  have hfinish := fun revision version => finishMutation_total revision version
  cases command with
  | InitializeEmpty => exact (total_pure _).clean
  | Insert expected descriptor secret approvals =>
      refine (readOnly_check _).bind fun _ => readOnly_get.bind fun document =>
        (readOnly_check _).bind fun _ => (readOnly_check _).bind fun _ =>
        (readOnly_check _).bind fun _ => (readOnly_check _).bind fun stored =>
        (readOnly_check _).bind fun _ => (readOnly_check _).bind fun _ =>
        (readOnly_check _).bind fun revision => Total.clean ?_
      exact (total_modify _).bind fun _ => (total_modify _).bind fun _ => hfinish _ _
  | Rotate expected serviceId accountId version secret =>
      refine readOnly_get.bind fun document => (readOnly_check _).bind fun index =>
        (readOnly_check _).bind fun stored => (readOnly_check _).bind fun credential =>
        (readOnly_check _).bind fun next => (readOnly_check _).bind fun revision => Total.clean ?_
      exact (total_modify _).bind fun _ => (total_modify _).bind fun _ => hfinish _ _
  | Revoke expected serviceId accountId version =>
      refine readOnly_get.bind fun document => (readOnly_check _).bind fun index =>
        (readOnly_check _).bind fun credential => (readOnly_check _).bind fun next =>
        (readOnly_check _).bind fun revision => Total.clean ?_
      exact (total_modify _).bind fun _ => (total_modify _).bind fun _ =>
        (total_modify _).bind fun _ => (total_modify _).bind fun _ => hfinish _ _
  | Bind expected approvals =>
      refine (readOnly_check _).bind fun _ => readOnly_get.bind fun document =>
        (readOnly_check _).bind fun _ => (readOnly_check _).bind fun _ =>
        (readOnly_check _).bind fun _ => (readOnly_check _).bind fun _ =>
        (readOnly_check _).bind fun revision => Total.clean ?_
      exact (total_modify _).bind fun _ => hfinish _ _
  | Rebind expected key old replacement digest =>
      refine readOnly_get.bind fun document => (readOnly_check _).bind fun index =>
        (readOnly_check _).bind fun _ => (readOnly_check _).bind fun _ =>
        (readOnly_check _).bind fun _ => (readOnly_check _).bind fun _ =>
        (readOnly_check _).bind fun revision => Total.clean ?_
      exact (total_modify _).bind fun _ => hfinish _ _
  | Unbind expected key old =>
      refine readOnly_get.bind fun document => (readOnly_check _).bind fun index =>
        (readOnly_check _).bind fun _ => (readOnly_check _).bind fun _ =>
        (readOnly_check _).bind fun revision => Total.clean ?_
      exact (total_modify _).bind fun _ => hfinish _ _

/-! ## One credential -/

/-- What commands can make of a credential. -/
def Succeeds (before after : Credential) : Prop :=
  after = before ∨
    (before.state = .Active ∧ after.serviceId = before.serviceId ∧
      after.accountId = before.accountId ∧ after.issuerId = before.issuerId ∧
      after.authSchemaId = before.authSchemaId ∧
      before.credentialVersion.value < after.credentialVersion.value)

theorem Succeeds.trans {first second third : Credential} (h : Succeeds first second)
    (h' : Succeeds second third) : Succeeds first third := by
  rcases h with rfl | ⟨hactive, hservice, haccount, hissuer, hschema, hlt⟩
  · exact h'
  · rcases h' with rfl | ⟨-, hservice', haccount', hissuer', hschema', hlt'⟩
    · exact Or.inr ⟨hactive, hservice, haccount, hissuer, hschema, hlt⟩
    · exact Or.inr ⟨hactive, hservice'.trans hservice, haccount'.trans haccount,
        hissuer'.trans hissuer, hschema'.trans hschema, hlt.trans hlt'⟩

theorem Succeeds.key {before after : Credential} (h : Succeeds before after) :
    credentialKey after = credentialKey before := by
  rcases h with rfl | ⟨-, hservice, haccount, -⟩
  · rfl
  · exact credentialKey_eq.2 ⟨hservice, haccount⟩

theorem Succeeds.revoked {before after : Credential} (h : Succeeds before after)
    (hrevoked : before.state = .Revoked) : after = before := by
  rcases h with rfl | ⟨hactive, -⟩
  · rfl
  · rw [hrevoked] at hactive
    cases hactive

theorem Succeeds.same {before after : Credential} (h : Succeeds before after)
    (hversion : after.credentialVersion.value ≤ before.credentialVersion.value) :
    after = before := by
  rcases h with rfl | ⟨-, -, -, -, -, hlt⟩
  · rfl
  · omega

/-- Every credential has a successor. -/
def Keeps (before after : List Credential) : Prop :=
  ∀ c ∈ before, ∃ c' ∈ after, Succeeds c c'

theorem Keeps.refl (credentials : List Credential) : Keeps credentials credentials :=
  fun c hc => ⟨c, hc, Or.inl rfl⟩

theorem Keeps.trans {first second third : List Credential} (h : Keeps first second)
    (h' : Keeps second third) : Keeps first third := by
  intro c hc
  obtain ⟨d, hd, hsucceeds⟩ := h c hc
  obtain ⟨e, he, hsucceeds'⟩ := h' d hd
  exact ⟨e, he, hsucceeds.trans hsucceeds'⟩

theorem keeps_set {credentials : List Credential} {i : Nat} {credential changed : Credential}
    (found : credentials[i]? = some credential) (h : Succeeds credential changed) :
    Keeps credentials (credentials.set i changed) := by
  intro c hc
  rcases SortedTable.mem_set_of_mem found hc with rfl | hc
  · exact ⟨changed, List.mem_set (List.getElem?_eq_some_iff.1 found).1 _, h⟩
  · exact ⟨c, hc, Or.inl rfl⟩

theorem Change.keeps {credentials credentials' : List Credential} {grants grants' : List Grant}
    (h : Change credentials grants credentials' grants') : Keeps credentials credentials' := by
  cases h with
  | insert formed active first absent activeRoom room grantRoom keys granted =>
      intro c hc
      exact ⟨c, List.mem_append_left _ hc, Or.inl rfl⟩
  | rotate found active next =>
      refine keeps_set found (Or.inr ⟨active, rfl, rfl, rfl, rfl, ?_⟩)
      dsimp only
      omega
  | revoke found active next =>
      refine keeps_set found (Or.inr ⟨active, rfl, rfl, rfl, rfl, ?_⟩)
      dsimp only
      omega
  | grants room keys granted => exact Keeps.refl credentials

theorem Mutates.keeps {document document' : VaultDocument} {result : MutationResult}
    (h : Mutates document result document') : Keeps document.credentials document'.credentials := by
  obtain ⟨-, -, credentials, grants, hchange, rfl⟩ := h
  intro c hc
  obtain ⟨c', hc', hsucceeds⟩ := hchange.keeps c hc
  exact ⟨c', (sortBy_perm _ _).mem_iff.2 hc', hsucceeds⟩

/-! ## Runs -/

/-- One command at a vault. -/
def vaultStep (document : VaultDocument) (command : VaultCommand) :
    Except ConfigErrorKind MutationResult × VaultDocument :=
  applyCommand command document

def vaultAfter (commands : List VaultCommand) : VaultDocument :=
  Mealy.after vaultStep emptyDocument commands

theorem vaultStep_kept {document : VaultDocument} (hvalid : Valid document)
    (command : VaultCommand) :
    Valid (vaultStep document command).2 ∧
      Keeps document.credentials (vaultStep document command).2.credentials := by
  cases hstep : vaultStep document command with
  | mk answer document' =>
      cases answer with
      | error e =>
          rw [applyCommand_clean command document e document' hstep]
          exact ⟨hvalid, Keeps.refl _⟩
      | ok result =>
          refine ⟨applyCommand_valid hvalid hstep, ?_⟩
          rcases applyCommand_ok hvalid hstep with ⟨-, rfl⟩ | hmutates
          · exact Keeps.refl _
          · exact hmutates.keeps

theorem emptyDocument_valid : Valid emptyDocument :=
  validateDocument_iff.1 rfl

theorem vaultAfter_valid (commands : List VaultCommand) : Valid (vaultAfter commands) :=
  Mealy.after_induction emptyDocument_valid
    (fun _ command hvalid => (vaultStep_kept hvalid command).1) commands

theorem vaultAfter_keeps (first second : List VaultCommand) :
    Keeps (vaultAfter first).credentials (vaultAfter (first ++ second)).credentials := by
  have hrun : Valid (Mealy.after vaultStep (vaultAfter first) second) ∧
      Keeps (vaultAfter first).credentials
        (Mealy.after vaultStep (vaultAfter first) second).credentials := by
    apply Mealy.after_induction
      (I := fun d => Valid d ∧ Keeps (vaultAfter first).credentials d.credentials)
    · exact ⟨vaultAfter_valid first, Keeps.refl _⟩
    · intro d command ⟨hvalid, hkeeps⟩
      obtain ⟨hvalid', hkeeps'⟩ := vaultStep_kept hvalid command
      exact ⟨hvalid', hkeeps.trans hkeeps'⟩
  unfold vaultAfter
  rw [Mealy.after_append]
  exact hrun.2

/-- A credential that is revoked has no grants. -/
theorem Valid.no_grant {document : VaultDocument} (hvalid : Valid document)
    {credential : Credential} (hmem : credential ∈ document.credentials)
    (hrevoked : credential.state = .Revoked) :
    ∀ g ∈ document.grants,
      ¬ (g.serviceId = credential.serviceId ∧ g.accountId = credential.accountId) := by
  intro g hg ⟨hservice, haccount⟩
  obtain ⟨-, c, hc, hactive, hservice', haccount'⟩ := hvalid.consistent.granted g hg
  have hkey : credentialKey c = credentialKey credential :=
    credentialKey_eq.2 ⟨hservice'.trans hservice, haccount'.trans haccount⟩
  rw [hvalid.sorted.unique hc hmem hkey, hrevoked] at hactive
  cases hactive

/-- The successor of a credential is the one with its key. -/
theorem vaultAfter_succeeds {first second : List VaultCommand} {c c' : Credential}
    (hc : c ∈ (vaultAfter first).credentials) (hc' : c' ∈ (vaultAfter (first ++ second)).credentials)
    (hkey : credentialKey c' = credentialKey c) : Succeeds c c' := by
  obtain ⟨d, hd, hsucceeds⟩ := vaultAfter_keeps first second c hc
  have hsame := (vaultAfter_valid (first ++ second)).sorted.unique hc' hd
    (hkey.trans hsucceeds.key.symm)
  rw [hsame]
  exact hsucceeds

/-! ## A vault with one credential -/

def webKey : GrantKey := ⟨.Web, "search", "web.search"⟩

def someDigest : Sha256Digest :=
  ⟨"sha256:0123456789abcdef0123456789abcdef0123456789abcdef0123456789abcdef", by decide⟩

def searchAccount : CredentialDescriptor := ⟨"search", "main", "issuer", "api-key"⟩

/-- The first credential, with one grant. -/
def insertFirst : VaultCommand :=
  .Insert .Absent searchAccount [115, 49] [⟨webKey, someDigest⟩]

def firstDocument : VaultDocument :=
  { emptyDocument with
    revision := 1
    credentials := [newCredential searchAccount ⟨[115, 49], by decide, by decide⟩]
    grants := [ownedGrant webKey "search" "main" someDigest] }

theorem insertFirst_ok :
    applyCommand insertFirst emptyDocument = (.ok ⟨⟨1⟩, some .FIRST⟩, firstDocument) := by
  decide +kernel

/-- A rotation of a version that the credential does not have. -/
def lateRotate : VaultCommand :=
  .Rotate (.Present ⟨1⟩) "search" "main" ⟨7, by decide, by decide⟩ [120]

/-! ## Results -/

/-- A command that fails leaves the document as it was. -/
theorem applyCommand_error {document document' : VaultDocument} {command : VaultCommand}
    {error : ConfigErrorKind} (h : applyCommand command document = (.error error, document')) :
    document' = document :=
  applyCommand_clean command document error document' h

theorem applyCommand_error_rotate : (applyCommand lateRotate firstDocument).2 = firstDocument := by
  have hconflict : (applyCommand lateRotate firstDocument).1 = .error .RevisionConflict := by
    decide +kernel
  exact applyCommand_error (Prod.ext hconflict rfl)

/-- The revision counts the successes of a run; what the run did to a
credential at any two of its points; and what a revoke leaves. -/
theorem vault_history (first second : List VaultCommand) :
    (∀ c ∈ (vaultAfter first).credentials, ∃ c' ∈ (vaultAfter (first ++ second)).credentials,
      c'.serviceId = c.serviceId ∧ c'.accountId = c.accountId) ∧
    (∀ c ∈ (vaultAfter first).credentials, ∀ c' ∈ (vaultAfter (first ++ second)).credentials,
      c'.serviceId = c.serviceId → c'.accountId = c.accountId →
        (c'.state ≠ c.state ∨ c'.secretBase64Url ≠ c.secretBase64Url →
          c.credentialVersion.value < c'.credentialVersion.value) ∧
        (c.state = .Revoked → c'.state = .Revoked ∧
          ∀ g ∈ (vaultAfter (first ++ second)).grants,
            ¬ (g.serviceId = c.serviceId ∧ g.accountId = c.accountId)) ∧
        (c.state = .Active → c'.state = .Active → c'.credentialVersion = c.credentialVersion →
          c'.secretBase64Url = c.secretBase64Url ∧ c'.issuerId = c.issuerId ∧
            c'.authSchemaId = c.authSchemaId)) ∧
    (∀ command answer document, command ≠ .InitializeEmpty →
      applyCommand command (vaultAfter first) = (answer, document) →
        document.revision = (vaultAfter first).revision + if answer.isOk then 1 else 0) ∧
    (∀ expected serviceId accountId version result document,
      applyCommand (.Revoke expected serviceId accountId version) (vaultAfter first) =
        (.ok result, document) →
        ∀ g ∈ document.grants, ¬ (g.serviceId = serviceId ∧ g.accountId = accountId)) := by
  have hvalid := vaultAfter_valid first
  refine ⟨?kept, ?changed, ?revision, ?revoke⟩
  case kept =>
    intro c hc
    obtain ⟨c', hc', hsucceeds⟩ := vaultAfter_keeps first second c hc
    exact ⟨c', hc', credentialKey_eq.1 hsucceeds.key⟩
  case changed =>
    intro c hc c' hc' hservice haccount
    have hsucceeds := vaultAfter_succeeds hc hc' (credentialKey_eq.2 ⟨hservice, haccount⟩)
    refine ⟨?version, ?revoked, ?active⟩
    case version =>
      intro hdiffers
      by_contra hle
      rw [hsucceeds.same (Nat.not_lt.1 hle)] at hdiffers
      rcases hdiffers with h | h
      · exact h rfl
      · exact h rfl
    case revoked =>
      intro hrevoked
      have hsame := hsucceeds.revoked hrevoked
      rw [hsame] at hc'
      rw [hsame]
      exact ⟨hrevoked, (vaultAfter_valid (first ++ second)).no_grant hc' hrevoked⟩
    case active =>
      intro _ _ hversion
      rw [hsucceeds.same (by rw [hversion])]
      exact ⟨rfl, rfl, rfl⟩
  case revision =>
    intro command answer document hcommand h
    cases answer with
    | error e =>
        rw [applyCommand_clean command _ e document h]
        rfl
    | ok result =>
        rcases applyCommand_ok hvalid h with ⟨hempty, -⟩ | ⟨-, -, credentials, grants, -, rfl⟩
        · exact absurd hempty hcommand
        · rfl
  case revoke =>
    intro expected serviceId accountId version result document h
    have hvalid' := applyCommand_valid hvalid h
    obtain ⟨-, c, hc, hrevoked, rfl, rfl⟩ := revoke_ok h
    exact hvalid'.no_grant hc hrevoked

end MCode.Vault
