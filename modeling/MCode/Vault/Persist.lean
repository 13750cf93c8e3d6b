import MCode.Vault.History
import MCode.Vault.RoundTrip

/-!
# Persisted commands

`persist_command` in `host_vault/reducer.rs`: under the vault lock it reads the
file, applies one command to the document, checks and writes the result.  The
lock puts the calls of all clients in one order, so the calls of a run are a
list; each has its own command, with the revision that its client last saw, and
its own faults of the file system.

A replacement is published as a whole or not at all; where `replace` reports an
error, the file is what it was.
-/

namespace MCode.Vault

open MCode.Lib
open MCode.Lib.Results (bind_ok bind_unit_ok)

/-! ## The transaction -/

/-- The errors of the stages that the file system can fail in. -/
structure Faults where
  lock : Option ConfigErrorKind
  read : Option ConfigErrorKind
  replace : Option ConfigErrorKind

def stage : Option ConfigErrorKind → Except ConfigErrorKind Unit
  | some error => .error error
  | none => .ok ()

def compareOuter (present : Bool) (actual : VaultRevision) :
    ExpectedVaultState → Except ConfigErrorKind Unit
  | .Absent => reject present conflict
  | .Present expected => reject (!(present && actual == expected)) conflict

def compareExpected (present : Bool) (actual : VaultRevision) (command : VaultCommand) :
    Except ConfigErrorKind Unit :=
  match command.expected with
  | some expected => compareOuter present actual expected
  | none => reject present conflict

variable (codecs : Codecs)

/-- The document that a command is applied to. -/
def loaded : Option FileBytes → Except ConfigErrorKind VaultDocument
  | some bytes => parseVault codecs bytes
  | none => .ok emptyDocument

/-- The closure of `persist_command`: the replacement of the file, and what the
command answers. -/
def replacement (current : Option FileBytes) (command : VaultCommand) :
    Except ConfigErrorKind (FileBytes × MutationResult) := do
  let document ← loaded codecs current
  compareExpected current.isSome ⟨document.revision⟩ command
  reject (current.isNone && !command.canCreate) conflict
  let (answer, changed) := applyCommand command document
  let applied ← answer
  validateDocument changed
  let bytes ← serializeDocument codecs changed
  pure (bytes, applied)

/-- `locked_update_secret_owned_file` with that closure. -/
def lockedUpdate (faults : Faults) (current : Option FileBytes) (command : VaultCommand) :
    Except ConfigErrorKind (FileBytes × MutationResult) := do
  stage faults.lock
  stage faults.read
  reject (current.any fun bytes => decide (MAX_HOST_VAULT_BYTES < bytes.len)) .Oversized
  let (bytes, applied) ← replacement codecs current command
  reject (decide (MAX_HOST_VAULT_BYTES < bytes.len)) .Oversized
  stage faults.replace
  pure (bytes, applied)

structure PersistCall where
  command : VaultCommand
  faults : Faults

def persistCommand (stored : Option FileBytes) (call : PersistCall) :
    Except ConfigErrorKind MutationResult × Option FileBytes :=
  match lockedUpdate codecs call.faults stored call.command with
  | .ok (bytes, applied) => (.ok applied, some bytes)
  | .error error => (.error error, stored)

/-! ## What a call does -/

/-- What a client sees of the file. -/
def Observes (stored : Option FileBytes) : ExpectedVaultState → Prop
  | .Absent => stored = none
  | .Present revision => ∃ bytes document, stored = some bytes ∧
      parseVault codecs bytes = .ok document ∧ document.revision = revision.value

variable {codecs}

theorem parseVault_valid {bytes : FileBytes} {document : VaultDocument}
    (h : parseVault codecs bytes = .ok document) : Valid document := by
  cases bytes with
  | other length => cases h
  | utf8 text =>
      unfold parseVault at h
      simp only [bind_unit_ok] at h
      obtain ⟨-, h⟩ := h
      rw [bind_ok] at h
      obtain ⟨same, -, h⟩ := h
      rw [bind_unit_ok] at h
      cases h.2
      exact validateDocument_iff.1 h.1

theorem loaded_valid {stored : Option FileBytes} {document : VaultDocument}
    (h : loaded codecs stored = .ok document) : Valid document := by
  cases stored with
  | none =>
      cases h
      exact emptyDocument_valid
  | some bytes => exact parseVault_valid h

theorem compareOuter_ok {stored : Option FileBytes} {document : VaultDocument}
    (hloaded : loaded codecs stored = .ok document) {expected : ExpectedVaultState}
    (h : compareOuter stored.isSome ⟨document.revision⟩ expected = .ok ()) :
    Observes codecs stored expected := by
  cases expected with
  | Absent =>
      unfold compareOuter at h
      rw [reject_ok, Option.isSome_eq_false_iff, Option.isNone_iff_eq_none] at h
      exact h
  | Present revision =>
      unfold compareOuter at h
      rw [reject_ok, Bool.not_eq_false', Bool.and_eq_true, beq_iff_eq] at h
      obtain ⟨bytes, rfl⟩ := Option.isSome_iff_exists.1 h.1
      exact ⟨bytes, document, rfl, hloaded, congrArg VaultRevision.value h.2⟩

theorem replacement_ok (hlawful : codecs.Lawful) {stored : Option FileBytes}
    {command : VaultCommand} {bytes : FileBytes} {result : MutationResult}
    (h : replacement codecs stored command = .ok (bytes, result)) :
    Observes codecs stored (command.expected.getD .Absent) ∧
      ∃ document document', loaded codecs stored = .ok document ∧
        applyCommand command document = (.ok result, document') ∧
        parseVault codecs bytes = .ok document' := by
  unfold replacement at h
  rw [bind_ok] at h
  obtain ⟨document, hloaded, h⟩ := h
  rw [bind_unit_ok] at h
  obtain ⟨houter, h⟩ := h
  rw [bind_unit_ok] at h
  obtain ⟨-, h⟩ := h
  cases happly : applyCommand command document with
  | mk answer changed =>
      rw [happly] at h
      dsimp only at h
      rw [bind_ok] at h
      obtain ⟨applied, rfl, h⟩ := h
      rw [bind_unit_ok, bind_ok] at h
      obtain ⟨-, written, hwritten, h⟩ := h
      cases h
      have hvalid := applyCommand_valid (loaded_valid hloaded) happly
      refine ⟨?_, document, changed, hloaded, happly, (parseVault_serialized hlawful hvalid hwritten).1⟩
      unfold compareExpected at houter
      cases hexpected : command.expected with
      | some expected =>
          rw [hexpected] at houter
          exact compareOuter_ok hloaded houter
      | none =>
          rw [hexpected] at houter
          dsimp only at houter
          rw [reject_ok, Option.isSome_eq_false_iff, Option.isNone_iff_eq_none] at houter
          exact houter

/-- A call that succeeds saw what it expected, and stores what its command made
of the document. -/
theorem persistCommand_ok (hlawful : codecs.Lawful) {stored stored' : Option FileBytes}
    {call : PersistCall} {result : MutationResult}
    (h : persistCommand codecs stored call = (.ok result, stored')) :
    Observes codecs stored (call.command.expected.getD .Absent) ∧
      ∃ document document', loaded codecs stored = .ok document ∧
        applyCommand call.command document = (.ok result, document') ∧
        stored'.isSome ∧ loaded codecs stored' = .ok document' := by
  unfold persistCommand at h
  split at h
  · rename_i bytes applied hupdate
    cases h
    unfold lockedUpdate at hupdate
    rw [bind_unit_ok, bind_unit_ok, bind_unit_ok, bind_ok] at hupdate
    obtain ⟨-, -, -, ⟨written, answer⟩, hreplacement, h⟩ := hupdate
    dsimp only at h
    rw [bind_unit_ok, bind_unit_ok] at h
    cases h.2.2
    obtain ⟨hobserves, document, document', hloaded, happly, hparse⟩ :=
      replacement_ok hlawful hreplacement
    exact ⟨hobserves, document, document', hloaded, happly, rfl, hparse⟩
  · cases h

/-- A call that fails leaves the file. -/
theorem persistCommand_error {stored stored' : Option FileBytes} {call : PersistCall}
    {error : ConfigErrorKind} (h : persistCommand codecs stored call = (.error error, stored')) :
    stored' = stored := by
  unfold persistCommand at h
  split at h
  · cases h
  · cases h
    rfl

/-! ## Runs -/

variable (codecs) in
/-- The file behind the calls. -/
def storedAfter (stored : Option FileBytes) (calls : List PersistCall) : Option FileBytes :=
  Mealy.after (persistCommand codecs) stored calls

/-- The commands that succeeded, in the order of the lock, with their answers. -/
def acknowledged (log : List (PersistCall × Except ConfigErrorKind MutationResult)) :
    List (VaultCommand × MutationResult) :=
  log.filterMap fun (call, answer) =>
    match answer with
    | .ok result => some (call.command, result)
    | .error _ => none

def VaultCommand.expects (command : VaultCommand) : ExpectedVaultState :=
  command.expected.getD .Absent

/-- Absence comes before every revision. -/
def ExpectedVaultState.rank : ExpectedVaultState → Nat
  | .Absent => 0
  | .Present revision => revision.value + 1

theorem Observes.unique {stored : Option FileBytes} {first second : ExpectedVaultState}
    (h : Observes codecs stored first) (h' : Observes codecs stored second) : first = second := by
  cases first with
  | Absent =>
      cases second with
      | Absent => rfl
      | Present revision =>
          obtain ⟨bytes, document, hsome, -⟩ := h'
          rw [show stored = none from h] at hsome
          cases hsome
  | Present revision =>
      obtain ⟨bytes, document, rfl, hparse, hrevision⟩ := h
      cases second with
      | Absent => cases h'
      | Present other =>
          obtain ⟨same, document', hsame, hparse', hrevision'⟩ := h'
          cases hsame
          rw [hparse] at hparse'
          cases hparse'
          rw [show revision = other from congrArg VaultRevision.mk (hrevision.symm.trans hrevision')]

/-- A success moves the file forward. -/
theorem persistCommand_rises (hlawful : codecs.Lawful) {stored stored' : Option FileBytes}
    {call : PersistCall} {result : MutationResult}
    (h : persistCommand codecs stored call = (.ok result, stored')) :
    ∃ later, Observes codecs stored' later ∧ call.command.expects.rank < later.rank := by
  obtain ⟨hobserves, document, document', hloaded, happly, hsome, hloaded'⟩ :=
    persistCommand_ok hlawful h
  obtain ⟨bytes, rfl⟩ := Option.isSome_iff_exists.1 hsome
  refine ⟨.Present ⟨document'.revision⟩, ⟨bytes, document', rfl, hloaded', rfl⟩, ?_⟩
  unfold VaultCommand.expects
  cases hexpected : call.command.expected.getD .Absent with
  | Absent => exact Nat.succ_pos _
  | Present revision =>
      rw [hexpected] at hobserves
      obtain ⟨same, held, rfl, hparse, hrevision⟩ := hobserves
      have hheld : held = document := Except.ok.inj (hparse.symm.trans hloaded)
      rcases applyCommand_ok (loaded_valid hloaded) happly with ⟨hempty, -⟩ | hmutates
      · rw [hempty] at hexpected
        cases hexpected
      · obtain ⟨-, -, credentials, grants, -, rfl⟩ := hmutates
        show revision.value + 1 < document.revision + 1 + 1
        rw [← hrevision, hheld]
        exact Nat.lt_succ_self _

/-- No call moves the file back. -/
theorem storedAfter_rises (hlawful : codecs.Lawful) {stored : Option FileBytes}
    {state : ExpectedVaultState} (h : Observes codecs stored state) (calls : List PersistCall) :
    ∃ later, Observes codecs (storedAfter codecs stored calls) later ∧ state.rank ≤ later.rank := by
  induction calls generalizing stored state with
  | nil => exact ⟨state, h, le_refl _⟩
  | cons call calls ih =>
      show ∃ later, Observes codecs (storedAfter codecs (persistCommand codecs stored call).2 calls)
        later ∧ _
      cases hstep : persistCommand codecs stored call with
      | mk answer stored' =>
          cases answer with
          | error error =>
              rw [persistCommand_error hstep]
              exact ih h
          | ok result =>
              obtain ⟨next, hnext, hlt⟩ := persistCommand_rises hlawful hstep
              have hstate := h.unique (persistCommand_ok hlawful hstep).1
              obtain ⟨later, hlater, hle⟩ := ih hnext
              rw [hstate]
              exact ⟨later, hlater, (Nat.le_of_lt hlt).trans hle⟩

theorem acknowledged_error (log : List (PersistCall × Except ConfigErrorKind MutationResult))
    (call : PersistCall) (error : ConfigErrorKind) :
    acknowledged (log ++ [(call, .error error)]) = acknowledged log := by
  unfold acknowledged
  rw [List.filterMap_append]
  exact List.append_nil _

theorem acknowledged_ok (log : List (PersistCall × Except ConfigErrorKind MutationResult))
    (call : PersistCall) (result : MutationResult) :
    acknowledged (log ++ [(call, .ok result)]) = acknowledged log ++ [(call.command, result)] := by
  unfold acknowledged
  rw [List.filterMap_append]
  rfl

/-- The file follows the commands that succeeded, as the vault in memory does. -/
def Follows (codecs : Codecs) (stored : Option FileBytes)
    (log : List (PersistCall × Except ConfigErrorKind MutationResult))
    (current : Option FileBytes) : Prop :=
  (acknowledged log = [] → current = stored) ∧
  (∀ error, loaded codecs stored = .error error → acknowledged log = []) ∧
  ∀ document, loaded codecs stored = .ok document →
    loaded codecs current =
        .ok (Mealy.after vaultStep document ((acknowledged log).map Prod.fst)) ∧
      Mealy.log vaultStep document ((acknowledged log).map Prod.fst) =
        (acknowledged log).map fun success => (success.1, .ok success.2)

theorem Follows.step (hlawful : codecs.Lawful) {stored current : Option FileBytes}
    {log : List (PersistCall × Except ConfigErrorKind MutationResult)}
    (h : Follows codecs stored log current) (call : PersistCall) :
    Follows codecs stored (log ++ [(call, (persistCommand codecs current call).1)])
      (persistCommand codecs current call).2 := by
  obtain ⟨hnone, herror, hfollows⟩ := h
  cases hstep : persistCommand codecs current call with
  | mk answer next =>
      cases answer with
      | error error =>
          rw [persistCommand_error hstep]
          unfold Follows
          rw [acknowledged_error]
          exact ⟨hnone, herror, hfollows⟩
      | ok result =>
          obtain ⟨-, document, document', hloaded, happly, -, hloaded'⟩ :=
            persistCommand_ok hlawful hstep
          unfold Follows
          rw [acknowledged_ok]
          refine ⟨?_, ?_, ?_⟩
          · intro hempty
            simp at hempty
          · -- a file that cannot be read is left as it is
            intro error hunreadable
            rw [hnone (herror error hunreadable), hunreadable] at hloaded
            cases hloaded
          · intro first hfirst
            obtain ⟨hcurrent, hlog⟩ := hfollows first hfirst
            rw [hloaded] at hcurrent
            have hdocument := Except.ok.inj hcurrent
            have hvault : vaultStep document call.command = (.ok result, document') := happly
            rw [List.map_append, Mealy.after_append, Mealy.log_append, ← hdocument, hlog,
              List.map_append]
            constructor
            · show _ = Except.ok (vaultStep document call.command).2
              rw [hvault, hloaded']
            · show _ ++ [(call.command, (vaultStep document call.command).1)] = _
              rw [hvault]
              rfl

theorem storedAfter_follows (hlawful : codecs.Lawful) (stored : Option FileBytes)
    (calls : List PersistCall) :
    Follows codecs stored (Mealy.log (persistCommand codecs) stored calls)
      (storedAfter codecs stored calls) := by
  apply Mealy.log_induction (I := fun log current => Follows codecs stored log current)
  · refine ⟨fun _ => rfl, fun _ _ => rfl, ?_⟩
    intro document hloaded
    exact ⟨hloaded, rfl⟩
  · intro log current call h
    exact h.step hlawful call

/-! ## Results -/

/-- A command that succeeds makes a valid document of a valid one, so the check
after it in `persist_command` always passes. -/
theorem applyCommand_keeps_valid :
    (∀ document document' command result, validateDocument document = .ok () →
      applyCommand command document = (.ok result, document') →
        validateDocument document' = .ok () ∧
        SortedTable.Sorted credentialKey document'.credentials ∧
        SortedTable.Sorted grantTuple document'.grants ∧
        (∀ g ∈ document'.grants, ∃! c, c ∈ document'.credentials ∧ c.state = .Active ∧
          c.serviceId = g.serviceId ∧ c.accountId = g.accountId) ∧
        activeCount document' ≤ 64 ∧ document'.credentials.length ≤ 320 ∧
        document'.grants.length ≤ 1024 ∧
        ∀ c ∈ document'.credentials, c.secretBase64Url.isSome ↔ c.state = .Active) ∧
    ∀ (codecs : Codecs) (current : Option FileBytes) document document' command result,
      loaded codecs current = .ok document →
        applyCommand command document = (.ok result, document') →
          validateDocument document' = .ok () := by
  constructor
  · intro document document' command result hvalidates happly
    have hvalid := applyCommand_valid (validateDocument_iff.1 hvalidates) happly
    refine ⟨validateDocument_iff.2 hvalid, hvalid.sorted, hvalid.grantsSorted, ?_, hvalid.active,
      hvalid.total, hvalid.grantTotal, fun c hc => (hvalid.formed c hc).secret⟩
    intro g hg
    obtain ⟨-, c, hc, hrefers⟩ := hvalid.consistent.granted g hg
    refine ⟨c, ⟨hc, hrefers⟩, ?_⟩
    intro other ⟨hother, hrefers'⟩
    have hsame : Refers g other := hrefers'
    exact hvalid.sorted.unique hother hc (hsame.key.trans hrefers.key.symm)
  · intro codecs current document document' command result hloaded happly
    exact validateDocument_iff.2 (applyCommand_valid (loaded_valid hloaded) happly)

theorem applyCommand_keeps_valid_first : validateDocument firstDocument = .ok () :=
  (applyCommand_keeps_valid.1 emptyDocument firstDocument insertFirst _ (by rfl) insertFirst_ok).1

end MCode.Vault
