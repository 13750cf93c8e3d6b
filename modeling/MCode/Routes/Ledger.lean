import MCode.Lib.Machine
import MCode.Routes.Table

/-!
# Ledgers, leases and usage contexts

The calls of `ProviderRouteLedger`, over a host that holds any number of
ledgers.  Each call runs under its ledger's mutex (what it reads before
locking is immutable), so a run of the host is the sequence in which the
mutexes order the calls.

The host keeps what the reference counts of the source keep alive: the
ledgers by their seal, the `UsageStamp` cells by their address, and every
value a call has handed out.  The fields of leases, contexts and samples are
private, so a later call can only be given a clone of one of those; a clone
is the same value.

A call returns its result beside the next state, also when it fails: a
failure that leaves a trace would show.
-/

namespace MCode.Routes.Ledger

open Std
open MCode.Lib
open MCode.Routes.Identity
open MCode.Routes.Stamps
open MCode.Routes.Table

def MAX_USAGE_CONTEXTS_PER_LEDGER : Nat := 4096

/-- `LedgerState`: the published routes and the live requests. -/
structure LedgerState where
  table : PublishedTable
  requests : ExtTreeMap RequestId UsageContextSnapshot

def LedgerState.new : LedgerState := ⟨PublishedTable.new, ∅⟩

/-- All ledgers, all stamp cells, and all values handed out so far. -/
structure Host where
  ledgers : List LedgerState
  stamps : List UsageStamp
  leases : List ModelRouteLease
  contexts : List UsageContextSnapshot
  samples : List UsageSample

def Host.empty : Host := ⟨[], [], [], [], []⟩

/-! ## Checks shared by the calls -/

def validateExpectedOwner (stamped expected : ProviderRouteOwner) :
    Except ProviderRouteError Unit :=
  if stamped = expected then .ok ()
  else if stamped.matchesExceptGeneration expected then .error .StaleGeneration
  else .error .OwnerMismatch

def validateLease (ledger : Seal) (expectedOwner : ProviderRouteOwner)
    (lease : ModelRouteLease) : Except ProviderRouteError Unit :=
  if !lease.belongsTo ledger then .error .ForeignStamp
  else validateExpectedOwner lease.ownership.owner expectedOwner

def validateRequestAndTurn (context : UsageContextSnapshot)
    (requestId : RequestId) (turnId : TurnId) :
    Except ProviderRouteError Unit :=
  if context.requestId ≠ requestId then .error .RequestMismatch
  else if context.turnId ≠ turnId then .error .TurnMismatch
  else .ok ()

/-- `UsageContextSnapshot::belongs_to`, which reads the shared stamp cell. -/
def Host.belongsTo (self : Host) (context : UsageContextSnapshot)
    (ledger : Seal) : Bool :=
  context.lease.belongsTo ledger
    && self.stamps[context.stamp]?.any (·.belongsTo ledger)

def Host.validateContext (self : Host) (ledger : Seal)
    (context : UsageContextSnapshot) : Except ProviderRouteError Unit :=
  if !self.belongsTo context ledger then .error .ForeignStamp else .ok ()

/-- `UsageContextSnapshot::is_terminal`. -/
def Host.isTerminal (self : Host) (context : UsageContextSnapshot) : Bool :=
  self.stamps[context.stamp]?.any (·.terminal)

/-- `UsageStamp::mark_terminal`: swaps the flag in, and asserts that it was
not set. -/
def Host.markTerminal (self : Host) (context : UsageContextSnapshot) :
    Except Fault Unit × Host :=
  let marked : Host :=
    { self with
      stamps := self.stamps.modify context.stamp
        (fun stamp => { stamp with terminal := true }) }
  if self.isTerminal context then
    (.error (.panic "a terminal usage stamp cannot transition"), marked)
  else (.ok (), marked)

/-! ## The calls -/

def mintModelRouteLease (ledger : Seal) (state : LedgerState)
    (owner : ProviderRouteOwner) (routeId : ProviderRouteId)
    (currentModel : ModelId) : Except ProviderRouteError ModelRouteLease :=
  match state.table.table.routes[routeId]? with
  | none => .error .UnknownRoute
  | some ownership =>
      match validateExpectedOwner ownership.owner owner with
      | .error e => .error e
      | .ok () => .ok ⟨ledger, ownership, currentModel⟩

/-- `UsageContextSnapshot::new`, with the address of its fresh stamp. -/
def UsageContextSnapshot.new (stamp : StampRef) (lease : ModelRouteLease)
    (requestId : RequestId) (turnId : TurnId) (requestedModel : ModelId)
    (requestedAlias : Option ModelAlias) : UsageContextSnapshot :=
  { lease, requestId, turnId, requestedModel, requestedAlias
    resolvedModel := none
    stamp }

def Host.mintUsageContext (self : Host) (ledger : Seal) (state : LedgerState)
    (owner : ProviderRouteOwner) (lease : ModelRouteLease)
    (requestId : RequestId) (turnId : TurnId) (requestedModel : ModelId)
    (requestedAlias : Option ModelAlias) :
    Except Fault UsageContextSnapshot × Host :=
  match validateLease ledger owner lease with
  | .error e => (.error (.error e), self)
  | .ok () =>
      if state.requests.contains requestId then
        (.error (.error .RequestAlreadyRegistered), self)
      else if MAX_USAGE_CONTEXTS_PER_LEDGER ≤ state.requests.size then
        (.error (.error .UsageContextCapacityExceeded), self)
      else
        let context := UsageContextSnapshot.new self.stamps.length lease
          requestId turnId requestedModel requestedAlias
        (.ok context,
          { self with
            stamps := self.stamps ++ [UsageStamp.new ledger]
            ledgers := self.ledgers.set ledger
              { state with requests := state.requests.insert requestId context } })

def Host.recordResolvedModel (self : Host) (ledger : Seal)
    (state : LedgerState) (context : UsageContextSnapshot)
    (requestId : RequestId) (turnId : TurnId) (resolvedModel : ModelId) :
    Except Fault UsageContextSnapshot × Host :=
  match validateRequestAndTurn context requestId turnId with
  | .error e => (.error (.error e), self)
  | .ok () =>
      match self.validateContext ledger context with
      | .error e => (.error (.error e), self)
      | .ok () =>
          if self.isTerminal context then
            (.error (.error .RequestAlreadyTerminal), self)
          else
            match state.requests[requestId]? with
            | none => (.error (.error .StaleUsageContext), self)
            | some liveContext =>
                if !liveContext.sameSnapshot context then
                  (.error (.error .StaleUsageContext), self)
                else if liveContext.resolvedModel.isSome then
                  (.error (.error .ResolvedModelAlreadyRecorded), self)
                else
                  let updated := context.withResolvedModel resolvedModel
                  (.ok updated,
                    { self with
                      ledgers := self.ledgers.set ledger
                        { state with
                          requests := state.requests.insert requestId updated } })

def Host.mintTerminalSample (self : Host) (ledger : Seal)
    (state : LedgerState) (context : UsageContextSnapshot)
    (requestId : RequestId) (turnId : TurnId) (counters : UsageCounters) :
    Except Fault UsageSample × Host :=
  match validateRequestAndTurn context requestId turnId with
  | .error e => (.error (.error e), self)
  | .ok () =>
      match self.validateContext ledger context with
      | .error e => (.error (.error e), self)
      | .ok () =>
          if self.isTerminal context then
            (.error (.error .RequestAlreadyTerminal), self)
          else
            match state.requests[requestId]? with
            | none => (.error (.error .StaleUsageContext), self)
            | some liveContext =>
                if !liveContext.sameSnapshot context then
                  (.error (.error .StaleUsageContext), self)
                else
                  match self.markTerminal context with
                  | (.error fault, marked) => (.error fault, marked)
                  | (.ok (), marked) =>
                      match state.requests[requestId]? with
                      | none =>
                          (.error (.panic "validated live usage context must remain under the ledger lock"),
                            marked)
                      | some removed =>
                          let erased : Host :=
                            { marked with
                              ledgers := marked.ledgers.set ledger
                                { state with
                                  requests := state.requests.erase requestId } }
                          if removed.sameRequestInstance context then
                            (.ok ⟨context, counters⟩, erased)
                          else
                            (.error (.panic "removed usage context must match the terminal request instance"),
                              erased)

/-! ## The host as a machine -/

/-- One call on the host; `ledger` is the seal of the ledger called. -/
inductive Call where
  | new
  | registerOwnerClaims (ledger : Seal) (owner : ProviderRouteOwner)
      (claims : List ProviderRouteClaim)
  | mintModelRouteLease (ledger : Seal) (owner : ProviderRouteOwner)
      (routeId : ProviderRouteId) (currentModel : ModelId)
  | mintUsageContext (ledger : Seal) (owner : ProviderRouteOwner)
      (lease : ModelRouteLease) (requestId : RequestId) (turnId : TurnId)
      (requestedModel : ModelId) (requestedAlias : Option ModelAlias)
  | recordResolvedModel (ledger : Seal) (context : UsageContextSnapshot)
      (requestId : RequestId) (turnId : TurnId) (resolvedModel : ModelId)
  | mintTerminalSample (ledger : Seal) (context : UsageContextSnapshot)
      (requestId : RequestId) (turnId : TurnId) (counters : UsageCounters)

/-- What a successful call returns. -/
inductive Reply where
  | created
  | snapshot (s : ProviderRouteSnapshot)
  | lease (l : ModelRouteLease)
  | context (c : UsageContextSnapshot)
  | sample (s : UsageSample)

/-- The caller now holds the reply. -/
def Host.handOut (self : Host) : Reply → Host
  | .created => self
  | .snapshot _ => self
  | .lease l => { self with leases := self.leases ++ [l] }
  | .context c => { self with contexts := self.contexts ++ [c] }
  | .sample s => { self with samples := self.samples ++ [s] }

/-- Hands out a successful result and forwards a failed one. -/
def deliver {α : Type} (reply : α → Reply) :
    Except Fault α × Host → Except Fault Reply × Host
  | (.error fault, host) => (.error fault, host)
  | (.ok value, host) => (.ok (reply value), host.handOut (reply value))

/-- One call: `none` when no caller can make it, because its ledger does not
exist or it names a lease or context that was never handed out. -/
def Host.call (self : Host) : Call → Option (Except Fault Reply × Host)
  | .new =>
      some (.ok .created, { self with ledgers := self.ledgers ++ [LedgerState.new] })
  | .registerOwnerClaims ledger owner claims =>
      self.ledgers[ledger]?.map fun state =>
        match state.table.registerOwnerClaims owner claims with
        | (.error fault, table) =>
            (.error fault,
              { self with ledgers := self.ledgers.set ledger { state with table } })
        | (.ok snapshot, table) =>
            (.ok (.snapshot snapshot),
              { self with ledgers := self.ledgers.set ledger { state with table } })
  | .mintModelRouteLease ledger owner routeId currentModel =>
      self.ledgers[ledger]?.map fun state =>
        match Ledger.mintModelRouteLease ledger state owner routeId currentModel with
        | .error e => (.error (.error e), self)
        | .ok lease => (.ok (.lease lease), self.handOut (.lease lease))
  | .mintUsageContext ledger owner lease requestId turnId model requestedAlias =>
      if lease ∈ self.leases then
        self.ledgers[ledger]?.map fun state =>
          deliver .context
            (self.mintUsageContext ledger state owner lease requestId turnId model
              requestedAlias)
      else none
  | .recordResolvedModel ledger context requestId turnId model =>
      if context ∈ self.contexts then
        self.ledgers[ledger]?.map fun state =>
          deliver .context
            (self.recordResolvedModel ledger state context requestId turnId model)
      else none
  | .mintTerminalSample ledger context requestId turnId counters =>
      if context ∈ self.contexts then
        self.ledgers[ledger]?.map fun state =>
          deliver .sample
            (self.mintTerminalSample ledger state context requestId turnId counters)
      else none

/-- The state after a call, whatever its result. -/
def Host.step (self : Host) (call : Call) : Option Host :=
  (self.call call).map Prod.snd

/-- A state of the host after some sequence of calls. -/
def Reachable (host : Host) : Prop := Machine.Reaches Host.step Host.empty host

end MCode.Routes.Ledger
