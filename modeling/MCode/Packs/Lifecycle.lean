import MCode.Lib.Registry
import MCode.Packs.Effect

/-!
# The lifecycle of a selection

The log of a run says which documents were accepted, which selection a client
has got last, and which `activate` it called last.  `Sound` ties the state to
the log; every call keeps it.
-/

namespace MCode.Packs

open MCode.Lib MCode.Lib.Registry
open MCode.Routes.Stamps (PluginFamily)

/-! ## What the log says -/

abbrev PackLog := List (PackCall × PackAnswer)

/-- The documents of the publications that were accepted, in order. -/
def accepted (log : PackLog) : List (Option RootCompositionDocument) :=
  log.filterMap fun entry => match entry with
    | (.publish document, .published (.ok ())) => some document
    | _ => none

/-- The selection that client `i` has got last. -/
def lastIssued (i : Nat) (log : PackLog) : Option ConfiguredPackSelection :=
  log.foldl (fun last entry => match entry with
    | (.issue j _, .issued (.ok selection)) => if j = i then some selection else last
    | _ => last) none

/-- The stamp of the last `activate` of client `i` that has begun. -/
def lastActivate (i : Nat) (log : PackLog) : Option String :=
  log.foldl (fun last entry => match entry with
    | (.activate j stamp, .done) => if j = i then some stamp else last
    | _ => last) none

/-- The target stems from an issue or a `begin_activation` of the log. -/
def Obtained (log : PackLog) (target : PackActivationTarget) : Prop :=
  (∃ i draws, (.issue i draws, .issued (.ok target.selection)) ∈ log) ∨
    ∃ i stamp, (.beginActivation i stamp, .begun (.ok target)) ∈ log

theorem accepted_snoc (log : PackLog) (call : PackCall) (answer : PackAnswer) :
    accepted (log ++ [(call, answer)]) = accepted log ++ accepted [(call, answer)] :=
  List.filterMap_append

theorem lastIssued_snoc (i : Nat) (log : PackLog) (call : PackCall) (answer : PackAnswer) :
    lastIssued i (log ++ [(call, answer)]) = match (call, answer) with
      | (.issue j _, .issued (.ok selection)) => if j = i then some selection else lastIssued i log
      | _ => lastIssued i log := by
  unfold lastIssued
  rw [List.foldl_append]
  rfl

theorem lastActivate_snoc (i : Nat) (log : PackLog) (call : PackCall) (answer : PackAnswer) :
    lastActivate i (log ++ [(call, answer)]) = match (call, answer) with
      | (.activate j stamp, .done) => if j = i then some stamp else lastActivate i log
      | _ => lastActivate i log := by
  unfold lastActivate
  rw [List.foldl_append]
  rfl

/-! ## Sound clients -/

def packIdsOf (packs : List ActivePack) : List PackId := packs.map fun pack => pack.candidate.packId

def ActivePackSet.Sound (set : ActivePackSet) : Prop :=
  packIdsOf set.packs = set.target.selection.packIds

/-- The replacement for a target: nothing where it is active already. -/
def Replaces (active : Option ActivePackSet) (target : PackActivationTarget) :
    Option (List ActivePack) → Prop
  | none => ∃ set, active = some set ∧ set.target = target
  | some packs => packIdsOf packs = target.selection.packIds

def Activating.Sound (active : Option ActivePackSet) : Activating → Prop
  | .idle => True
  | .preparing target packs => packIdsOf packs = target.selection.packIds.take packs.length
  | .committing target replacement | .generationHeld target replacement =>
      Replaces active target replacement

/-- The packs of the active set, and those of a set in preparation, are the ones
that their target names. -/
structure PackActivationClient.Sound (client : PackActivationClient) : Prop where
  active : ∀ set, client.active = some set → set.Sound
  activating : client.activating.Sound client.active

theorem new_sound (family selectionFamily : PluginFamily) :
    (PackActivationClient.new family selectionFamily).Sound := ⟨nofun, trivial⟩

theorem prepared_sound {active : Option ActivePackSet} {target : PackActivationTarget}
    {packs : List ActivePack} (h : packIdsOf packs = target.selection.packIds.take packs.length) :
    (prepared target packs).Sound active := by
  unfold prepared
  split
  · exact h
  · rename_i hlength
    show packIdsOf packs = target.selection.packIds
    rw [h, List.take_of_length_le (Nat.not_lt.1 hlength)]

theorem Move.sound {authority : PackSelectionAuthority} {i : Nat} {client : PackActivationClient}
    {call : PackCall} {answer : PackAnswer} {activating : Activating}
    (h : Move authority i client call answer activating) (hclient : client.Sound) :
    PackActivationClient.Sound { client with activating } := by
  refine ⟨hclient.active, ?_⟩
  show activating.Sound client.active
  cases h with
  | began stamp target _ resting begun next =>
      rcases next with ⟨rfl, hactive⟩ | rfl
      · exact hactive
      · exact prepared_sound rfl
  | pack preparation target packs pack before next =>
      have hbefore := hclient.activating
      rw [before] at hbefore
      apply prepared_sound
      have hbefore : packIdsOf packs = target.selection.packIds.take packs.length := hbefore
      show (packs ++ [pack]).map _ = _
      rw [List.map_append, List.length_append, List.length_singleton, List.take_add_one, next,
        ← hbefore]
      rfl
  | held target replacement before =>
      have hbefore := hclient.activating
      rw [before] at hbefore
      exact hbefore
  | failed call error => trivial
  | cancelled => trivial

/-- What a commit leaves active. -/
theorem replace_active {client : PackActivationClient} {target : PackActivationTarget}
    {replacement : Option (List ActivePack)} (hclient : client.Sound)
    (hheld : client.activating = .generationHeld target replacement) :
    (∃ packs, (client.replace target replacement).1.active = some ⟨target, packs⟩ ∧
        packIdsOf packs = target.selection.packIds) ∧
      (client.replace target replacement).2 = target.selection.stamp := by
  have hreplaces := hclient.activating
  rw [hheld] at hreplaces
  cases replacement with
  | none =>
      obtain ⟨⟨_, packs⟩, hactive, rfl⟩ := hreplaces
      refine ⟨⟨packs, hactive, hclient.active _ hactive⟩, ?_⟩
      show (client.active.map _).getD _ = _
      rw [hactive]
      rfl
  | some packs => exact ⟨⟨packs, rfl, hreplaces⟩, rfl⟩

theorem replace_sound {client : PackActivationClient} {target : PackActivationTarget}
    {replacement : Option (List ActivePack)} (hclient : client.Sound)
    (hheld : client.activating = .generationHeld target replacement) :
    (client.replace target replacement).1.Sound := by
  obtain ⟨⟨packs, hactive, hpacks⟩, -⟩ := replace_active hclient hheld
  refine ⟨fun set hset => ?_, trivial⟩
  rw [hactive] at hset
  cases hset
  exact hpacks

/-! ## Documents -/

def projectionOf (document : Option RootCompositionDocument) : FamilyProjection :=
  (document.map fun document => project document.composition).getD emptyProjection

/-- A later document is at least as new, and the same where it is not newer. -/
def Follows (before after : Option RootCompositionDocument) : Prop :=
  revisionOf before ≤ revisionOf after ∧ (revisionOf before = revisionOf after → before = after)

theorem Follows.refl (document : Option RootCompositionDocument) : Follows document document :=
  ⟨Nat.le_refl _, fun _ => rfl⟩

theorem Follows.trans {a b c : Option RootCompositionDocument} (hab : Follows a b)
    (hbc : Follows b c) : Follows a c := by
  refine ⟨Nat.le_trans hab.1 hbc.1, fun hsame => ?_⟩
  have hle := hab.1
  have hge := hbc.1
  rw [← hsame] at hge
  have hfirst := Nat.le_antisymm hle hge
  rw [hab.2 hfirst]
  exact hbc.2 (hfirst ▸ hsame)

theorem accepted_refused {call : PackCall} {answer : PackAnswer}
    (h : answer ≠ .published (.ok ())) : accepted [(call, answer)] = [] := by
  unfold accepted
  cases call with
  | publish document =>
      cases answer with
      | published result =>
          cases result with
          | error error => rfl
          | ok done => exact absurd rfl h
      | _ => rfl
  | _ => rfl

/-- Only a publication changes the document. -/
theorem Effect.document {s s' : PackSystem} {call : PackCall} {answer : PackAnswer}
    (h : Effect s call answer s') :
    (∃ document, call = .publish document ∧ answer = .published (.ok ()) ∧
        s'.authority.state.document = document ∧ Follows s.authority.state.document document ∧
        (s.authority.state.projection = projectionOf s.authority.state.document →
          s'.authority.state.projection = projectionOf document)) ∨
      s'.authority.state.document = s.authority.state.document ∧
        s'.authority.state.projection = s.authority.state.projection ∧
        accepted [(call, answer)] = [] := by
  cases h with
  | stay call answer refuses =>
      refine Or.inr ⟨rfl, rfl, accepted_refused ?_⟩
      rintro rfl
      cases refuses
  | published document authority publish =>
      refine Or.inl ⟨document, rfl, rfl, ?_⟩
      rcases (publish_accepted publish).2 with ⟨rfl, rfl⟩ | ⟨hnewer, rfl⟩
      · exact ⟨rfl, .refl _, id⟩
      · refine ⟨rfl, ⟨Nat.le_of_lt hnewer, fun hsame => ?_⟩, fun _ => rfl⟩
        exact absurd hsame (Nat.ne_of_lt hnewer)
  | unguarded panicking authority state =>
      refine Or.inr ⟨?_, ?_, rfl⟩
      · show authority.state.document = _
        rw [state]
      · show authority.state.projection = _
        rw [state]
  | issued i draws client selection authority selectionClient found resting issue =>
      cases issue <;> exact Or.inr ⟨rfl, rfl, rfl⟩
  | moved i call answer client activating found move =>
      refine Or.inr ⟨rfl, rfl, accepted_refused ?_⟩
      rintro rfl
      cases move
  | _ => exact Or.inr ⟨rfl, rfl, rfl⟩

/-- The accepted documents, each of which follows those before it. -/
structure Published (log : PackLog) (s : PackSystem) : Prop where
  follows : (accepted log).Pairwise Follows
  last : ∀ document ∈ accepted log, Follows document s.authority.state.document
  projection : s.authority.state.projection = projectionOf s.authority.state.document

theorem Published.step {log : PackLog} {s s' : PackSystem} {call : PackCall} {answer : PackAnswer}
    (h : Published log s) (heffect : Effect s call answer s') :
    Published (log ++ [(call, answer)]) s' := by
  rcases heffect.document with ⟨document, rfl, rfl, hdocument, hfollows, hprojection⟩ |
    ⟨hdocument, hprojection, hrefused⟩
  · have haccepted (earlier) (hearlier : earlier ∈ accepted log) : Follows earlier document :=
      (h.last earlier hearlier).trans hfollows
    refine ⟨?_, fun other hother => ?_, ?_⟩
    · rw [accepted_snoc, List.pairwise_append]
      exact ⟨h.follows, List.pairwise_singleton _ _, fun earlier hearlier later hlater =>
        List.mem_singleton.1 hlater ▸ haccepted earlier hearlier⟩
    · rw [hdocument]
      rw [accepted_snoc, List.mem_append] at hother
      rcases hother with hother | hother
      · exact haccepted other hother
      · rw [List.mem_singleton.1 hother]
        exact .refl _
    · rw [hdocument]
      exact hprojection h.projection
  · constructor
    · rw [accepted_snoc, hrefused, List.append_nil]
      exact h.follows
    · intro other hother
      rw [accepted_snoc, hrefused, List.append_nil] at hother
      rw [hdocument]
      exact h.last other hother
    · rw [hprojection, hdocument]
      exact h.projection

theorem Effect.revision_le {s s' : PackSystem} {call : PackCall} {answer : PackAnswer}
    (h : Effect s call answer s') : s.authority.state.revision ≤ s'.authority.state.revision := by
  rcases h.document with ⟨document, -, -, hdocument, hfollows, -⟩ | ⟨hdocument, -⟩
  · show revisionOf _ ≤ revisionOf _
    rw [hdocument]
    exact hfollows.1
  · exact Nat.le_of_eq (congrArg revisionOf hdocument.symm)

/-- What a target of the log names is not newer than what is accepted. -/
def Dated (log : PackLog) (s : PackSystem) : Prop :=
  ∀ target, Obtained log target → target.selection.revision ≤ s.authority.state.revision

theorem Obtained.snoc {log : PackLog} {entry : PackCall × PackAnswer}
    {target : PackActivationTarget} (h : Obtained (log ++ [entry]) target) :
    Obtained log target ∨ (∃ i draws, (.issue i draws, .issued (.ok target.selection)) = entry) ∨
      ∃ i stamp, (.beginActivation i stamp, .begun (.ok target)) = entry := by
  rcases h with ⟨i, draws, hmem⟩ | ⟨i, stamp, hmem⟩
  · rcases List.mem_append.1 hmem with hmem | hmem
    · exact Or.inl (Or.inl ⟨i, draws, hmem⟩)
    · exact Or.inr (Or.inl ⟨i, draws, List.mem_singleton.1 hmem⟩)
  · rcases List.mem_append.1 hmem with hmem | hmem
    · exact Or.inl (Or.inr ⟨i, stamp, hmem⟩)
    · exact Or.inr (Or.inr ⟨i, stamp, List.mem_singleton.1 hmem⟩)

theorem Effect.obtained {s s' : PackSystem} {call : PackCall} {answer : PackAnswer}
    {target : PackActivationTarget} (h : Effect s call answer s')
    (hentry : (∃ i draws, (.issue i draws, .issued (.ok target.selection)) = (call, answer)) ∨
      ∃ i stamp, (.beginActivation i stamp, .begun (.ok target)) = (call, answer)) :
    target.selection.revision = s.authority.state.revision := by
  rcases hentry with ⟨i, draws, heq⟩ | ⟨i, stamp, heq⟩
  · cases heq
    cases h with
    | stay _ _ refuses => cases refuses
    | issued _ _ client _ authority selectionClient found resting issue =>
        cases issue with
        | cached _ isOpen cache current => exact current.1
        | minted _ isOpen fresh current => exact current.1
    | moved i _ _ client activating found move => cases move
  · cases heq
    cases h with
    | stay _ _ refuses => cases refuses
    | begun _ _ client _ found begun => exact (beginActivation_ok begun).2.2.2.1
    | moved i _ _ client activating found move => cases move

theorem Dated.step {log : PackLog} {s s' : PackSystem} {call : PackCall} {answer : PackAnswer}
    (h : Dated log s) (heffect : Effect s call answer s') : Dated (log ++ [(call, answer)]) s' := by
  intro target hobtained
  apply Nat.le_trans _ heffect.revision_le
  rcases hobtained.snoc with hbefore | hentry
  · exact h target hbefore
  · exact Nat.le_of_eq (heffect.obtained hentry)

/-! ## Live stamps -/

/-- The stamp that a live client has cached. -/
def slotStamp (slot : Option PackActivationClient) : Option String :=
  slot.bind fun client => client.selection.stamp

/-- The live stamps are those that the clients have cached, pairwise different. -/
def Registered (s : PackSystem) : Prop :=
  s.authority.state.closed = false → Tracks slotStamp s.clients s.authority.state.liveStamps

/-- An authority that is open has been open. -/
theorem Effect.open_before {s s' : PackSystem} {call : PackCall} {answer : PackAnswer}
    (h : Effect s call answer s') (hopen : s'.authority.state.closed = false) :
    s.authority.state.closed = false := by
  cases h with
  | published document authority publish => exact (publish_accepted publish).1
  | unguarded panicking authority state => rwa [← state]
  | issued i draws client selection authority selectionClient found resting issue =>
      cases issue with
      | cached _ isOpen cache current => exact isOpen
      | minted _ isOpen fresh current => exact isOpen
  | closed => cases hopen
  | _ => exact hopen

theorem Registered.step {s s' : PackSystem} {call : PackCall} {answer : PackAnswer}
    (h : Registered s) (heffect : Effect s call answer s') : Registered s' := by
  intro hopen
  have htracks := h (heffect.open_before hopen)
  cases heffect with
  | stay call answer refuses => exact htracks
  | published document authority publish =>
      rcases (publish_accepted publish).2 with ⟨rfl, -⟩ | ⟨-, rfl⟩
      · exact htracks
      · exact htracks
  | joined family selectionFamily => exact htracks.push rfl
  | issued i draws client selection authority selectionClient found resting issue =>
      cases issue with
      | cached _ isOpen cache current => exact htracks.same found rfl
      | minted _ isOpen fresh current => exact htracks.replace found rfl fresh
  | begun i stamp client target found begun => exact htracks
  | guarded i k client target found named locked => exact htracks
  | unguarded panicking authority state =>
      show Tracks slotStamp s.clients authority.state.liveStamps
      rw [state]
      exact htracks
  | moved i call answer client activating found move => exact htracks.same found rfl
  | committed i client target replacement found held locked => exact htracks.same found rfl
  | dropped i client found => exact htracks.release found rfl
  | closed => cases hopen

end MCode.Packs
