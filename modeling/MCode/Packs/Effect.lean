import MCode.Packs.Activation

/-!
# What one call does

Every call to a system of clients has one of a few effects.  `step_effect`
unfolds the calls once; the invariants use the effects only.
-/

namespace MCode.Packs

open MCode.Lib
open MCode.Routes.Stamps (PluginFamily)

/-! ## The authority -/

/-- What an accepted publication leaves. -/
theorem publish_accepted {authority authority' : PackSelectionAuthority}
    {document : Option RootCompositionDocument}
    (h : authority.publish document = (.ok (), authority')) :
    authority.state.closed = false ∧
      (authority' = authority ∧ document = authority.state.document ∨
        authority.state.revision < revisionOf document ∧
          authority' = { authority with state := { authority.state with
            projection := (document.map fun d => project d.composition).getD emptyProjection,
            document } }) := by
  unfold PackSelectionAuthority.publish at h
  split at h
  · cases h
  split at h
  · cases h
  rename_i hopen
  refine ⟨by simpa using hopen, ?_⟩
  split at h
  · cases h
  rename_i hregressed
  split at h
  · split at h
    · rename_i hsame
      cases h
      exact Or.inl ⟨rfl, hsame⟩
    · cases h
  rename_i hequal
  cases h
  refine Or.inr ⟨Nat.lt_of_le_of_ne (Nat.not_lt.1 hregressed) (Ne.symm hequal), ?_⟩
  cases document with
  | none => exact absurd (newer_positive hregressed hequal) (Nat.lt_irrefl _)
  | some document => rfl

theorem publish_refused {authority authority' : PackSelectionAuthority}
    {document : Option RootCompositionDocument} {error : PackConfigurationError}
    (h : authority.publish document = (.error error, authority')) : authority' = authority := by
  unfold PackSelectionAuthority.publish at h
  repeat' split at h
  all_goals cases h
  all_goals rfl

/-- The selection is what the authority has for the family now. -/
def AuthorityState.Current (state : AuthorityState) (family : PluginFamily)
    (selection : ConfiguredPackSelection) : Prop :=
  selection.revision = state.revision ∧ selection.packIds = state.projection family

/-- What `issue` does. -/
inductive Issue (authority : PackSelectionAuthority) (client : PackSelectionClient) :
    Except PackSelectionIssueError ConfiguredPackSelection → PackSelectionAuthority →
      PackSelectionClient → Prop where
  | refused (error : PackSelectionIssueError) : Issue authority client (.error error) authority client
  | cached (selection : ConfiguredPackSelection) (isOpen : authority.state.closed = false)
      (cache : client.cache = some selection)
      (current : authority.state.Current client.family selection) :
      Issue authority client (.ok selection) authority client
  | minted (selection : ConfiguredPackSelection) (isOpen : authority.state.closed = false)
      (fresh : selection.stamp ∉ authority.state.liveStamps)
      (current : authority.state.Current client.family selection) :
      Issue authority client (.ok selection)
        { authority with state := { authority.state with
          liveStamps := insert selection.stamp authority.state.liveStamps \ client.stamp.toFinset } }
        { client with cache := some selection }

theorem issue_spec (authority : PackSelectionAuthority) (client : PackSelectionClient)
    (draws : Draws) :
    Issue authority client (client.issue authority draws).1 (client.issue authority draws).2.1
      (client.issue authority draws).2.2 := by
  unfold PackSelectionClient.issue
  split
  · exact .refused _
  rename_i hopen
  simp only [Bool.or_eq_true, not_or, Bool.not_eq_true] at hopen
  dsimp only
  split
  · rename_i cached hcached
    rw [Option.filter_eq_some_iff] at hcached
    exact .cached cached hopen.2 hcached.1 (of_decide_eq_true hcached.2 : _ ∧ _)
  · cases hmint : mintStamp authority.state.liveStamps draws with
    | none => exact .refused _
    | some stamp => exact .minted ⟨stamp, _, _⟩ hopen.2 (mintFrom_fresh hmint) ⟨rfl, rfl⟩

theorem activationIsCurrent_iff {client : PackSelectionClient} {state : AuthorityState}
    {target : ConfiguredPackSelection} :
    client.activationIsCurrent state target = true ↔
      client.cache = some target ∧ state.Current client.family target := by
  unfold PackSelectionClient.activationIsCurrent AuthorityState.Current
  simp [and_assoc]

theorem beginActivation_ok {client : PackSelectionClient} {authority : PackSelectionAuthority}
    {stamp : String} {target : PackActivationTarget}
    (h : client.beginActivation authority stamp = .ok target) :
    authority.state.closed = false ∧ client.cache = some target.selection ∧
      target.selection.stamp = stamp ∧ authority.state.Current client.family target.selection := by
  unfold PackSelectionClient.beginActivation at h
  split at h
  · cases h
  rename_i hopen
  simp only [Bool.or_eq_true, not_or, Bool.not_eq_true] at hopen
  split at h
  · cases h
  rename_i selection hselection
  rw [Option.filter_eq_some_iff] at hselection
  split at h
  · rename_i hcurrent
    cases h
    exact ⟨hopen.2, hselection.1, of_decide_eq_true hselection.2,
      (activationIsCurrent_iff.1 hcurrent).2⟩
  · cases h

theorem lockCurrentActivation_ok {client : PackSelectionClient}
    {authority : PackSelectionAuthority} {target : ConfiguredPackSelection}
    (h : client.lockCurrentActivation authority target = .ok ()) :
    authority.state.closed = false ∧ client.cache = some target ∧
      authority.state.Current client.family target := by
  unfold PackSelectionClient.lockCurrentActivation at h
  split at h
  · cases h
  rename_i hopen
  simp only [Bool.or_eq_true, not_or, Bool.not_eq_true] at hopen
  split at h
  · rename_i hcurrent
    exact ⟨hopen.2, activationIsCurrent_iff.1 hcurrent⟩
  · cases h

/-! ## Clients -/

theorem PackSystem.idle_eq {s : PackSystem} {i : Nat} {client : PackActivationClient}
    (h : s.idle i = some client) :
    s.clients[i]? = some (some client) ∧ client.activating = .idle := by
  unfold PackSystem.idle at h
  split at h
  · rename_i other hother
    split at h
    · rename_i hidle
      cases h
      exact ⟨hother, hidle⟩
    · cases h
  · cases h

/-- A client that is put where it is changes nothing. -/
theorem PackSystem.put_self {s : PackSystem} {i : Nat} {client : PackActivationClient}
    (h : s.clients[i]? = some (some client)) : s.put i client = s := by
  obtain ⟨hi, hclient⟩ := List.getElem?_eq_some_iff.1 h
  unfold PackSystem.put
  rw [← hclient, List.set_getElem_self]

/-- The target of an `activate` in progress. -/
def Activating.target : Activating → Option PackActivationTarget
  | .idle => none
  | .preparing target _ | .committing target _ | .generationHeld target _ => some target

/-- How a client goes on in `activate` before its commit. -/
inductive Move (authority : PackSelectionAuthority) (i : Nat) (client : PackActivationClient) :
    PackCall → PackAnswer → Activating → Prop where
  | began (stamp : String) (target : PackActivationTarget) (activating : Activating)
      (resting : client.activating = .idle)
      (begun : client.selection.beginActivation authority stamp = .ok target)
      (next : activating = .committing target none ∧
          (∃ set, client.active = some set ∧ set.target = target) ∨
        activating = prepared target []) :
      Move authority i client (.activate i stamp) .done activating
  | pack (preparation : Preparation) (target : PackActivationTarget) (packs : List ActivePack)
      (pack : ActivePack) (before : client.activating = .preparing target packs)
      (next : target.selection.packIds[packs.length]? = some pack.candidate.packId) :
      Move authority i client (.prepare i preparation) .done (prepared target (packs ++ [pack]))
  | held (target : PackActivationTarget) (replacement : Option (List ActivePack))
      (before : client.activating = .committing target replacement) :
      Move authority i client (.beginCommit i (.ok ())) .done (.generationHeld target replacement)
  | failed (call : PackCall) (error : PackActivationError) :
      Move authority i client call (.activated (.error error)) .idle
  | cancelled : Move authority i client (.cancel i) .done .idle

/-! ## Systems -/

/-- The answer reports no publication, no selection, no target and no commit. -/
def PackAnswer.refuses : PackAnswer → Bool
  | .blocked | .published (.error _) | .issued (.error _) | .begun (.error _)
  | .committed (.error _) | .activated (.error _) => true
  | _ => false

inductive Effect (s : PackSystem) : PackCall → PackAnswer → PackSystem → Prop where
  | stay (call : PackCall) (answer : PackAnswer) (refuses : answer.refuses = true) :
      Effect s call answer s
  | published (document : Option RootCompositionDocument) (authority : PackSelectionAuthority)
      (accepted : s.authority.publish document = (.ok (), authority)) :
      Effect s (.publish document) (.published (.ok ())) { s with authority }
  | joined (family selectionFamily : PluginFamily) :
      Effect s (.client family selectionFamily) .done
        { s with clients := s.clients ++ [some (.new family selectionFamily)] }
  | issued (i : Nat) (draws : Draws) (client : PackActivationClient)
      (selection : ConfiguredPackSelection) (authority : PackSelectionAuthority)
      (selectionClient : PackSelectionClient)
      (found : s.clients[i]? = some (some client)) (resting : client.activating = .idle)
      (issue : Issue s.authority client.selection (.ok selection) authority selectionClient) :
      Effect s (.issue i draws) (.issued (.ok selection))
        ({ s with authority }.put i { client with selection := selectionClient })
  | begun (i : Nat) (stamp : String) (client : PackActivationClient)
      (target : PackActivationTarget) (found : s.clients[i]? = some (some client))
      (begun : client.selection.beginActivation s.authority stamp = .ok target) :
      Effect s (.beginActivation i stamp) (.begun (.ok target))
        { s with targets := s.targets ++ [target] }
  | guarded (i k : Nat) (client : PackActivationClient) (target : PackActivationTarget)
      (found : s.clients[i]? = some (some client)) (named : s.targets[k]? = some target)
      (locked : client.selection.lockCurrentActivation s.authority target.selection = .ok ()) :
      Effect s (.commitActivation i k) (.committed (.ok ()))
        { s with authority := { s.authority with guardedBy := some i } }
  | unguarded (panicking : Bool) (authority : PackSelectionAuthority)
      (state : authority.state = s.authority.state) :
      Effect s (.dropCommit panicking) .done { s with authority }
  | moved (i : Nat) (call : PackCall) (answer : PackAnswer) (client : PackActivationClient)
      (activating : Activating) (found : s.clients[i]? = some (some client))
      (move : Move s.authority i client call answer activating) :
      Effect s call answer (s.put i { client with activating })
  | committed (i : Nat) (client : PackActivationClient) (target : PackActivationTarget)
      (replacement : Option (List ActivePack)) (found : s.clients[i]? = some (some client))
      (held : client.activating = .generationHeld target replacement)
      (locked : client.selection.lockCurrentActivation s.authority target.selection = .ok ()) :
      Effect s (.commit i) (.activated (.ok (client.replace target replacement).2))
        (s.put i (client.replace target replacement).1)
  | dropped (i : Nat) (client : PackActivationClient) (found : s.clients[i]? = some (some client)) :
      Effect s (.dropClient i) .done
        { s with authority := client.selection.release s.authority, clients := s.clients.set i none }
  | closed : Effect s .close .done { s with authority := s.authority.close }

theorem loadVerifiedPack_some {family : PluginFamily} {packId : PackId} {inOrder : Bool}
    {candidate : VerifiedPackCandidate}
    (h : loadVerifiedPack family packId inOrder = some candidate) : candidate.packId = packId := by
  unfold loadVerifiedPack at h
  repeat' split at h
  all_goals cases h
  rfl

theorem preparePack_ok {family : PluginFamily} {packId : PackId} {preparation : Preparation}
    {pack : ActivePack} (h : preparePack family packId preparation = .ok pack) :
    pack.candidate.packId = packId := by
  unfold preparePack at h
  split at h
  · cases h
  rename_i candidate hcandidate
  have hid := loadVerifiedPack_some hcandidate
  split at h
  · cases h
  · cases h
  · cases h
    exact hid

theorem activate_ok {client : PackActivationClient} {authority : PackSelectionAuthority}
    {stamp : String} {activating : Activating}
    (h : client.activate authority stamp = .ok activating) :
    ∃ target, client.selection.beginActivation authority stamp = .ok target ∧
      (activating = .committing target none ∧
          (∃ set, client.active = some set ∧ set.target = target) ∨
        activating = prepared target []) := by
  unfold PackActivationClient.activate at h
  split at h
  · cases h
  rename_i target hbegun
  refine ⟨target, hbegun, ?_⟩
  split at h
  · rename_i hactive
    cases h
    rw [Option.any_eq_true] at hactive
    obtain ⟨set, hset, htarget⟩ := hactive
    exact Or.inl ⟨rfl, set, hset, of_decide_eq_true htarget⟩
  · cases h
    exact Or.inr rfl

theorem locked_effect (s : PackSystem) (call : PackCall) :
    Effect s call (locked s call).1 (locked s call).2 := by
  cases call with
  | publish document =>
      dsimp only [locked]
      cases hpublish : s.authority.publish document with
      | mk result authority =>
          cases result with
          | error error =>
              rw [publish_refused hpublish]
              exact .stay _ _ rfl
          | ok accepted => exact .published document authority hpublish
  | issue i draws =>
      dsimp only [locked]
      cases hidle : s.idle i with
      | none => exact .stay _ _ rfl
      | some client =>
          obtain ⟨hfound, hactivating⟩ := PackSystem.idle_eq hidle
          have hspec := issue_spec s.authority client.selection draws
          dsimp only
          cases hresult : client.selection.issue s.authority draws with
          | mk result rest =>
              obtain ⟨authority, selection⟩ := rest
              rw [hresult] at hspec
              cases result with
              | error error =>
                  cases hspec
                  dsimp only
                  rw [PackSystem.put_self hfound]
                  exact .stay _ _ rfl
              | ok issued =>
                  exact .issued i draws client issued authority selection hfound hactivating hspec
  | beginActivation i stamp =>
      dsimp only [locked]
      cases hidle : s.idle i with
      | none => exact .stay _ _ rfl
      | some client =>
          dsimp only
          cases hbegun : client.selection.beginActivation s.authority stamp with
          | error error => exact .stay _ _ rfl
          | ok target => exact .begun i stamp client target (PackSystem.idle_eq hidle).1 hbegun
  | commitActivation i k =>
      dsimp only [locked]
      cases hidle : s.idle i with
      | none => exact .stay _ _ rfl
      | some client =>
          cases hnamed : s.targets[k]? with
          | none => exact .stay _ _ rfl
          | some target =>
              dsimp only
              cases hlock : client.selection.lockCurrentActivation s.authority
                  target.selection with
              | error error => exact .stay _ _ rfl
              | ok given => exact .guarded i k client target (PackSystem.idle_eq hidle).1 hnamed hlock
  | activate i stamp =>
      dsimp only [locked]
      cases hidle : s.idle i with
      | none => exact .stay _ _ rfl
      | some client =>
          obtain ⟨hfound, hactivating⟩ := PackSystem.idle_eq hidle
          dsimp only
          cases hactivate : client.activate s.authority stamp with
          | error error => exact .stay _ _ rfl
          | ok activating =>
              obtain ⟨target, hbegun, hnext⟩ := activate_ok hactivate
              exact .moved i _ _ client activating hfound
                (.began stamp target activating hactivating hbegun hnext)
  | commit i =>
      dsimp only [locked]
      split
      · rename_i client hfound
        split
        · rename_i target replacement hheld
          cases hlock : client.selection.lockCurrentActivation s.authority
              target.selection with
          | error error => exact .moved i _ _ client .idle hfound (.failed _ _)
          | ok given => exact .committed i client target replacement hfound hheld hlock
        · exact .stay _ _ rfl
      · exact .stay _ _ rfl
  | dropClient i =>
      dsimp only [locked]
      cases hidle : s.idle i with
      | none => exact .stay _ _ rfl
      | some client => exact .dropped i client (PackSystem.idle_eq hidle).1
  | close => exact .closed
  | _ => exact .stay _ _ rfl

/-- What one call does. -/
theorem step_effect (s : PackSystem) (call : PackCall) :
    Effect s call (step s call).1 (step s call).2 := by
  cases call with
  | client family selectionFamily => exact .joined family selectionFamily
  | dropCommit panicking =>
      dsimp only [step]
      split
      · exact .stay _ _ rfl
      · exact .unguarded panicking _ rfl
  | prepare i preparation =>
      dsimp only [step]
      split
      · rename_i client hfound
        split
        · rename_i target packs hpreparing
          split
          · exact .stay _ _ rfl
          · rename_i packId hnext
            split
            · exact .moved i _ _ client .idle hfound (.failed _ _)
            · rename_i pack hpack
              rw [← preparePack_ok hpack] at hnext
              exact .moved i _ _ client _ hfound (.pack preparation target packs pack hpreparing hnext)
        · exact .stay _ _ rfl
      · exact .stay _ _ rfl
  | cancel i =>
      dsimp only [step]
      split
      · rename_i client hfound
        split
        · exact .moved i _ _ client .idle hfound .cancelled
        · exact .stay _ _ rfl
      · exact .stay _ _ rfl
  | beginCommit i generation =>
      dsimp only [step]
      split
      · rename_i client hfound
        split
        · exact .moved i _ _ client .idle hfound (.failed _ _)
        · rename_i target replacement hcommitting
          exact .moved i _ _ client _ hfound (.held target replacement hcommitting)
        · exact .stay _ _ rfl
      · exact .stay _ _ rfl
  | _ =>
      dsimp only [step]
      split
      · exact locked_effect s _
      · exact .stay _ _ rfl

end MCode.Packs
