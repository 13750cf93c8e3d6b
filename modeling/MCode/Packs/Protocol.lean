import MCode.Packs.Lifecycle

/-!
# The activation protocol

What one client has cached is what it was issued last, and an `activate` in
progress prepares what its stamp named.  With the documents and the stamps this
gives the protocol: a commit succeeds for the current selection of its own
client only, and only a commit changes an active set.
-/

namespace MCode.Packs

open MCode.Lib MCode.Lib.Registry
open MCode.Routes.Stamps (PluginFamily)

/-! ## Clients and the log -/

/-- A client, and what the log says of it. -/
structure Logged (log : PackLog) (i : Nat) (client : PackActivationClient) : Prop where
  cache : client.selection.cache = lastIssued i log
  stamp : ∀ target, client.activating.target = some target →
    lastActivate i log = some target.selection.stamp
  sound : client.Sound

structure Clients (log : PackLog) (s : PackSystem) : Prop where
  logged : ∀ i client, s.clients[i]? = some (some client) → Logged log i client
  absent : ∀ i, s.clients.length ≤ i → lastIssued i log = none

theorem lastIssued_skip {i : Nat} {log : PackLog} {call : PackCall} {answer : PackAnswer}
    (h : ∀ draws selection, (call, answer) ≠ (.issue i draws, .issued (.ok selection))) :
    lastIssued i (log ++ [(call, answer)]) = lastIssued i log := by
  rw [lastIssued_snoc]
  split
  · rename_i j draws selection heq
    split
    · rename_i hj
      subst hj
      exact absurd heq (h draws selection)
    · rfl
  · rfl

theorem lastActivate_skip {i : Nat} {log : PackLog} {call : PackCall} {answer : PackAnswer}
    (h : ∀ stamp, (call, answer) ≠ (.activate i stamp, .done)) :
    lastActivate i (log ++ [(call, answer)]) = lastActivate i log := by
  rw [lastActivate_snoc]
  split
  · rename_i j stamp heq
    split
    · rename_i hj
      subst hj
      exact absurd heq (h stamp)
    · rfl
  · rfl

/-- A call that the log does not count for client `i` keeps what it says of it. -/
theorem Logged.skip {log : PackLog} {i : Nat} {client : PackActivationClient} {call : PackCall}
    {answer : PackAnswer} (h : Logged log i client)
    (hissue : ∀ draws selection, (call, answer) ≠ (.issue i draws, .issued (.ok selection)))
    (hactivate : ∀ stamp, (call, answer) ≠ (.activate i stamp, .done)) :
    Logged (log ++ [(call, answer)]) i client := by
  constructor
  · rw [lastIssued_skip hissue]
    exact h.cache
  · intro target htarget
    rw [lastActivate_skip hactivate]
    exact h.stamp target htarget
  · exact h.sound

/-- The target of an `activate` that goes on is kept, or the call begins it. -/
theorem Move.target {authority : PackSelectionAuthority} {i : Nat} {client : PackActivationClient}
    {call : PackCall} {answer : PackAnswer} {activating : Activating}
    (h : Move authority i client call answer activating) {target : PackActivationTarget}
    (htarget : activating.target = some target) :
    (call, answer) = (.activate i target.selection.stamp, .done) ∨
      client.activating.target = some target ∧
        ∀ stamp, (call, answer) ≠ (.activate i stamp, .done) := by
  have hprepared (other : PackActivationTarget) (packs : List ActivePack) :
      (prepared other packs).target = some other := by
    unfold prepared
    split <;> rfl
  cases h with
  | began stamp other _ resting begun next =>
      have hother : other = target := by
        rcases next with ⟨rfl, -⟩ | rfl
        · exact Option.some.inj htarget
        · rw [hprepared] at htarget
          exact Option.some.inj htarget
      subst hother
      rw [(beginActivation_ok begun).2.2.1]
      exact Or.inl rfl
  | pack preparation other packs pack before next =>
      rw [hprepared] at htarget
      refine Or.inr ⟨?_, nofun⟩
      rw [before]
      exact htarget
  | held other replacement before =>
      refine Or.inr ⟨?_, nofun⟩
      rw [before]
      exact htarget
  | failed call error => cases htarget
  | cancelled => cases htarget

theorem Move.owner {authority : PackSelectionAuthority} {i j : Nat} {client : PackActivationClient}
    {call : PackCall} {answer : PackAnswer} {activating : Activating}
    (h : Move authority i client call answer activating) :
    (∀ draws selection, (call, answer) ≠ (.issue j draws, .issued (.ok selection))) ∧
      (j ≠ i → ∀ stamp, (call, answer) ≠ (.activate j stamp, .done)) := by
  constructor
  · rintro draws selection heq
    cases heq
    cases h
  · rintro hj stamp heq
    cases heq
    cases h with
    | began => exact hj rfl

/-- Where client `i` has been put. -/
theorem getElem?_put {s : PackSystem} {i j : Nat} {before : Option PackActivationClient}
    {client other : PackActivationClient} (hfound : s.clients[i]? = some before)
    (h : (s.put i client).clients[j]? = some (some other)) :
    j = i ∧ other = client ∨ j ≠ i ∧ s.clients[j]? = some (some other) := by
  unfold PackSystem.put at h
  dsimp only at h
  by_cases hj : j = i
  · subst hj
    rw [List.getElem?_set_self (List.getElem?_eq_some_iff.1 hfound).1] at h
    cases h
    exact Or.inl ⟨rfl, rfl⟩
  · rw [List.getElem?_set_ne (Ne.symm hj)] at h
    exact Or.inr ⟨hj, h⟩

/-- A refused call is not counted. -/
theorem refuses_skip (call : PackCall) {answer : PackAnswer} (h : answer.refuses = true) (i : Nat) :
    (∀ draws selection, (call, answer) ≠ (.issue i draws, .issued (.ok selection))) ∧
      ∀ stamp, (call, answer) ≠ (.activate i stamp, .done) := by
  constructor
  · rintro draws selection heq
    cases heq
    cases h
  · rintro stamp heq
    cases heq
    cases h

theorem Effect.logged {log : PackLog} {s s' : PackSystem} {call : PackCall} {answer : PackAnswer}
    (h : Clients log s) (heffect : Effect s call answer s') (j : Nat)
    (client' : PackActivationClient) (hclient : s'.clients[j]? = some (some client')) :
    Logged (log ++ [(call, answer)]) j client' := by
  cases heffect with
  | stay call answer refuses =>
      obtain ⟨hissue, hactivate⟩ := refuses_skip call refuses j
      exact (h.logged j client' hclient).skip hissue hactivate
  | joined family selectionFamily =>
      dsimp only at hclient
      by_cases hj : j < s.clients.length
      · rw [List.getElem?_append_left hj] at hclient
        exact (h.logged j client' hclient).skip nofun nofun
      · rw [List.getElem?_append_right (Nat.not_lt.1 hj)] at hclient
        cases List.mem_singleton.1 (List.mem_of_getElem? hclient)
        refine ⟨?_, nofun, new_sound family selectionFamily⟩
        rw [lastIssued_skip (by nofun), h.absent j (Nat.not_lt.1 hj)]
        rfl
  | issued i draws client selection authority selectionClient found resting issue =>
      rcases getElem?_put (s := { s with authority }) found hclient with ⟨rfl, rfl⟩ | ⟨hj, hother⟩
      · have hlogged := h.logged j client found
        refine ⟨?_, fun target htarget => ?_, hlogged.sound.active, hlogged.sound.activating⟩
        · rw [lastIssued_snoc]
          dsimp only
          rw [if_pos rfl]
          cases issue with
          | cached _ isOpen cache current => exact cache
          | minted _ isOpen fresh current => rfl
        · have htarget : client.activating.target = some target := htarget
          rw [resting] at htarget
          cases htarget
      · refine (h.logged j client' hother).skip (fun draws selection heq => ?_) nofun
        cases heq
        exact hj rfl
  | moved i call answer client activating found move =>
      obtain ⟨hissue, hactivate⟩ := move.owner (j := j)
      rcases getElem?_put found hclient with ⟨rfl, rfl⟩ | ⟨hj, hother⟩
      · have hlogged := h.logged j client found
        refine ⟨?_, fun target htarget => ?_, move.sound hlogged.sound⟩
        · rw [lastIssued_skip hissue]
          exact hlogged.cache
        · rcases move.target htarget with heq | ⟨hkept, hskip⟩
          · cases heq
            rw [lastActivate_snoc]
            exact if_pos rfl
          · rw [lastActivate_skip hskip]
            exact hlogged.stamp target hkept
      · exact (h.logged j client' hother).skip hissue (hactivate hj)
  | committed i client target replacement found held locked =>
      rcases getElem?_put found hclient with ⟨rfl, rfl⟩ | ⟨hj, hother⟩
      · have hlogged := h.logged j client found
        refine ⟨?_, nofun, replace_sound hlogged.sound held⟩
        rw [lastIssued_skip (by nofun)]
        exact hlogged.cache
      · exact (h.logged j client' hother).skip nofun nofun
  | dropped i client found =>
      dsimp only at hclient
      have hj : j ≠ i := by
        rintro rfl
        rw [List.getElem?_set_self (List.getElem?_eq_some_iff.1 found).1] at hclient
        cases hclient
      rw [List.getElem?_set_ne (Ne.symm hj)] at hclient
      exact (h.logged j client' hclient).skip nofun nofun
  | _ => exact (h.logged j client' hclient).skip nofun nofun

/-- Clients stay where they are, and only those that are there are issued a selection. -/
theorem Effect.length_le {s s' : PackSystem} {call : PackCall} {answer : PackAnswer}
    (h : Effect s call answer s') : s.clients.length ≤ s'.clients.length ∧
      ∀ i draws selection, (call, answer) = (.issue i draws, .issued (.ok selection)) →
        i < s.clients.length := by
  cases h with
  | stay call answer refuses =>
      refine ⟨Nat.le_refl _, fun i draws selection heq => ?_⟩
      cases heq
      cases refuses
  | joined family selectionFamily =>
      refine ⟨?_, nofun⟩
      show _ ≤ (s.clients ++ [_]).length
      rw [List.length_append]
      exact Nat.le_add_right _ _
  | issued i draws client selection authority selectionClient found resting issue =>
      refine ⟨?_, fun j draws selection heq => ?_⟩
      · show _ ≤ (s.clients.set i _).length
        rw [List.length_set]
      · cases heq
        exact (List.getElem?_eq_some_iff.1 found).1
  | moved i call answer client activating found move =>
      refine ⟨?_, fun j draws selection heq => absurd heq (move.owner.1 draws selection)⟩
      show _ ≤ (s.clients.set i _).length
      rw [List.length_set]
  | committed i client target replacement found held locked =>
      refine ⟨?_, nofun⟩
      show _ ≤ (s.clients.set i _).length
      rw [List.length_set]
  | dropped i client found =>
      refine ⟨?_, nofun⟩
      show _ ≤ (s.clients.set i _).length
      rw [List.length_set]
  | _ => exact ⟨Nat.le_refl _, nofun⟩

theorem Clients.step {log : PackLog} {s s' : PackSystem} {call : PackCall} {answer : PackAnswer}
    (h : Clients log s) (heffect : Effect s call answer s') :
    Clients (log ++ [(call, answer)]) s' := by
  obtain ⟨hlength, hissued⟩ := heffect.length_le
  refine ⟨heffect.logged h, fun i hi => ?_⟩
  rw [lastIssued_skip fun draws selection heq => ?_]
  · exact h.absent i (Nat.le_trans hlength hi)
  · exact absurd (hissued i draws selection heq) (Nat.not_lt.2 (Nat.le_trans hlength hi))

/-! ## Active sets -/

/-- A call that is there has been there, and only a commit changes what is active. -/
theorem Effect.active {s s' : PackSystem} {call : PackCall} {answer : PackAnswer}
    (h : Effect s call answer s') {i : Nat} {client' : PackActivationClient}
    (hi : i < s.clients.length) (hclient : s'.clients[i]? = some (some client')) :
    ∃ client, s.clients[i]? = some (some client) ∧
      (client'.active = client.active ∨
        ∃ stamp, (call, answer) = (.commit i, .activated (.ok stamp))) := by
  cases h with
  | joined family selectionFamily =>
      dsimp only at hclient
      rw [List.getElem?_append_left hi] at hclient
      exact ⟨client', hclient, Or.inl rfl⟩
  | issued j draws client selection authority selectionClient found resting issue =>
      rcases getElem?_put (s := { s with authority }) found hclient with ⟨rfl, rfl⟩ | ⟨hj, hother⟩
      · exact ⟨client, found, Or.inl rfl⟩
      · exact ⟨client', hother, Or.inl rfl⟩
  | moved j call answer client activating found move =>
      rcases getElem?_put found hclient with ⟨rfl, rfl⟩ | ⟨hj, hother⟩
      · exact ⟨client, found, Or.inl rfl⟩
      · exact ⟨client', hother, Or.inl rfl⟩
  | committed j client target replacement found held locked =>
      rcases getElem?_put found hclient with ⟨rfl, rfl⟩ | ⟨hj, hother⟩
      · exact ⟨client, found, Or.inr ⟨_, rfl⟩⟩
      · exact ⟨client', hother, Or.inl rfl⟩
  | dropped j client found =>
      dsimp only at hclient
      by_cases hj : i = j
      · subst hj
        rw [List.getElem?_set_self hi] at hclient
        cases hclient
      · rw [List.getElem?_set_ne (Ne.symm hj)] at hclient
        exact ⟨client', hclient, Or.inl rfl⟩
  | _ => exact ⟨client', hclient, Or.inl rfl⟩

/-- A client keeps its active set while no `activate` of it succeeds. -/
theorem active_run {s : PackSystem} {i : Nat} {client client' : PackActivationClient}
    (calls : List PackCall) (hclient : s.clients[i]? = some (some client))
    (hlog : ∀ stamp, (.commit i, .activated (.ok stamp)) ∉ Mealy.log step s calls)
    (hclient' : (Mealy.after step s calls).clients[i]? = some (some client')) :
    client'.active = client.active := by
  have hkept : ∀ calls, (∀ stamp, (.commit i, .activated (.ok stamp)) ∉ Mealy.log step s calls) →
      i < (Mealy.after step s calls).clients.length ∧
        ∀ other, (Mealy.after step s calls).clients[i]? = some (some other) →
          other.active = client.active := by
    intro calls
    induction calls using List.reverseRec with
    | nil =>
        intro _
        refine ⟨(List.getElem?_eq_some_iff.1 hclient).1, fun other hother => ?_⟩
        rw [Mealy.after_nil, hclient] at hother
        cases hother
        rfl
    | append_singleton calls call ih =>
        intro hnone
        rw [Mealy.log_append] at hnone
        obtain ⟨hi, hsame⟩ := ih fun stamp hmem => hnone stamp (List.mem_append_left _ hmem)
        have heffect := step_effect (Mealy.after step s calls) call
        rw [Mealy.after_append]
        refine ⟨Nat.lt_of_lt_of_le hi heffect.length_le.1, fun other hother => ?_⟩
        obtain ⟨before, hbefore, hactive | ⟨stamp, hcommit⟩⟩ := heffect.active hi hother
        · rw [hactive]
          exact hsame before hbefore
        · refine absurd (List.mem_append_right _ ?_) (hnone stamp)
          rw [← hcommit]
          exact List.mem_singleton_self _
  exact (hkept calls hlog).2 client' hclient'

/-! ## Commits -/

/-- The target that a call is to commit, and the client. -/
def PackSystem.attempts (s : PackSystem) : PackCall → Option (Nat × PackActivationTarget)
  | .commitActivation i k => s.targets[k]?.map fun target => (i, target)
  | .commit i => (s.clients[i]?.join.bind fun client => client.activating.target).map
      fun target => (i, target)
  | _ => none

/-- The answer reports a commit. -/
def PackAnswer.commits : PackAnswer → Bool
  | .committed (.ok _) | .activated (.ok _) => true
  | _ => false

/-- A call that commits finds its target cached by its client, and current. -/
theorem Effect.commit {s s' : PackSystem} {call : PackCall} {answer : PackAnswer}
    (h : Effect s call answer s') (hcommits : answer.commits = true) :
    ∃ i client target, s.attempts call = some (i, target) ∧
      s.clients[i]? = some (some client) ∧ s.authority.state.closed = false ∧
      client.selection.cache = some target.selection ∧
      s.authority.state.Current client.selection.family target.selection := by
  cases h with
  | stay call answer refuses =>
      cases answer with
      | committed result => cases result <;> simp_all [PackAnswer.refuses, PackAnswer.commits]
      | activated result => cases result <;> simp_all [PackAnswer.refuses, PackAnswer.commits]
      | _ => cases hcommits
  | guarded i k client target found named locked =>
      obtain ⟨hopen, hcache, hcurrent⟩ := lockCurrentActivation_ok locked
      refine ⟨i, client, target, ?_, found, hopen, hcache, hcurrent⟩
      show s.targets[k]?.map _ = _
      rw [named]
      rfl
  | committed i client target replacement found held locked =>
      obtain ⟨hopen, hcache, hcurrent⟩ := lockCurrentActivation_ok locked
      refine ⟨i, client, target, ?_, found, hopen, hcache, hcurrent⟩
      show (s.clients[i]?.join.bind _).map _ = _
      rw [found]
      show (client.activating.target).map _ = _
      rw [held]
      rfl
  | moved i call answer client activating found move => cases move <;> cases hcommits
  | _ => cases hcommits

/-- After the authority has closed nothing is issued or committed. -/
theorem Effect.closed_refuses {s s' : PackSystem} {call : PackCall} {answer : PackAnswer}
    (h : Effect s call answer s') (hclosed : s.authority.state.closed = true) :
    s'.authority.state.closed = true ∧ answer.commits = false ∧
      ∀ selection, answer ≠ .issued (.ok selection) := by
  have hkept : s'.authority.state.closed = true := by
    by_contra hopen
    rw [Bool.not_eq_true] at hopen
    rw [h.open_before hopen] at hclosed
    cases hclosed
  refine ⟨hkept, ?_, ?_⟩
  · by_contra hcommits
    rw [Bool.not_eq_false] at hcommits
    obtain ⟨i, client, target, -, -, hopen, -⟩ := h.commit hcommits
    rw [hopen] at hclosed
    cases hclosed
  · rintro selection rfl
    cases h with
    | stay _ _ refuses => cases refuses
    | issued i draws client _ authority selectionClient found resting issue =>
        cases issue with
        | cached _ isOpen => rw [isOpen] at hclosed; cases hclosed
        | minted _ isOpen => rw [isOpen] at hclosed; cases hclosed
    | moved i _ _ client activating found move => cases move

theorem closed_run {s : PackSystem} (hclosed : s.authority.state.closed = true)
    (calls : List PackCall) :
    (Mealy.after step s calls).authority.state.closed = true ∧
      ∀ entry ∈ Mealy.log step s calls, entry.2.commits = false ∧
        ∀ selection, entry.2 ≠ .issued (.ok selection) :=
  Mealy.log_induction
    (I := fun (log : PackLog) (s : PackSystem) => s.authority.state.closed = true ∧
      ∀ entry ∈ log, entry.2.commits = false ∧
      ∀ selection, entry.2 ≠ .issued (.ok selection))
    ⟨hclosed, nofun⟩
    (fun log t call ⟨hclosed, hlog⟩ => by
      obtain ⟨hkept, hrefuses⟩ := (step_effect t call).closed_refuses hclosed
      refine ⟨hkept, fun entry hmem => ?_⟩
      rcases List.mem_append.1 hmem with hmem | hmem
      · exact hlog entry hmem
      · rw [List.mem_singleton.1 hmem]
        exact hrefuses) calls

/-! ## Runs -/

/-- What every run keeps. -/
structure Sound (log : PackLog) (s : PackSystem) : Prop where
  published : Published log s
  dated : Dated log s
  registered : Registered s
  clients : Clients log s

theorem new_sound_system : Sound [] PackSystem.new where
  published := ⟨List.Pairwise.nil, nofun, rfl⟩
  dated := by
    rintro target (⟨i, draws, hmem⟩ | ⟨i, stamp, hmem⟩) <;> cases hmem
  registered := fun _ => .nil slotStamp
  clients := ⟨fun i client hclient => absurd hclient (by simp [PackSystem.new]), fun _ _ => rfl⟩

/-- The log and the state of a run keep the invariant. -/
theorem run_sound (calls : List PackCall) :
    Sound (Mealy.log step .new calls) (Mealy.after step .new calls) :=
  Mealy.log_induction (I := Sound) new_sound_system
    (fun _ s call h =>
      have heffect := step_effect s call
      ⟨h.published.step heffect, h.dated.step heffect, h.registered.step heffect,
        h.clients.step heffect⟩) calls

/-! ## The protocol -/

/-- The client that a call is on. -/
def PackCall.owner : PackCall → Option Nat
  | .issue i _ | .beginActivation i _ | .commitActivation i _ | .activate i _ | .prepare i _
  | .cancel i | .beginCommit i _ | .commit i | .dropClient i => some i
  | .publish _ | .client _ _ | .dropCommit _ | .close => none

/-- What holds behind the calls, in the state `s` with the log `log`. -/
structure ActivationProtocol (log : PackLog) (s : PackSystem) : Prop where
  /-- Accepted revisions never decrease, and equal ones carry equal documents. -/
  documents : (accepted log).Pairwise Follows
  /-- While the authority is open, its live stamps are those of the live clients. -/
  stamps : s.authority.state.closed = false →
    (keys slotStamp s.clients).Nodup ∧
      s.authority.state.liveStamps = (keys slotStamp s.clients).toFinset
  /-- A commit is for the latest selection of its client, and that is current. -/
  commits : ∀ call, (step s call).1.commits = true →
    ∃ i client target, s.attempts call = some (i, target) ∧
      s.clients[i]? = some (some client) ∧ lastIssued i log = some target.selection ∧
      target.selection.revision = s.authority.state.revision ∧
      target.selection.packIds = s.authority.state.projection client.selection.family
  /-- A target from before a newer publication never commits. -/
  stale : ∀ later target document call i, Obtained log target →
    (.publish document, .published (.ok ())) ∈ Mealy.log step s later →
    s.authority.state.revision < revisionOf document →
    (Mealy.after step s later).attempts call = some (i, target) →
    (step (Mealy.after step s later) call).1.commits = false
  /-- An `activate` that succeeds leaves the set that its stamp names. -/
  succeeds : ∀ call stamp, (step s call).1 = .activated (.ok stamp) →
    ∃ i client target packs, call = .commit i ∧
      (step s call).2.clients[i]? = some (some client) ∧
      client.active = some ⟨target, packs⟩ ∧ packIdsOf packs = target.selection.packIds ∧
      lastIssued i log = some target.selection ∧ lastActivate i log = some stamp ∧
      target.selection.stamp = stamp
  /-- An `activate` that fails leaves the set that was active when it was called. -/
  fails : ∀ i stamp later call error client client', s.clients[i]? = some (some client) →
    (∀ entry ∈ Mealy.log step s (.activate i stamp :: later), entry.1.owner = some i →
      ∀ result, entry.2 ≠ .activated result) →
    (step (Mealy.after step s (.activate i stamp :: later)) call).1 = .activated (.error error) →
    (step (Mealy.after step s (.activate i stamp :: later)) call).2.clients[i]? =
      some (some client') →
    client'.active = client.active
  /-- So does one that fails at once, and everything else but a commit. -/
  keeps : ∀ i later client client', s.clients[i]? = some (some client) →
    (∀ stamp, (.commit i, .activated (.ok stamp)) ∉ Mealy.log step s later) →
    (Mealy.after step s later).clients[i]? = some (some client') →
    client'.active = client.active
  /-- Nothing is issued or committed after `close`. -/
  closed : (step s .close).1 = .done →
    ∀ later, ∀ entry ∈ Mealy.log step (step s .close).2 later, entry.2.commits = false ∧
      ∀ selection, entry.2 ≠ .issued (.ok selection)

theorem close_closes {s : PackSystem} (h : (step s .close).1 = .done) :
    (step s .close).2.authority.state.closed = true := by
  dsimp only [step] at h ⊢
  split at h
  · rename_i hfree
    rw [if_pos hfree]
    rfl
  · cases h

/-- A commit of an `activate` that succeeds. -/
theorem Effect.succeeded {s s' : PackSystem} {call : PackCall} {stamp : String}
    (h : Effect s call (.activated (.ok stamp)) s') :
    ∃ i client target replacement, call = .commit i ∧ s.clients[i]? = some (some client) ∧
      client.activating = .generationHeld target replacement ∧
      client.selection.cache = some target.selection ∧
      stamp = (client.replace target replacement).2 ∧
      s' = s.put i (client.replace target replacement).1 := by
  cases h with
  | stay _ _ refuses => cases refuses
  | moved i _ _ client activating found move => cases move
  | committed i client target replacement found held locked =>
      exact ⟨i, client, target, replacement, rfl, found, held, (lockCurrentActivation_ok locked).2.1,
        rfl, rfl⟩

/-- The protocol of selections and activations, over every order of calls. -/
theorem activation_protocol (calls : List PackCall) :
    ActivationProtocol (Mealy.log step .new calls) (Mealy.after step .new calls) := by
  have hsound := run_sound calls
  constructor
  · exact hsound.published.follows
  · intro hopen
    obtain ⟨hnodup, hlive⟩ := hsound.registered hopen
    exact ⟨hnodup, hlive⟩
  · intro call hcommits
    obtain ⟨i, client, target, hattempts, hclient, -, hcache, hrevision, hpacks⟩ :=
      (step_effect _ call).commit hcommits
    refine ⟨i, client, target, hattempts, hclient, ?_, hrevision, hpacks⟩
    rw [← (hsound.clients.logged i client hclient).cache]
    exact hcache
  · intro later target document call i hobtained hpublished hnewer hattempts
    by_contra hcommits
    rw [Bool.not_eq_false] at hcommits
    obtain ⟨j, client, other, hother, -, -, -, hrevision, -⟩ :=
      (step_effect _ call).commit hcommits
    rw [hattempts] at hother
    cases hother
    have hbefore := hsound.dated target hobtained
    -- the document is one of those accepted so far, so the revision has reached it
    have hlater := run_sound (calls ++ later)
    rw [Mealy.log_append, Mealy.after_append] at hlater
    have hreached := hlater.published.last document (by
      unfold accepted
      rw [List.mem_filterMap]
      exact ⟨_, List.mem_append_right _ hpublished, rfl⟩)
    have hle : revisionOf document ≤
        (Mealy.after step (Mealy.after step .new calls) later).authority.state.revision := hreached.1
    rw [hrevision] at hbefore
    exact absurd (Nat.lt_of_lt_of_le hnewer hle) (Nat.not_lt.2 hbefore)
  · intro call stamp hanswer
    have heffect := step_effect (Mealy.after step .new calls) call
    rw [hanswer] at heffect
    obtain ⟨i, client, target, replacement, hcall, hclient, hheld, hcache, hstamp, hnext⟩ :=
      heffect.succeeded
    have hlogged := hsound.clients.logged i client hclient
    obtain ⟨⟨packs, hactive, hpacks⟩, hreturned⟩ := replace_active hlogged.sound hheld
    rw [hreturned] at hstamp
    subst hstamp
    refine ⟨i, (client.replace target replacement).1, target, packs, hcall, ?_, hactive, hpacks, ?_,
      hlogged.stamp target ?_, rfl⟩
    · rw [hnext]
      exact List.getElem?_set_self (List.getElem?_eq_some_iff.1 hclient).1
    · rw [← hlogged.cache]
      exact hcache
    · rw [hheld]
      rfl
  · intro i stamp later call error client client' hclient hpending hanswer hclient'
    refine active_run ((.activate i stamp :: later) ++ [call]) hclient
      (fun other hmem => ?_) ?_
    · rw [Mealy.log_append] at hmem
      rcases List.mem_append.1 hmem with hmem | hmem
      · exact hpending _ hmem rfl _ rfl
      · have hentry := List.mem_singleton.1 hmem
        rw [hanswer] at hentry
        cases hentry
    · rw [Mealy.after_append]
      exact hclient'
  · intro i later client client' hclient hlog hclient'
    exact active_run later hclient hlog hclient'
  · intro hdone later
    exact (closed_run (close_closes hdone) later).2

-- one client that is issued a selection of no Packs, and activates it
example : (Mealy.log step .new [.client .Web .Web,
    .issue 0 (Vector.replicate 8 (some (Vector.replicate 16 7))),
    .activate 0 (encodeStamp (Vector.replicate 16 7)), .beginCommit 0 (.ok ()), .commit 0]).map
      (fun entry => entry.2.commits) = [false, false, false, false, true] := by
  decide +kernel

end MCode.Packs
