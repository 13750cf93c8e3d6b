import MCode.Edit.Occurrences

/-!
# What a literal operation plans

An operation succeeds just if no two occurrences overlap, their number suits the
pick and the budgets of matches and of replacement bytes are kept; then it plans
the occurrences that were picked, in the order of their places and between
characters.
-/

namespace MCode.Edit.Literal

open MCode.Lib MCode.Tools
open MCode.Lib.Results (bind_ok bind_unit_ok error_ne_ok mapError_ok)
open MCode.Lib.Spans (Apart)
open MCode.Files (Bytes isCharBoundary)
open MCode.Edit.Template (Failure USIZE_MAX)

/-! ## The order -/

instance : Std.Total Found.le := ⟨fun first second => by unfold Found.le; omega⟩

instance : IsTrans Found Found.le :=
  ⟨fun first second third h₁ h₂ => by unfold Found.le at *; omega⟩

theorem positional_perm (found : List Found) : (positional found).Perm found :=
  List.perm_insertionSort Found.le found

theorem positional_sorted (found : List Found) :
    (positional found).Pairwise fun a b => a.start ≤ b.start := by
  apply (List.pairwise_insertionSort Found.le found).imp
  intro a b hle
  unfold Found.le at hle
  omega

theorem rejectOverlappingCandidates_ok {found : List Found} :
    rejectOverlappingCandidates found = .ok () ↔ found.IsChain fun a b => a.stop ≤ b.start := by
  induction found with
  | nil => exact ⟨fun _ => List.IsChain.nil, fun _ => rfl⟩
  | cons first found ih =>
      cases found with
      | nil => exact ⟨fun _ => List.IsChain.singleton first, fun _ => rfl⟩
      | cons second found =>
          rw [List.isChain_cons_cons, ← ih, rejectOverlappingCandidates]
          by_cases hlt : second.start < first.stop
          · rw [if_pos hlt]
            exact ⟨fun h => (nomatch h), fun h => absurd h.1 (Nat.not_le.2 hlt)⟩
          · rw [if_neg hlt]
            exact ⟨fun h => ⟨Nat.not_lt.1 hlt, h⟩, fun h => h.2⟩

/-- No two occurrences overlap, of the same pattern or of different ones. -/
def DisjointOccurrences (haystack : Bytes) (patterns : List Bytes) : Prop :=
  ∀ first ∈ occurrences haystack patterns, ∀ second ∈ occurrences haystack patterns,
    first ≠ second → first.stop ≤ second.start ∨ second.stop ≤ first.start

variable {haystack : Bytes} {patterns : List Bytes} {found : List Found}

theorem reject_iff_disjoint (hne : ∀ needle ∈ patterns, needle ≠ [])
    (hperm : found.Perm (occurrences haystack patterns)) :
    rejectOverlappingCandidates (positional found) = .ok () ↔
      DisjointOccurrences haystack patterns := by
  have hall := (positional_perm found).trans hperm
  have hnodup := hall.nodup_iff.2 (occurrences_nodup haystack patterns)
  have hpos : ∀ f ∈ positional found, f.start < f.stop := fun f hf =>
    occurrence_lt hne (hall.mem_iff.1 hf)
  rw [rejectOverlappingCandidates_ok,
    Spans.isChain_iff_apart hpos (positional_sorted found) hnodup]
  constructor
  · intro h first hfirst second hsecond
    exact h first (hall.mem_iff.2 hfirst) second (hall.mem_iff.2 hsecond)
  · intro h first hfirst second hsecond
    exact h first (hall.mem_iff.1 hfirst) second (hall.mem_iff.1 hsecond)

/-- Sorting gives the occurrences in their order. -/
theorem positional_eq (hperm : found.Perm (occurrences haystack patterns))
    (hstarts : ∀ first ∈ occurrences haystack patterns, ∀ second ∈ occurrences haystack patterns,
      first ≠ second → first.start ≠ second.start) :
    positional found = occurrences haystack patterns := by
  have hall := (positional_perm found).trans hperm
  have hnodup := hall.nodup_iff.2 (occurrences_nodup haystack patterns)
  refine @Spans.eq_of_mem_iff _ Found.start _ _ ?_ ?_ ?_
  · have hboth := (positional_sorted found).and hnodup
    apply hboth.imp_of_mem
    intro a b ha hb ⟨hle, hne⟩
    exact Nat.lt_of_le_of_ne hle (hstarts a (hall.mem_iff.1 ha) b (hall.mem_iff.1 hb) hne)
  · have hboth := (occurrences_ascending haystack patterns).and (occurrences_nodup haystack patterns)
    apply hboth.imp_of_mem
    intro a b ha hb ⟨hle, hne⟩
    have hdiffer := hstarts a ha b hb hne
    omega
  · exact fun a => hall.mem_iff

theorem starts_of_disjoint (hne : ∀ needle ∈ patterns, needle ≠ [])
    (h : DisjointOccurrences haystack patterns) :
    ∀ first ∈ occurrences haystack patterns, ∀ second ∈ occurrences haystack patterns,
      first ≠ second → first.start ≠ second.start := by
  intro first hfirst second hsecond hdiffer heq
  have hpos := occurrence_lt hne hfirst
  have hpos' := occurrence_lt hne hsecond
  rcases h first hfirst second hsecond hdiffer with hbefore | hbehind
  · omega
  · omega

/-- One pattern occurs once at a place. -/
theorem starts_of_single {needle : Bytes} (hne : needle ≠ []) :
    ∀ first ∈ occurrences haystack [needle], ∀ second ∈ occurrences haystack [needle],
      first ≠ second → first.start ≠ second.start := by
  have hone : ∀ needle' ∈ [needle], needle' ≠ [] := fun _ h => List.mem_singleton.1 h ▸ hne
  have hshape : ∀ f ∈ occurrences haystack [needle],
      f.patternId = 0 ∧ f.stop = f.start + needle.length := by
    intro f hf
    obtain ⟨pattern, hat, -, hstop⟩ := (mem_occurrences hone).1 hf
    obtain ⟨hlt, heq⟩ := List.getElem?_eq_some_iff.1 hat
    have hmem := List.mem_of_getElem? hat
    rw [List.mem_singleton.1 hmem] at hstop
    rw [List.length_singleton] at hlt
    exact ⟨by omega, hstop⟩
  rintro ⟨start, stop, patternId⟩ hfirst ⟨start', stop', patternId'⟩ hsecond hdiffer heq
  obtain ⟨hid, hstop⟩ := hshape _ hfirst
  obtain ⟨hid', hstop'⟩ := hshape _ hsecond
  dsimp only at hid hid' hstop hstop' heq
  subst hid hid' heq hstop hstop'
  exact hdiffer rfl

/-- Both searches of one pattern come to the same. -/
theorem searches_single {s : Searchers} (hexact : s.Exact) {needle : Bytes} (hne : needle ≠ [])
    (hshort : needle.length ≤ MAX_PATTERN_BYTES) (haystack : Bytes) :
    (memmemMatches s haystack needle).map positional =
      (acMatches s haystack [needle]).map positional := by
  have hone : ∀ needle' ∈ [needle], needle' ≠ [] ∧ needle'.length ≤ MAX_PATTERN_BYTES :=
    fun _ h => List.mem_singleton.1 h ▸ ⟨hne, hshort⟩
  obtain ⟨left, hleft, hmemmem⟩ := memmemMatches_searches hexact hne haystack
  have hfew : [needle].length ≤ MAX_LITERAL_PATTERNS := by
    rw [List.length_singleton]
    decide
  obtain ⟨right, hright, hac⟩ := acMatches_searches hexact hfew hone haystack
  have hlength : left.length = right.length := (hleft.trans hright.symm).length_eq
  have hsame : positional left = positional right := by
    rw [positional_eq hleft (starts_of_single hne), positional_eq hright (starts_of_single hne)]
  rw [hmemmem, hac, hlength]
  split
  · show Except.ok (positional left) = Except.ok (positional right)
    rw [hsame]
  · rfl

/-! ## Picking -/

/-- How many occurrences a pick allows. -/
def Pick.Fits : Pick → Nat → Prop
  | .Unique, count => count = 1
  | .All, count => 0 < count
  | .Nth n _, count => n ≤ count

/-- What is picked of the occurrences; `nth` counts by their places. -/
def Pick.chosen : Pick → List Found → List Found
  | .Unique, found => found
  | .All, found => found
  | .Nth n _, found => found[n - 1]?.toList

theorem selectMatches_ok {pick : Pick} {label : String} {chosen : List Found} :
    selectMatches found pick label = .ok chosen ↔
      pick.Fits found.length ∧ chosen = pick.chosen found := by
  cases pick with
  | Unique =>
      unfold selectMatches
      change _ ↔ found.length = 1 ∧ chosen = found
      dsimp only
      split
      · rename_i hlength
        rw [hlength]
        simp
      · rename_i hlength
        rw [hlength, Except.ok.injEq, eq_comm]
        simp
      · rename_i n hzero hone
        exact iff_of_false error_ne_ok fun h => hone h.1
  | All =>
      show (if found.isEmpty then Except.error (notFound label) else .ok found) = .ok chosen ↔
        0 < found.length ∧ chosen = found
      cases found with
      | nil => simp
      | cons first found => simp [eq_comm]
  | Nth n atLeast =>
      unfold selectMatches
      change _ ↔ n ≤ found.length ∧ chosen = found[n - 1]?.toList
      dsimp only
      cases hat : found[n - 1]? with
      | none =>
          rw [List.getElem?_eq_none_iff] at hat
          exact iff_of_false error_ne_ok fun h => by omega
      | some first =>
          obtain ⟨hlt, -⟩ := List.getElem?_eq_some_iff.1 hat
          show Except.ok [first] = .ok chosen ↔ _ ∧ chosen = [first]
          rw [Except.ok.injEq, eq_comm]
          exact ⟨fun h => ⟨by omega, h⟩, fun h => h.2⟩

theorem mem_chosen {pick : Pick} {f : Found} (h : f ∈ pick.chosen found) : f ∈ found := by
  cases pick with
  | Unique => exact h
  | All => exact h
  | Nth n atLeast => exact List.mem_of_getElem? (Option.mem_toList.1 h)

/-! ## Reserving -/

/-- What an occurrence is replaced by. -/
def replacementOf (op : LiteralOp) (found : Found) : Bytes :=
  Utf8.encode (op.needles.replacements[found.patternId]?.getD [])

def plannedAt (op : LiteralOp) (bomLen : Nat) (found : Found) : Planned :=
  ⟨found.start + bomLen, found.stop + bomLen, replacementOf op found⟩

def chosenBytes (op : LiteralOp) (chosen : List Found) : Nat :=
  (chosen.map fun found => (replacementOf op found).length).sum

/-- The plan with the chosen occurrences behind it, within the budgets. -/
structure Reserves (op : LiteralOp) (bomLen : Nat) (plan : Plan) (chosen : List Found)
    (plan' : Plan) : Prop where
  room : plan.planned.length + chosen.length ≤ MAX_MATCHES
  bytes : plan.replacementBytes + chosenBytes op chosen ≤ MAX_WRITE_BYTES
  planned : plan'.planned = plan.planned ++ chosen.map (plannedAt op bomLen)
  replacementBytes : plan'.replacementBytes = plan.replacementBytes + chosenBytes op chosen

theorem reservePlanned_ok {plan plan' : Plan} {start stop : Nat} {replacement : Bytes} :
    reservePlanned plan start stop replacement = .ok plan' ↔
      plan.planned.length + 1 ≤ MAX_MATCHES ∧
        plan.replacementBytes + replacement.length ≤ MAX_WRITE_BYTES ∧
        plan'.planned = plan.planned ++ [⟨start, stop, replacement⟩] ∧
        plan'.replacementBytes = plan.replacementBytes + replacement.length := by
  have hfits : MAX_WRITE_BYTES < USIZE_MAX := by decide
  unfold reservePlanned
  dsimp only
  split
  · exact iff_of_false (fun h => nomatch h) fun h => by omega
  · split
    · exact iff_of_false (fun h => nomatch h) fun h => by omega
    · rename_i hfew hsmall
      have hsum : min USIZE_MAX (plan.replacementBytes + replacement.length) =
          plan.replacementBytes + replacement.length := by omega
      rw [Except.ok.injEq, Plan.ext_iff]
      dsimp only
      rw [hsum]
      constructor
      · intro h
        exact ⟨by omega, by omega, h.1.symm, h.2.symm⟩
      · intro h
        exact ⟨h.2.2.1.symm, h.2.2.2.symm⟩

theorem reserveFound_ok {op : LiteralOp} {bomLen : Nat} {plan plan' : Plan} {f : Found}
    (hid : f.patternId < op.needles.replacements.length) :
    reserveFound op bomLen plan f = .ok plan' ↔ Reserves op bomLen plan [f] plan' := by
  have hreplacement : replacementOf op f =
      Utf8.encode (op.needles.replacements.get ⟨f.patternId, hid⟩) := by
    unfold replacementOf
    rw [List.getElem?_eq_getElem hid]
    rfl
  have hbytes : chosenBytes op [f] = (replacementOf op f).length := Nat.add_zero _
  unfold reserveFound
  rw [List.getElem?_eq_getElem hid]
  show (reservePlanned plan (f.start + bomLen) (f.stop + bomLen)
    (Utf8.encode (op.needles.replacements.get ⟨f.patternId, hid⟩))).mapError Failure.Error = _ ↔ _
  rw [mapError_ok, ← hreplacement, reservePlanned_ok]
  constructor
  · intro h
    exact ⟨h.1, hbytes ▸ h.2.1, h.2.2.1, hbytes ▸ h.2.2.2⟩
  · intro h
    exact ⟨h.room, hbytes ▸ h.bytes, h.planned, hbytes ▸ h.replacementBytes⟩

/-- One round after the other. -/
theorem foldlM_reserveFound {op : LiteralOp} {bomLen : Nat} {plan plan' : Plan}
    {chosen : List Found} (hids : ∀ f ∈ chosen, f.patternId < op.needles.replacements.length) :
    chosen.foldlM (reserveFound op bomLen) plan = .ok plan' ↔
      Reserves op bomLen plan chosen plan' := by
  induction chosen generalizing plan with
  | nil =>
      show Except.ok plan = .ok plan' ↔ _
      rw [Except.ok.injEq]
      constructor
      · rintro rfl
        exact ⟨plan.few, plan.small, (List.append_nil _).symm, rfl⟩
      · intro h
        exact Plan.ext (h.planned.trans (List.append_nil _)).symm h.replacementBytes.symm
  | cons f chosen ih =>
      have hbytes : chosenBytes op (f :: chosen) =
          (replacementOf op f).length + chosenBytes op chosen := rfl
      have hone : chosenBytes op [f] = (replacementOf op f).length := Nat.add_zero _
      have hrest := fun g hg => hids g (List.mem_cons_of_mem _ hg)
      rw [List.foldlM_cons, bind_ok]
      simp only [reserveFound_ok (hids f List.mem_cons_self), ih hrest]
      constructor
      · rintro ⟨middle, hfirst, hmore⟩
        have hlength := congrArg List.length hfirst.planned
        have hroom := hmore.room
        have hfits := hmore.bytes
        rw [List.length_append, List.length_map, List.length_singleton] at hlength
        rw [hfirst.replacementBytes, hone] at hfits
        constructor
        · rw [List.length_cons]
          omega
        · omega
        · rw [hmore.planned, hfirst.planned, List.append_assoc]
          rfl
        · rw [hmore.replacementBytes, hfirst.replacementBytes, hone]
          omega
      · intro h
        have hroom := h.room
        have hfits := h.bytes
        rw [List.length_cons] at hroom
        rw [hbytes] at hfits
        let middle : Plan :=
          { planned := plan.planned ++ [plannedAt op bomLen f]
            replacementBytes := plan.replacementBytes + (replacementOf op f).length
            few := by rw [List.length_append, List.length_singleton]; omega
            small := by omega }
        refine ⟨middle, ⟨by rw [List.length_singleton]; omega, by omega, rfl, by rw [hone]⟩, ?_⟩
        constructor
        · show (plan.planned ++ [plannedAt op bomLen f]).length + _ ≤ _
          rw [List.length_append, List.length_singleton]
          omega
        · show plan.replacementBytes + (replacementOf op f).length + _ ≤ _
          omega
        · rw [h.planned]
          show _ = (plan.planned ++ [plannedAt op bomLen f]) ++ _
          rw [List.append_assoc]
          rfl
        · rw [h.replacementBytes, hbytes]
          show _ = plan.replacementBytes + (replacementOf op f).length + _
          omega

/-! ## Between characters -/

theorem encode_ne_nil {text : Text} (h : text ≠ []) : Utf8.encode text ≠ [] := by
  cases text with
  | nil => exact absurd rfl h
  | cons c text =>
      obtain ⟨first, rest, hchar, -⟩ := Utf8.takeChar_encodeChar c []
      rw [Utf8.encode_cons, hchar]
      exact List.cons_ne_nil _ _

/-- The characters of a literal match are characters of the text. -/
theorem occurrence_boundary {body : Text} {patterns : List Text} (hne : ∀ p ∈ patterns, p ≠ [])
    {f : Found} (h : f ∈ occurrences (Utf8.encode body) (patterns.map Utf8.encode)) :
    ∃ front pattern rest, body = front ++ (pattern ++ rest) ∧
      f.start = (Utf8.encode front).length ∧ f.stop = (Utf8.encode (front ++ pattern)).length := by
  have hbytes : ∀ needle ∈ patterns.map Utf8.encode, needle ≠ [] := by
    intro needle hneedle
    obtain ⟨p, hp, rfl⟩ := List.mem_map.1 hneedle
    exact encode_ne_nil (hne p hp)
  obtain ⟨needle, hat, hoccurs, hstop⟩ := (mem_occurrences hbytes).1 h
  have hneedle := List.mem_of_getElem? hat
  have hnonempty := hbytes needle hneedle
  have hle := occursAt_lt hnonempty hoccurs
  obtain ⟨pattern, -, rfl⟩ := List.mem_map.1 hneedle
  obtain ⟨more, hmore⟩ := List.isPrefixOf_iff_prefix.1 hoccurs
  have hsplit : Utf8.encode body =
      (Utf8.encode body).take f.start ++ (Utf8.encode pattern ++ more) := by
    rw [hmore, List.take_append_drop]
  have hhead : ∀ byte ∈ (Utf8.encode pattern ++ more).head?, Utf8.isContinuation byte = false := by
    intro byte hbyte
    cases hpattern : Utf8.encode pattern with
    | nil => exact absurd hpattern hnonempty
    | cons first rest =>
        rw [hpattern] at hbyte
        rw [← Option.some.inj hbyte]
        exact Utf8.encode_head hpattern
  obtain ⟨front, behind, rfl, hfront, hbehind⟩ := Utf8.encode_cut hsplit hhead
  obtain ⟨rest, rfl, -⟩ := Utf8.encode_front hbehind
  have hstart : f.start = (Utf8.encode front).length := by
    rw [hfront, List.length_take]
    omega
  refine ⟨front, pattern, rest, rfl, hstart, ?_⟩
  rw [hstop, hstart, Utf8.encode_append, List.length_append]

theorem stripBom_eq (snapshot : Text) :
    snapshot = (if (stripBom snapshot).1 then ['\uFEFF'] else []) ++ (stripBom snapshot).2 := by
  cases snapshot with
  | nil => rfl
  | cons c rest =>
      have hstrip : stripBom (c :: rest) =
          if c = '\uFEFF' then (true, rest) else (false, c :: rest) := rfl
      rw [hstrip]
      by_cases hbom : c = '\uFEFF'
      · rw [if_pos hbom, hbom]
        rfl
      · rw [if_neg hbom]
        rfl

/-- The bytes in front of the body. -/
def bomLength (snapshot : Text) : Nat := if (stripBom snapshot).1 then UTF8_BOM.length else 0

theorem plannedAt_boundary {snapshot : Text} {op : LiteralOp} {f : Found}
    (h : f ∈ occurrences (Utf8.encode (stripBom snapshot).2)
      (op.needles.patterns.map Utf8.encode)) :
    isCharBoundary (Utf8.encode snapshot) (f.start + bomLength snapshot) = true ∧
      isCharBoundary (Utf8.encode snapshot) (f.stop + bomLength snapshot) = true := by
  obtain ⟨front, pattern, rest, hbody, hstart, hstop⟩ :=
    occurrence_boundary op.needles.nonempty h
  have hsnapshot := stripBom_eq snapshot
  have hmark : (Utf8.encode (if (stripBom snapshot).1 then ['\uFEFF'] else [])).length =
      bomLength snapshot := by
    unfold bomLength
    split
    · decide
    · rfl
  generalize (if (stripBom snapshot).1 then ['\uFEFF'] else []) = mark at hsnapshot hmark
  rw [hbody] at hsnapshot
  constructor
  · have hfront := Template.boundary (mark ++ front) (pattern ++ rest)
    rw [List.append_assoc, ← hsnapshot, Utf8.encode_append, List.length_append, hmark, ← hstart,
      Nat.add_comm] at hfront
    exact hfront
  · have hfront := Template.boundary (mark ++ (front ++ pattern)) rest
    rw [List.append_assoc, List.append_assoc, ← hsnapshot, Utf8.encode_append, List.length_append,
      hmark, ← hstop, Nat.add_comm] at hfront
    exact hfront

/-! ## Operations -/

def LiteralOp.needleBytes (op : LiteralOp) : List Bytes := op.needles.patterns.map Utf8.encode

/-- The text without its mark. -/
def bodyOf (snapshot : Text) : Bytes := Utf8.encode (stripBom snapshot).2

theorem needleBytes_bounds (op : LiteralOp) {needle : Bytes} (h : needle ∈ op.needleBytes) :
    needle ≠ [] ∧ needle.length ≤ MAX_PATTERN_BYTES := by
  obtain ⟨pattern, hpattern, rfl⟩ := List.mem_map.1 h
  exact ⟨encode_ne_nil (op.needles.nonempty pattern hpattern), op.needles.short pattern hpattern⟩

theorem planLiteral_ok {s : Searchers} (hexact : s.Exact) {snapshot : Text} {op : LiteralOp}
    {plan plan' : Plan} :
    planLiteral s snapshot op plan = .ok plan' ↔
      (occurrences (bodyOf snapshot) op.needleBytes).length ≤ MAX_MATCHES ∧
        DisjointOccurrences (bodyOf snapshot) op.needleBytes ∧
        op.pick.Fits (occurrences (bodyOf snapshot) op.needleBytes).length ∧
        Reserves op (bomLength snapshot) plan
          (op.pick.chosen (occurrences (bodyOf snapshot) op.needleBytes)) plan' := by
  have hne : ∀ needle ∈ op.needleBytes, needle ≠ [] := fun _ h => (needleBytes_bounds op h).1
  have hfew : op.needleBytes.length ≤ MAX_LITERAL_PATTERNS := by
    unfold LiteralOp.needleBytes
    rw [List.length_map]
    exact op.needles.few
  obtain ⟨found, hperm, hsearch⟩ := literalMatches_searches hexact hfew
    (fun needle h => needleBytes_bounds op h) (bodyOf snapshot)
  have hids : ∀ f ∈ op.pick.chosen (occurrences (bodyOf snapshot) op.needleBytes),
      f.patternId < op.needles.replacements.length := by
    intro f hf
    obtain ⟨needle, hat, -⟩ := (mem_occurrences hne).1 (mem_chosen hf)
    obtain ⟨hlt, -⟩ := List.getElem?_eq_some_iff.1 hat
    unfold LiteralOp.needleBytes at hlt
    rw [List.length_map, op.needles.paired] at hlt
    exact hlt
  show ((literalMatches s (bodyOf snapshot) op.needleBytes).mapError Failure.Error >>= fun found =>
    (rejectOverlappingCandidates (positional found)).mapError Failure.Error >>= fun _ =>
    (selectMatches (positional found) op.pick "literal").mapError Failure.Error >>= fun chosen =>
    chosen.foldlM (reserveFound op (bomLength snapshot)) plan) = .ok plan' ↔ _
  rw [bind_ok]
  simp only [mapError_ok]
  constructor
  · rintro ⟨all, hall, h⟩
    rw [hsearch] at hall
    split at hall
    · rename_i hcount
      cases hall
      rw [bind_unit_ok, mapError_ok, reject_iff_disjoint hne hperm, bind_ok] at h
      obtain ⟨hdisjoint, chosen, hselect, hreserve⟩ := h
      rw [mapError_ok, positional_eq hperm (starts_of_disjoint hne hdisjoint), selectMatches_ok]
        at hselect
      obtain ⟨hfits, rfl⟩ := hselect
      exact ⟨hperm.length_eq ▸ hcount, hdisjoint, hfits, (foldlM_reserveFound hids).1 hreserve⟩
    · cases hall
  · rintro ⟨hcount, hdisjoint, hfits, hreserves⟩
    refine ⟨found, ?_, ?_⟩
    · rw [hsearch, if_pos (hperm.length_eq ▸ hcount)]
    · rw [bind_unit_ok, mapError_ok, reject_iff_disjoint hne hperm, bind_ok]
      refine ⟨hdisjoint, op.pick.chosen (occurrences (bodyOf snapshot) op.needleBytes), ?_,
        (foldlM_reserveFound hids).2 hreserves⟩
      rw [mapError_ok, positional_eq hperm (starts_of_disjoint hne hdisjoint), selectMatches_ok]
      exact ⟨hfits, rfl⟩

/-- Plans with these contents exist within the budgets. -/
theorem exists_reserves {op : LiteralOp} {bomLen : Nat} {plan : Plan} {chosen : List Found} :
    (∃ plan', Reserves op bomLen plan chosen plan') ↔
      plan.planned.length + chosen.length ≤ MAX_MATCHES ∧
        plan.replacementBytes + chosenBytes op chosen ≤ MAX_WRITE_BYTES := by
  constructor
  · rintro ⟨plan', h⟩
    exact ⟨h.room, h.bytes⟩
  · rintro ⟨hroom, hbytes⟩
    refine ⟨{
      planned := plan.planned ++ chosen.map (plannedAt op bomLen)
      replacementBytes := plan.replacementBytes + chosenBytes op chosen
      few := ?_
      small := hbytes }, hroom, hbytes, rfl, rfl⟩
    rw [List.length_append, List.length_map]
    exact hroom

/-- A literal operation succeeds just if no two occurrences overlap, their number suits
the pick and the budgets are kept.  It plans what was picked, in the order of the places and
between characters.  For one pattern both searches come to the same. -/
theorem literal_operation_plans (s : Searchers) (hexact : s.Exact) (snapshot : Text)
    (op : LiteralOp) (plan : Plan) :
    ((∃ plan', planLiteral s snapshot op plan = .ok plan') ↔
      DisjointOccurrences (bodyOf snapshot) op.needleBytes ∧
        op.pick.Fits (occurrences (bodyOf snapshot) op.needleBytes).length ∧
        (occurrences (bodyOf snapshot) op.needleBytes).length ≤ MAX_MATCHES ∧
        plan.planned.length +
          (op.pick.chosen (occurrences (bodyOf snapshot) op.needleBytes)).length ≤ MAX_MATCHES ∧
        plan.replacementBytes +
          chosenBytes op (op.pick.chosen (occurrences (bodyOf snapshot) op.needleBytes)) ≤
            MAX_WRITE_BYTES) ∧
    (∀ plan', planLiteral s snapshot op plan = .ok plan' →
      plan'.planned = plan.planned ++
        (op.pick.chosen (occurrences (bodyOf snapshot) op.needleBytes)).map
          (plannedAt op (bomLength snapshot)) ∧
      ∀ f ∈ op.pick.chosen (occurrences (bodyOf snapshot) op.needleBytes),
        isCharBoundary (Utf8.encode snapshot) (plannedAt op (bomLength snapshot) f).start = true ∧
        isCharBoundary (Utf8.encode snapshot) (plannedAt op (bomLength snapshot) f).stop = true) ∧
    (∀ needle haystack, needle ≠ [] → needle.length ≤ MAX_PATTERN_BYTES →
      (memmemMatches s haystack needle).map positional =
        (acMatches s haystack [needle]).map positional) := by
  refine ⟨?_, ?_, fun needle haystack hne hshort => searches_single hexact hne hshort haystack⟩
  · constructor
    · rintro ⟨plan', h⟩
      obtain ⟨hcount, hdisjoint, hfits, hreserves⟩ := (planLiteral_ok hexact).1 h
      exact ⟨hdisjoint, hfits, hcount, hreserves.room, hreserves.bytes⟩
    · rintro ⟨hdisjoint, hfits, hcount, hroom, hbytes⟩
      obtain ⟨plan', hreserves⟩ := (@exists_reserves op (bomLength snapshot) plan _).2 ⟨hroom, hbytes⟩
      exact ⟨plan', (planLiteral_ok hexact).2 ⟨hcount, hdisjoint, hfits, hreserves⟩⟩
  · intro plan' h
    obtain ⟨-, -, -, hreserves⟩ := (planLiteral_ok hexact).1 h
    exact ⟨hreserves.planned, fun f hf => plannedAt_boundary (mem_chosen hf)⟩

/-- The second by the places, though the first of the patterns. -/
def secondOp : LiteralOp where
  needles := {
    patterns := [['b', 'a', 'r'], ['f', 'o', 'o']]
    replacements := [['x'], ['y']]
    present := List.cons_ne_nil _ _
    few := by decide
    paired := rfl
    nonempty := by decide
    short := by decide }
  pick := .Nth 2 (Nat.le_succ 1)

theorem literal_operation_plans_second :
    ∃ plan', planLiteral scanning ['\uFEFF', 'f', 'o', 'o', ' ', 'b', 'a', 'r'] secondOp Plan.empty =
        .ok plan' ∧ plan'.planned = [⟨7, 10, Utf8.encode ['x']⟩] := by
  have hplans := literal_operation_plans scanning scanning_exact
    ['\uFEFF', 'f', 'o', 'o', ' ', 'b', 'a', 'r'] secondOp Plan.empty
  have hoccurrences : occurrences (bodyOf ['\uFEFF', 'f', 'o', 'o', ' ', 'b', 'a', 'r'])
      secondOp.needleBytes = [⟨0, 3, 1⟩, ⟨4, 7, 0⟩] := by decide
  unfold DisjointOccurrences at hplans
  rw [hoccurrences] at hplans
  obtain ⟨plan', h⟩ := hplans.1.2 (by
    refine ⟨by decide, show 2 ≤ 2 by decide, by decide, by decide, by decide⟩)
  refine ⟨plan', h, ?_⟩
  rw [(hplans.2.1 plan' h).1]
  decide

/-! ## More matches than the budget -/

def eachOp : LiteralOp where
  needles := {
    patterns := [['a']]
    replacements := [['b']]
    present := List.cons_ne_nil _ _
    few := by decide
    paired := rfl
    nonempty := by decide
    short := by decide }
  pick := .All

theorem bodyOf_replicate (n : Nat) :
    bodyOf (List.replicate (n + 1) 'a') = List.replicate (n + 1) 97 := by
  have hencode : ∀ m : Nat, Utf8.encode (List.replicate m 'a') = List.replicate m 97 := by
    intro m
    induction m with
    | zero => rfl
    | succ m ih =>
        rw [List.replicate_succ, List.replicate_succ, Utf8.encode_cons, ih]
        rfl
  have hstrip : stripBom (List.replicate (n + 1) 'a') = (false, List.replicate (n + 1) 'a') := by
    rw [List.replicate_succ]
    rfl
  unfold bodyOf
  rw [hstrip, hencode]

theorem occurrences_replicate (n : Nat) :
    occurrences (List.replicate n 97) [[97]] = (List.range n).map fun i => ⟨i, i + 1, 0⟩ := by
  rw [List.map_eq_flatMap]
  unfold occurrences
  rw [List.length_replicate]
  apply List.flatMap_congr
  intro i hi
  have hlt := List.mem_range.1 hi
  have hoccurs : occursAt (List.replicate n 97) [97] i = true := by
    obtain ⟨k, hk⟩ : ∃ k, n - i = k + 1 := ⟨n - i - 1, by omega⟩
    unfold occursAt
    rw [List.drop_replicate, hk]
    rfl
  rw [foundAt_single, if_pos hoccurs]
  rfl

/-- No occurrence overlaps another, and still the operation is refused. -/
theorem disjoint_operation_refused :
    prepareLiteral (some ['a']) (some ['b']) none none .All none = .ok eachOp ∧
      DisjointOccurrences (bodyOf (List.replicate (MAX_MATCHES + 1) 'a')) eachOp.needleBytes ∧
      eachOp.pick.Fits
        (occurrences (bodyOf (List.replicate (MAX_MATCHES + 1) 'a')) eachOp.needleBytes).length ∧
      planLiteral scanning (List.replicate (MAX_MATCHES + 1) 'a') eachOp Plan.empty =
        .error (.Error tooManyMatches) := by
  have hneedles : eachOp.needleBytes = [[97]] := rfl
  have hall := occurrences_replicate (MAX_MATCHES + 1)
  rw [← bodyOf_replicate, ← hneedles] at hall
  have hlength : (occurrences (bodyOf (List.replicate (MAX_MATCHES + 1) 'a'))
      eachOp.needleBytes).length = MAX_MATCHES + 1 := by
    rw [hall, List.length_map, List.length_range]
  refine ⟨rfl, ?_, ?_, ?_⟩
  · intro first hfirst second hsecond hne
    rw [hall] at hfirst hsecond
    obtain ⟨i, -, rfl⟩ := List.mem_map.1 hfirst
    obtain ⟨j, -, rfl⟩ := List.mem_map.1 hsecond
    have hdiffer : i ≠ j := fun h => hne (by rw [h])
    show i + 1 ≤ j ∨ j + 1 ≤ i
    omega
  · show 0 < (occurrences (bodyOf (List.replicate (MAX_MATCHES + 1) 'a')) eachOp.needleBytes).length
    rw [hlength]
    exact Nat.succ_pos _
  · obtain ⟨found, hperm, hsearch⟩ := memmemMatches_searches scanning_exact
      (List.cons_ne_nil 97 []) (bodyOf (List.replicate (MAX_MATCHES + 1) 'a'))
    have hmany : ¬ found.length ≤ MAX_MATCHES := by
      rw [hperm.length_eq, ← hneedles, hlength]
      omega
    rw [if_neg hmany] at hsearch
    show ((memmemMatches scanning (bodyOf (List.replicate (MAX_MATCHES + 1) 'a')) [97]).mapError
      Failure.Error >>= _) = _
    rw [hsearch]
    rfl

end MCode.Edit.Literal
