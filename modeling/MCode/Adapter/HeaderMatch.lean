import MCode.Lib.Results
import MCode.Adapter.Headers

/-!
# Which headers a rule list takes

`validate_headers` goes through the rules and the headers side by side and
moves on in the headers only where a rule takes one.  `HeadersFit` says, with no
order in it, what the rules ask of the headers; the walk agrees with it because
both lists ascend by name: a rule that passes a header by leaves no later rule
that could name it.
-/

namespace MCode.Adapter

open MCode.Validation (ValidationResult notAfter)
open MCode.Lib.Results

/-- The order of names, which is the order of their bytes. -/
def NameBefore (a b : String) : Prop := a.toList < b.toList

theorem NameBefore.trans {a b c : String} (hab : NameBefore a b) (hbc : NameBefore b c) :
    NameBefore a c := lt_trans (a := a.toList) hab hbc

theorem NameBefore.ne {a b : String} (h : NameBefore a b) : a ≠ b := by
  intro heq
  subst heq
  exact lt_irrefl a.toList h

def OrdinaryHeaderRule.name : OrdinaryHeaderRule → String
  | .Fixed rule => rule.name
  | .OneOf rule => rule.name

/-- The rules of an accepted contract ascend by name. -/
def AscendingRules (rules : List OrdinaryHeaderRule) : Prop :=
  rules.Pairwise fun a b => NameBefore a.name b.name

/-- The headers of an accepted request ascend by name. -/
def AscendingHeaders (headers : List OrdinaryHeader) : Prop :=
  headers.Pairwise fun a b => NameBefore a.name b.name

/-- What the checks of one header ask. -/
structure OrdinaryHeader.Valid (header : OrdinaryHeader) : Prop where
  name : validateHeaderName header.name = .ok ()
  value : validateHeaderValue header.value = .ok ()
  allowed : deniedHeader header.name [] = false

/-- What the rules ask of the headers. -/
structure HeadersFit (rules : List OrdinaryHeaderRule) (headers : List OrdinaryHeader) : Prop where
  unfixed : ∀ header ∈ headers, ∀ rule, .Fixed rule ∈ rules → header.name ≠ rule.name
  named : ∀ header ∈ headers, ∃ rule, .OneOf rule ∈ rules ∧ rule.name = header.name ∧
    header.value ∈ rule.values
  present : ∀ rule, .OneOf rule ∈ rules → rule.required = true →
    ∃ header ∈ headers, header.name = rule.name

namespace HeadersFit

variable {rules : List OrdinaryHeaderRule} {headers : List OrdinaryHeader}

theorem nil_iff : HeadersFit [] headers ↔ headers = [] := by
  constructor
  · intro h
    apply List.eq_nil_iff_forall_not_mem.2
    intro header hmem
    obtain ⟨rule, hrule, -⟩ := h.named header hmem
    exact absurd hrule (List.not_mem_nil)
  · rintro rfl
    exact ⟨by simp, by simp, by simp⟩

/-- Every header has the name of one of the rules. -/
theorem exists_rule (h : HeadersFit rules headers) {header : OrdinaryHeader}
    (hmem : header ∈ headers) : ∃ rule ∈ rules, rule.name = header.name := by
  obtain ⟨rule, hrule, hname, -⟩ := h.named header hmem
  exact ⟨.OneOf rule, hrule, hname⟩

/-- No header comes before every rule. -/
theorem rule_before {rule : OrdinaryHeaderRule} (h : HeadersFit rules headers)
    (hbefore : ∀ other ∈ rules, NameBefore rule.name other.name) {header : OrdinaryHeader}
    (hmem : header ∈ headers) : NameBefore rule.name header.name := by
  obtain ⟨other, hother, hname⟩ := h.exists_rule hmem
  rw [← hname]
  exact hbefore other hother

/-- A rule that takes no header is as good as absent, if it does not ask for one. -/
theorem cons_unnamed {rule : OrdinaryHeaderRule}
    (hname : ∀ header ∈ headers, header.name ≠ rule.name)
    (hoptional : ∀ oneOf, rule = .OneOf oneOf → oneOf.required = false) :
    HeadersFit (rule :: rules) headers ↔ HeadersFit rules headers := by
  constructor
  · intro h
    refine ⟨?_, ?_, ?_⟩
    · intro header hmem fixed hfixed
      exact h.unfixed header hmem fixed (List.mem_cons_of_mem _ hfixed)
    · intro header hmem
      obtain ⟨oneOf, hrule, hheader, hvalue⟩ := h.named header hmem
      rcases List.mem_cons.1 hrule with heq | hrest
      · subst heq
        exact absurd hheader.symm (hname header hmem)
      · exact ⟨oneOf, hrest, hheader, hvalue⟩
    · intro oneOf hrule hrequired
      exact h.present oneOf (List.mem_cons_of_mem _ hrule) hrequired
  · intro h
    refine ⟨?_, ?_, ?_⟩
    · intro header hmem fixed hfixed
      rcases List.mem_cons.1 hfixed with heq | hrest
      · subst heq
        exact hname header hmem
      · exact h.unfixed header hmem fixed hrest
    · intro header hmem
      obtain ⟨oneOf, hrule, hheader⟩ := h.named header hmem
      exact ⟨oneOf, List.mem_cons_of_mem _ hrule, hheader⟩
    · intro oneOf hrule hrequired
      rcases List.mem_cons.1 hrule with heq | hrest
      · exact absurd hrequired (by simp [hoptional oneOf heq.symm])
      · exact h.present oneOf hrest hrequired

/-- A rule and the header it names, before all others. -/
theorem cons_taken {rule : OneOfHeaderRule} {header : OrdinaryHeader}
    (hrules : ∀ other ∈ rules, NameBefore rule.name other.name)
    (hheaders : ∀ other ∈ headers, NameBefore header.name other.name)
    (hname : header.name = rule.name) :
    HeadersFit (.OneOf rule :: rules) (header :: headers) ↔
      header.value ∈ rule.values ∧ HeadersFit rules headers := by
  constructor
  · intro h
    obtain ⟨oneOf, hrule, hheader, hvalue⟩ := h.named header List.mem_cons_self
    have hsame : oneOf = rule := by
      rcases List.mem_cons.1 hrule with heq | hrest
      · exact OrdinaryHeaderRule.OneOf.inj heq
      · exact absurd (hname.symm.trans hheader.symm) (hrules _ hrest).ne
    subst hsame
    refine ⟨hvalue, ?_, ?_, ?_⟩
    · intro other hmem fixed hfixed
      exact h.unfixed other (List.mem_cons_of_mem _ hmem) fixed (List.mem_cons_of_mem _ hfixed)
    · intro other hmem
      obtain ⟨named, hnamed, hother, hin⟩ := h.named other (List.mem_cons_of_mem _ hmem)
      rcases List.mem_cons.1 hnamed with heq | hrest
      · rw [OrdinaryHeaderRule.OneOf.inj heq, ← hname] at hother
        exact absurd hother (hheaders other hmem).ne
      · exact ⟨named, hrest, hother, hin⟩
    · intro named hnamed hrequired
      obtain ⟨other, hmem, hother⟩ :=
        h.present named (List.mem_cons_of_mem _ hnamed) hrequired
      rcases List.mem_cons.1 hmem with rfl | hrest
      · exact absurd (hname.symm.trans hother) (hrules _ hnamed).ne
      · exact ⟨other, hrest, hother⟩
  · rintro ⟨hvalue, h⟩
    refine ⟨?_, ?_, ?_⟩
    · intro other hmem fixed hfixed
      have hrest : .Fixed fixed ∈ rules := by simpa using hfixed
      rcases List.mem_cons.1 hmem with rfl | hother
      · rw [hname]
        exact (hrules _ hrest).ne
      · exact h.unfixed other hother fixed hrest
    · intro other hmem
      rcases List.mem_cons.1 hmem with rfl | hother
      · exact ⟨rule, List.mem_cons_self, hname.symm, hvalue⟩
      · obtain ⟨named, hnamed, hin⟩ := h.named other hother
        exact ⟨named, List.mem_cons_of_mem _ hnamed, hin⟩
    · intro named hnamed hrequired
      rcases List.mem_cons.1 hnamed with heq | hrest
      · rw [OrdinaryHeaderRule.OneOf.inj heq]
        exact ⟨header, List.mem_cons_self, hname⟩
      · obtain ⟨other, hmem, hother⟩ := h.present named hrest hrequired
        exact ⟨other, List.mem_cons_of_mem _ hmem, hother⟩

/-- Where the first header does not have the first rule's name, no header has. -/
theorem no_name {rule : OrdinaryHeaderRule}
    (hrules : ∀ other ∈ rules, NameBefore rule.name other.name)
    (hheaders : AscendingHeaders headers)
    (hhead : ∀ header ∈ headers.head?, header.name ≠ rule.name)
    (h : HeadersFit (rule :: rules) headers) : ∀ header ∈ headers, header.name ≠ rule.name := by
  cases headers with
  | nil => simp
  | cons first rest =>
      have hfirst : NameBefore rule.name first.name := by
        obtain ⟨other, hother, hname⟩ := h.exists_rule List.mem_cons_self
        rcases List.mem_cons.1 hother with rfl | hrest
        · exact absurd hname.symm (hhead first rfl)
        · rw [← hname]
          exact hrules other hrest
      intro header hmem
      rcases List.mem_cons.1 hmem with rfl | hrest
      · exact hfirst.ne.symm
      · exact (hfirst.trans ((List.pairwise_cons.1 hheaders).1 header hrest)).ne.symm

end HeadersFit

/-- The walk over both lists uses up the headers exactly where they fit. -/
theorem matchRules_iff {rules : List OrdinaryHeaderRule} {headers : List OrdinaryHeader}
    (hrules : AscendingRules rules) (hheaders : AscendingHeaders headers) :
    matchRules rules headers = .ok [] ↔ HeadersFit rules headers := by
  induction rules generalizing headers with
  | nil => rw [HeadersFit.nil_iff, matchRules, Except.ok.injEq]
  | cons rule rules ih =>
      obtain ⟨hbefore, hrest⟩ := List.pairwise_cons.1 hrules
      cases rule with
      | Fixed fixed =>
          rw [matchRules]
          split
          next hhead =>
            obtain ⟨header, hfirst, hname⟩ := (Option.any_eq_true _ _).1 hhead
            have hmem : header ∈ headers := List.mem_of_mem_head? hfirst
            constructor
            · intro h
              cases h
            · intro h
              exact absurd (eq_of_beq hname) (h.unfixed header hmem fixed List.mem_cons_self)
          next hhead =>
            have hhead' : ∀ header ∈ headers.head?, header.name ≠ fixed.name := by
              intro header hfirst hname
              exact hhead ((Option.any_eq_true _ _).2 ⟨header, hfirst, beq_of_eq hname⟩)
            rw [ih hrest hheaders]
            constructor
            · intro h
              have hname := fun header hmem =>
                (@HeadersFit.rule_before _ _ (.Fixed fixed) h hbefore header hmem).ne.symm
              exact (HeadersFit.cons_unnamed hname nofun).2 h
            · intro h
              exact (HeadersFit.cons_unnamed (HeadersFit.no_name hbefore hheaders hhead' h) nofun).1 h
      | OneOf oneOf =>
          -- a rule whose name the first header does not have
          have hskipped (hhead : ∀ header ∈ headers.head?, header.name ≠ oneOf.name) :
              (if oneOf.required then .error .HeaderMismatch else matchRules rules headers) =
                .ok [] ↔ HeadersFit (.OneOf oneOf :: rules) headers := by
            cases hrequired : oneOf.required with
            | true =>
                constructor
                · intro h
                  cases h
                · intro h
                  obtain ⟨header, hmem, hname⟩ :=
                    h.present oneOf List.mem_cons_self hrequired
                  exact absurd hname (HeadersFit.no_name hbefore hheaders hhead h header hmem)
            | false =>
                have hoptional : ∀ other, OrdinaryHeaderRule.OneOf oneOf = .OneOf other →
                    other.required = false := by
                  intro other heq
                  rw [← OrdinaryHeaderRule.OneOf.inj heq]
                  exact hrequired
                rw [if_neg Bool.false_ne_true, ih hrest hheaders]
                constructor
                · intro h
                  have hname := fun header hmem =>
                    (@HeadersFit.rule_before _ _ (.OneOf oneOf) h hbefore header
                      hmem).ne.symm
                  exact (HeadersFit.cons_unnamed hname hoptional).2 h
                · intro h
                  exact (HeadersFit.cons_unnamed (HeadersFit.no_name hbefore hheaders hhead h)
                    hoptional).1 h
          cases headers with
          | nil => exact hskipped (by simp)
          | cons header headers =>
              show (if header.name == oneOf.name then _ else _) = _ ↔ _
              split
              next hname =>
                obtain ⟨hfirst, hlater⟩ := List.pairwise_cons.1 hheaders
                rw [HeadersFit.cons_taken hbefore hfirst (eq_of_beq hname), ← ih hrest hlater]
                cases hvalue : oneOf.values.contains header.value with
                | true => simp [List.contains_iff_mem.1 hvalue]
                | false =>
                    have hout : header.value ∉ oneOf.values := by
                      intro hmem
                      rw [List.contains_iff_mem.2 hmem] at hvalue
                      cases hvalue
                    simp [hout]
              next hname =>
                apply hskipped
                rintro other ⟨⟩ heq
                exact hname (beq_of_eq heq)

/-! ## The checks before the walk -/

theorem not_notAfter {previous : Option String} {key : String} :
    notAfter previous key = false ↔ ∀ old ∈ previous, NameBefore old key := by
  cases previous with
  | none => simp [notAfter]
  | some old => simp [notAfter, NameBefore]

theorem validateRule_name {rule : OrdinaryHeaderRule} {name : String}
    (h : validateRule rule = .ok name) : name = rule.name := by
  cases rule with
  | Fixed fixed =>
      rw [validateRule, bind_unit_ok] at h
      exact (Except.ok.inj h.2).symm
  | OneOf oneOf =>
      rw [validateRule] at h
      split at h
      · cases h
      · rw [bind_unit_ok] at h
        exact (Except.ok.inj h.2).symm

/-- The rules that pass ascend by name from the last one on. -/
theorem validateRules_ascending {rules : List OrdinaryHeaderRule} {previous : Option String}
    (h : validateRules rules previous = .ok ()) :
    (∀ old ∈ previous, ∀ rule ∈ rules, NameBefore old rule.name) ∧ AscendingRules rules := by
  induction rules generalizing previous with
  | nil => exact ⟨by simp, List.Pairwise.nil⟩
  | cons rule rules ih =>
      rw [validateRules, bind_ok] at h
      obtain ⟨name, hrule, h⟩ := h
      rw [bind_unit_ok] at h
      obtain ⟨-, h⟩ := h
      cases validateRule_name hrule
      split at h
      next => cases h
      next hkept =>
        obtain ⟨hlater, hrest⟩ := ih h
        have hafter : ∀ old ∈ previous, NameBefore old rule.name :=
          not_notAfter.1 (Bool.or_eq_false_iff.1 (Bool.not_eq_true _ ▸ hkept)).2
        have hfirst : ∀ other ∈ rules, NameBefore rule.name other.name := hlater _ rfl
        refine ⟨?_, List.pairwise_cons.2 ⟨hfirst, hrest⟩⟩
        intro old hold other hmem
        rcases List.mem_cons.1 hmem with rfl | hother
        · exact hafter old hold
        · exact (hafter old hold).trans (hfirst other hother)

theorem validateHeaderRules_ascending {rules : List OrdinaryHeaderRule}
    (h : validateHeaderRules rules = .ok ()) :
    rules.length ≤ MAX_HEADER_RULES ∧ AscendingRules rules := by
  rw [validateHeaderRules] at h
  split at h
  · cases h
  · exact ⟨by omega, (validateRules_ascending h).2⟩

/-- Where the names seen end with that of the previous header, the two checks of a
header's place, its name against all of them and the pair against the previous one,
come down to the order of the names. -/
theorem place_iff {previous : Option OrdinaryHeader} {names : List String}
    {header : OrdinaryHeader}
    (hnames : ∀ name ∈ names, ∃ old ∈ previous, name = old.name ∨ NameBefore name old.name)
    (hprevious : ∀ old ∈ previous, old.name ∈ names) :
    (names.contains header.name = false ∧ pairNotAfter previous header = false) ↔
      ∀ old ∈ previous, NameBefore old.name header.name := by
  constructor
  · rintro ⟨hnew, hpair⟩ old hold
    cases hold
    rw [pairNotAfter, Option.any_some, Bool.not_eq_false', Bool.or_eq_true] at hpair
    rcases hpair with hname | hvalue
    · show old.name.toList < header.name.toList
      exact of_decide_eq_true hname
    · have hsame : old.name = header.name := eq_of_beq (Bool.and_eq_true_iff.1 hvalue).1
      rw [← hsame, List.contains_iff_mem.2 (hprevious old rfl)] at hnew
      cases hnew
  · intro h
    constructor
    · apply Bool.eq_false_iff.2
      intro hmem
      obtain ⟨old, hold, hname⟩ := hnames _ (List.contains_iff_mem.1 hmem)
      rcases hname with heq | hbefore
      · exact (h old hold).ne heq.symm
      · exact (hbefore.trans (h old hold)).ne rfl
    · cases previous with
      | none => rfl
      | some old =>
          have hname : old.name.toList < header.name.toList := h old rfl
          simp [pairNotAfter, hname]

/-- The loop over the headers asks that each is valid and that the names ascend. -/
theorem validateHeaderList_ok {headers : List OrdinaryHeader}
    {previous : Option OrdinaryHeader} {names : List String}
    (hnames : ∀ name ∈ names, ∃ old ∈ previous, name = old.name ∨ NameBefore name old.name)
    (hprevious : ∀ old ∈ previous, old.name ∈ names) :
    validateHeaderList [] headers previous names = .ok () ↔
      (∀ header ∈ headers, header.Valid) ∧
        (∀ old ∈ previous, ∀ header ∈ headers, NameBefore old.name header.name) ∧
        AscendingHeaders headers := by
  induction headers generalizing previous names with
  | nil => simp [validateHeaderList, AscendingHeaders]
  | cons header headers ih =>
      -- the header goes into the names and becomes the previous one
      have hnames' (hafter : ∀ old ∈ previous, NameBefore old.name header.name) :
          ∀ name ∈ header.name :: names, ∃ old ∈ some header,
            name = old.name ∨ NameBefore name old.name := by
        intro name hmem
        refine ⟨header, rfl, ?_⟩
        rcases List.mem_cons.1 hmem with heq | hold
        · exact .inl heq
        · obtain ⟨old, hprev, heq | hbefore⟩ := hnames name hold
          · rw [heq]
            exact .inr (hafter old hprev)
          · exact .inr (hbefore.trans (hafter old hprev))
      have hprevious' : ∀ old ∈ some header, old.name ∈ header.name :: names := by
        rintro old ⟨⟩
        exact List.mem_cons_self
      have hplace := @place_iff _ _ header hnames hprevious
      rw [validateHeaderList, bind_unit_ok, bind_unit_ok]
      constructor
      · rintro ⟨hname, hvalue, h⟩
        split at h
        next => cases h
        next hallowed =>
          split at h
          next => cases h
          next hpair =>
            obtain ⟨hdenied, hnew⟩ := Bool.or_eq_false_iff.1 (Bool.eq_false_iff.2 hallowed)
            have hafter := hplace.1 ⟨hnew, Bool.eq_false_iff.2 hpair⟩
            obtain ⟨hvalid, hfirst, hrest⟩ := (ih (hnames' hafter) hprevious').1 h
            refine ⟨?_, ?_, List.pairwise_cons.2 ⟨hfirst header rfl, hrest⟩⟩
            · rw [List.forall_mem_cons]
              exact ⟨⟨hname, hvalue, hdenied⟩, hvalid⟩
            · intro old hold
              rw [List.forall_mem_cons]
              refine ⟨hafter old hold, ?_⟩
              intro other hmem
              exact (hafter old hold).trans (hfirst header rfl other hmem)
      · rintro ⟨hvalid, hafter, hascending⟩
        rw [List.forall_mem_cons] at hvalid
        obtain ⟨hheader, hvalid⟩ := hvalid
        obtain ⟨hfirst, hrest⟩ := List.pairwise_cons.1 hascending
        have hafter' : ∀ old ∈ previous, NameBefore old.name header.name := by
          intro old hold
          exact hafter old hold header List.mem_cons_self
        obtain ⟨hnew, hpair⟩ := hplace.2 hafter'
        refine ⟨hheader.name, hheader.value, ?_⟩
        rw [hheader.allowed, hnew, hpair]
        apply (ih (hnames' hafter') hprevious').2
        refine ⟨hvalid, ?_, hrest⟩
        rintro old ⟨⟩
        exact hfirst

/-- Headers that fit are no more than the rules. -/
theorem HeadersFit.length_le {rules : List OrdinaryHeaderRule} {headers : List OrdinaryHeader}
    (h : HeadersFit rules headers) (hheaders : AscendingHeaders headers) :
    headers.length ≤ rules.length := by
  have hnodup : (headers.map (·.name)).Nodup := by
    apply List.pairwise_map.2
    apply hheaders.imp
    intro a b hab
    exact hab.ne
  have hsub : headers.map (·.name) ⊆ rules.map (·.name) := by
    intro name hmem
    obtain ⟨header, hheader, rfl⟩ := List.mem_map.1 hmem
    obtain ⟨rule, hrule, hname⟩ := h.exists_rule hheader
    exact List.mem_map.2 ⟨rule, hrule, hname⟩
  have hle := (hnodup.subperm hsub).length_le
  rwa [List.length_map, List.length_map] at hle

/-- Under the rules of an accepted contract, the headers of a request pass exactly if
each is valid, their names ascend, and they fit the rules. -/
theorem validateHeaders_iff (rules : List OrdinaryHeaderRule) (headers : List OrdinaryHeader)
    (hrules : validateHeaderRules rules = .ok ()) :
    validateHeaders rules headers = .ok () ↔
      (∀ header ∈ headers, header.Valid) ∧ AscendingHeaders headers ∧ HeadersFit rules headers := by
  obtain ⟨hcount, hascending⟩ := validateHeaderRules_ascending hrules
  have hchecks := @validateHeaderList_ok headers none []
    (by simp) (by simp)
  rw [validateHeaders, bind_unit_ok, mapError, mapError_ok, validateOrdinaryHeaders]
  constructor
  · rintro ⟨hvalid, hmatch⟩
    split at hvalid
    next => cases hvalid
    next =>
      obtain ⟨hall, -, hheaders⟩ := hchecks.1 hvalid
      obtain ⟨rest, hrest, hempty⟩ := bind_ok.1 hmatch
      refine ⟨hall, hheaders, (matchRules_iff hascending hheaders).1 ?_⟩
      cases rest with
      | nil => exact hrest
      | cons header rest => cases hempty
  · rintro ⟨hall, hheaders, hfits⟩
    have hlength : headers.length ≤ MAX_HEADERS :=
      (hfits.length_le hheaders).trans hcount
    refine ⟨?_, bind_ok.2 ⟨[], (matchRules_iff hascending hheaders).2 hfits, rfl⟩⟩
    rw [if_neg (Nat.not_lt.2 hlength)]
    exact hchecks.2 ⟨hall, by simp, hheaders⟩

/-- A required header, one that may be left out, and a fixed one. -/
def sampleRules : List OrdinaryHeaderRule :=
  [.OneOf ⟨"accept", ["application/json", "text/event-stream"], true⟩,
    .OneOf ⟨"anthropic-beta", ["tools"], false⟩, .Fixed ⟨"content-type", "application/json"⟩]

theorem validateHeaders_iff_sample :
    validateHeaderRules sampleRules = .ok () ∧
      (validateHeaders sampleRules [⟨"accept", "text/event-stream"⟩] = .ok () ↔
        (∀ header ∈ [(⟨"accept", "text/event-stream"⟩ : OrdinaryHeader)], header.Valid) ∧
          AscendingHeaders [⟨"accept", "text/event-stream"⟩] ∧
          HeadersFit sampleRules [⟨"accept", "text/event-stream"⟩]) :=
  ⟨by decide, validateHeaders_iff sampleRules [⟨"accept", "text/event-stream"⟩] (by decide)⟩

end MCode.Adapter
