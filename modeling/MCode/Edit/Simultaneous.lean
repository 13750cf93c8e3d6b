import MCode.Edit.LiteralPlan
import MCode.Edit.Plan

/-!
# Operations in any order

Every operation pushes a list of ranges that does not depend on the plan, and then
fails or does not.  So the plan of a call is the ranges of its operations, and the
limits hold of it as a whole: operations in another order plan the same ranges in
another order, which are applied alike.
-/

namespace MCode.Edit

open MCode.Lib MCode.Tools
open MCode.Lib.Results (bind_ok error_ne_ok mapError_ok)
open MCode.Lib.Spans (Apart)
open MCode.Files (Bytes isCharBoundary)
open MCode.Edit.Template (Failure)
open MCode.Edit.Literal (Text Plan MAX_MATCHES reservePlanned planLiteral stripBom)
open MCode.Edit.Fuzzy (planFuzzy)
open MCode.Edit.Ast (AstOp planAst targetLoop matchLoop)

/-! ## What is pushed -/

def reserveItem (plan : Plan) (item : Planned) : Except Failure Plan :=
  (reservePlanned plan item.start item.stop item.replacement).mapError .Error

/-- The planner pushes some ranges, whatever the plan, and has an outcome. -/
def Pushes {β : Type} (x : Planner β) (items : List Planned) (outcome : Except Failure β) : Prop :=
  ∀ plan, x plan = items.foldlM reserveItem plan >>= fun plan => outcome.map (·, plan)

/-- The planner pushes ranges from a place on. -/
def Regular {β : Type} (low : Nat) (x : Planner β) : Prop :=
  ∃ items outcome, Pushes x items outcome ∧ ∀ item ∈ items, low ≤ item.start

section Regular

variable {β γ : Type} {low : Nat}

theorem Pushes.bind {x : Planner β} {k : β → Planner γ} {items items' : List Planned} {b : β}
    {outcome : Except Failure γ} (hx : Pushes x items (.ok b)) (hk : Pushes (k b) items' outcome) :
    Pushes (x >>= k) (items ++ items') outcome := by
  intro plan
  show (x plan >>= fun result => k result.1 result.2) = _
  rw [hx plan, List.foldlM_append]
  cases items.foldlM reserveItem plan with
  | error failure => rfl
  | ok plan => exact hk plan

theorem Pushes.bind_error {x : Planner β} {k : β → Planner γ} {items : List Planned}
    {failure : Failure} (hx : Pushes x items (.error failure)) :
    Pushes (x >>= k) items (.error failure) := by
  intro plan
  show (x plan >>= fun result => k result.1 result.2) = _
  rw [hx plan]
  cases items.foldlM reserveItem plan with
  | error failure => rfl
  | ok plan => rfl

theorem Regular.bind {x : Planner β} {k : β → Planner γ} (hx : Regular low x)
    (hk : ∀ b, Regular low (k b)) : Regular low (x >>= k) := by
  obtain ⟨items, outcome, hpush, hlow⟩ := hx
  cases outcome with
  | error failure => exact ⟨items, _, hpush.bind_error, hlow⟩
  | ok b =>
      obtain ⟨items', outcome, hpush', hlow'⟩ := hk b
      refine ⟨items ++ items', outcome, hpush.bind hpush', ?_⟩
      intro item hitem
      cases List.mem_append.1 hitem with
      | inl hitem => exact hlow item hitem
      | inr hitem => exact hlow' item hitem

/-- A step that leaves the plan alone. -/
theorem Regular.of_outcome {x : Planner β} (outcome : Except Failure β)
    (h : ∀ plan, x plan = outcome.map (·, plan)) : Regular low x :=
  ⟨[], outcome, h, fun _ hitem => (List.not_mem_nil hitem).elim⟩

theorem Regular.pure (b : β) : Regular low (Pure.pure b : Planner β) :=
  .of_outcome (.ok b) fun _ => rfl

theorem Regular.refuse (error : ToolError) : Regular low (.refuse error : Planner β) :=
  .of_outcome (.error (.Error error)) fun _ => rfl

theorem Regular.check (outcome : Except ToolError β) : Regular low (.check outcome) :=
  .of_outcome (outcome.mapError .Error) fun _ => rfl

theorem Regular.check_bind {outcome : Except ToolError β} {k : β → Planner γ}
    (h : ∀ b, outcome = .ok b → Regular low (k b)) : Regular low (.check outcome >>= k) := by
  cases outcome with
  | error error => exact .of_outcome (.error (.Error error)) fun _ => rfl
  | ok b => exact h b rfl

theorem Regular.reserve {start : Nat} (h : low ≤ start) (stop : Nat) (replacement : Bytes) :
    Regular low (.reserve start stop replacement) := by
  refine ⟨[⟨start, stop, replacement⟩], .ok (), ?_, fun item hitem => ?_⟩
  · intro plan
    rw [List.foldlM_cons]
    show ((reservePlanned plan start stop replacement).mapError Failure.Error).map _ = _
    unfold reserveItem
    cases (reservePlanned plan start stop replacement).mapError Failure.Error with
    | error failure => rfl
    | ok plan => rfl
  · rw [List.mem_singleton.1 hitem]
    exact h

end Regular

/-- A planner that gives the plan itself. -/
def lift (f : Plan → Except Failure Plan) : Planner Unit := fun plan => (f plan).map ((), ·)

theorem Regular.after {α : Type} {low : Nat} {k : α → Plan → Except Failure Plan}
    (outcome : Except Failure α) (h : ∀ a, Regular low (lift (k a))) :
    Regular low (lift fun plan => outcome >>= fun a => k a plan) := by
  cases outcome with
  | error failure => exact .of_outcome (.error failure) fun _ => rfl
  | ok a => exact h a

theorem Regular.foldlM {α : Type} {low : Nat} {step : Plan → α → Except Failure Plan}
    (h : ∀ a, Regular low (lift fun plan => step plan a)) (l : List α) :
    Regular low (lift fun plan => l.foldlM step plan) := by
  induction l with
  | nil => exact .pure ()
  | cons a l ih =>
      have hcons : (lift fun plan => (a :: l).foldlM step plan) =
          (lift fun plan => step plan a) >>= fun _ => lift fun plan => l.foldlM step plan := by
        funext plan
        show ((a :: l).foldlM step plan).map _ =
          ((step plan a).map ((), ·) >>= fun result => (l.foldlM step result.2).map ((), ·))
        rw [List.foldlM_cons]
        cases step plan a with
        | error failure => rfl
        | ok plan => rfl
      rw [hcons]
      exact (h a).bind fun _ => ih

/-! ## The operations -/

theorem planLiteral_regular (searchers : Literal.Searchers) (snapshot : Text)
    (op : Literal.LiteralOp) :
    Regular (if (stripBom snapshot).1 then UTF8_BOM.length else 0)
      (lift (planLiteral searchers snapshot op)) := by
  unfold planLiteral
  refine .after _ fun found => .after _ fun _ => .after _ fun chosen => .foldlM ?_ chosen
  intro item
  unfold Literal.reserveFound
  cases op.needles.replacements[item.patternId]? with
  | none => exact .of_outcome (.error .Panic) fun _ => rfl
  | some replacement => exact Regular.reserve (Nat.le_add_left _ _) _ _

theorem regexLoop_regular (op : RegexOp) (bomLen : Nat) (found : List RegexMatch) (pushed : Nat) :
    Regular bomLen (regexLoop op bomLen found pushed) := by
  induction found generalizing pushed with
  | nil =>
      rw [regexLoop]
      split
      · exact .refuse _
      · exact .pure ()
  | cons caps rest ih =>
      rw [regexLoop]
      split
      · exact .refuse _
      · split
        · exact .refuse _
        · split
          · exact .refuse _
          · apply Regular.bind (.of_outcome _ fun _ => rfl)
            intro expanded
            exact (Regular.reserve (Nat.le_add_left _ _) _ _).bind fun _ => ih (pushed + 1)

theorem regexPlanned_regular (op : RegexOp) (body : Text) (bomLen : Nat) :
    Regular bomLen (regexPlanned op body bomLen) := by
  unfold regexPlanned
  split
  · exact .refuse _
  · exact regexLoop_regular op bomLen _ 0

theorem lineRangePlanned_start {blake3 : Bytes → Text} {op : LineRangeOp} {body : Bytes}
    {bomLen : Nat} {item : Planned} (h : lineRangePlanned blake3 op body bomLen = .ok item) :
    bomLen ≤ item.start := by
  obtain ⟨⟨start, stop⟩, -, h⟩ := bind_ok.1 h
  dsimp only at h
  split at h
  · cases h
  · split at h
    · cases h
    · cases h
      exact Nat.le_add_left _ _

theorem planFuzzy_regular (table : Fuzzy.Alphanumeric) (body : Text) (op : Fuzzy.FuzzyOp)
    (bomLen : Nat) (cancelled : Bool) :
    Regular bomLen (planFuzzy table body op bomLen cancelled) := by
  unfold planFuzzy
  refine (Regular.check _).bind fun needle => (Regular.check _).bind fun haystack => ?_
  apply Regular.bind (.of_outcome _ fun _ => rfl)
  intro rank
  split
  · exact .refuse _
  · split
    · exact .refuse _
    · rename_i best _ _
      have hlast : ∀ unique : Bool, Regular bomLen (if unique = true then
          .reserve (best.start + bomLen) (best.stop + bomLen) (Utf8.encode op.replacement)
        else .refuse (Fuzzy.ambiguousError rank.preview (Utf8.encode body) best
          (Fuzzy.requiredMargin needle.norm.length)) : Planner Unit) := by
        intro unique
        cases unique with
        | false => exact .refuse _
        | true => exact .reserve (Nat.le_add_left _ _) _ _
      split
      · exact hlast true
      · exact hlast _

theorem targetLoop_regular (template : List Ast.TemplatePart) (capture : Option Text)
    (values : List Ast.CaptureValue) (bomLen : Nat) (cancelled : Bool)
    (targets : List Ast.CaptureValue) (index selected : Nat) :
    Regular bomLen (targetLoop template capture values bomLen cancelled targets index selected) := by
  induction targets generalizing index selected with
  | nil => exact .pure selected
  | cons target targets ih =>
      rw [targetLoop]
      refine (Regular.check _).bind fun _ => ?_
      split
      · exact ih _ _
      · refine (Regular.check _).bind fun expanded => ?_
        exact (Regular.reserve (Nat.le_add_left _ _) _ _).bind fun _ => ih _ _

section Ast

variable {Language Tree : Type}

theorem matchLoop_regular (op : AstOp Language Tree) (body : Bytes) (bomLen : Nat)
    (cancelled : Bool) (found : List (List Ast.QueryCapture)) (matched captures selected : Nat) :
    Regular bomLen (matchLoop op body bomLen cancelled found matched captures selected) := by
  induction found generalizing matched captures selected with
  | nil => exact .pure selected
  | cons first rest ih =>
      rw [matchLoop]
      split
      · exact .refuse _
      · refine (Regular.check _).bind fun values => ?_
        exact (targetLoop_regular _ _ _ _ _ _ _ _).bind fun _ => ih _ _ _

theorem planAst_regular (op : AstOp Language Tree) (tree : Tree) (body : Bytes) (bomLen : Nat)
    (cancelled : Bool) : Regular bomLen (planAst op tree body bomLen cancelled) := by
  unfold planAst
  refine (matchLoop_regular op body bomLen cancelled _ 0 0 0).bind fun selected => ?_
  refine (Regular.check _).bind fun _ => ?_
  split
  · exact .refuse _
  · split
    · exact .refuse _
    · exact .pure ()

variable [DecidableEq Language]

/-- Every operation is regular, and leaves the byte order mark alone. -/
theorem planOp_regular (crates : Crates) (snapshot : Text)
    (astSnapshot : Option (AstSnapshot Language Tree)) (cancelled : Bool)
    (op : PreparedOp Language Tree) :
    Regular (if (stripBom snapshot).1 then UTF8_BOM.length else 0)
      (planOp crates snapshot astSnapshot cancelled op) := by
  unfold planOp
  refine (Regular.check _).bind fun _ => ?_
  cases op with
  | Literal op => exact planLiteral_regular crates.searchers snapshot op
  | Regex op => exact regexPlanned_regular op _ _
  | LineRange op =>
      apply Regular.check_bind
      intro range hrange
      exact .reserve (lineRangePlanned_start hrange) _ _
  | Fuzzy op => exact planFuzzy_regular _ _ op _ cancelled
  | Ast op =>
      cases astSnapshot with
      | none => exact .refuse _
      | some parsed =>
          dsimp only
          by_cases hlanguage : parsed.language ≠ op.language
          · rw [if_pos hlanguage]
            exact .refuse _
          · rw [if_neg hlanguage]
            exact planAst_regular op _ _ _ cancelled

end Ast

/-! ## The limits -/

def replacementBytes (items : List Planned) : Nat :=
  (items.map fun item => item.replacement.length).sum

/-- The limits hold of the plan as a whole. -/
def Within (plan : Plan) (items : List Planned) : Prop :=
  plan.planned.length + items.length ≤ MAX_MATCHES ∧
    plan.replacementBytes + replacementBytes items ≤ MAX_WRITE_BYTES

theorem reserveItem_ok {plan plan' : Plan} {item : Planned} :
    reserveItem plan item = .ok plan' ↔
      Within plan [item] ∧ plan'.planned = plan.planned ++ [item] ∧
        plan'.replacementBytes = plan.replacementBytes + item.replacement.length := by
  have hsmall := plan.small
  have hmax : MAX_WRITE_BYTES < Template.USIZE_MAX := by decide
  unfold reserveItem Within replacementBytes
  rw [mapError_ok, reservePlanned]
  simp only [List.length_singleton, List.map_cons, List.map_nil, List.sum_cons, List.sum_nil]
  split
  · exact iff_of_false error_ne_ok fun h => by omega
  · rename_i hfew
    split
    · exact iff_of_false error_ne_ok fun h => by omega
    · rename_i hfits
      rw [Except.ok.injEq]
      constructor
      · rintro rfl
        exact ⟨by omega, rfl, by show min _ _ = _; omega⟩
      · rintro ⟨-, hplanned, hbytes⟩
        apply Plan.ext
        · exact hplanned.symm
        · show min _ _ = _
          omega

theorem reserveAll_ok {plan plan' : Plan} {items : List Planned}
    (h : items.foldlM reserveItem plan = .ok plan') :
    Within plan items ∧ plan'.planned = plan.planned ++ items ∧
      plan'.replacementBytes = plan.replacementBytes + replacementBytes items := by
  induction items generalizing plan with
  | nil =>
      have hsame : plan = plan' := Except.ok.inj h
      rw [← hsame]
      exact ⟨⟨plan.few, plan.small⟩, (List.append_nil _).symm, rfl⟩
  | cons item items ih =>
      rw [List.foldlM_cons] at h
      obtain ⟨middle, hitem, hrest⟩ := bind_ok.1 h
      obtain ⟨-, hplanned, hbytes⟩ := reserveItem_ok.1 hitem
      obtain ⟨⟨hfew, hsmall⟩, hplanned', hbytes'⟩ := ih hrest
      rw [hplanned, List.append_assoc] at hplanned'
      rw [hplanned, List.length_append, List.length_singleton] at hfew
      have hcons : replacementBytes (item :: items) =
          item.replacement.length + replacementBytes items := List.sum_cons
      refine ⟨⟨?_, ?_⟩, hplanned', ?_⟩
      · rw [List.length_cons]
        omega
      · omega
      · omega

theorem reserveAll_of_within {plan : Plan} {items : List Planned} (h : Within plan items) :
    ∃ plan', items.foldlM reserveItem plan = .ok plan' := by
  induction items generalizing plan with
  | nil => exact ⟨plan, rfl⟩
  | cons item items ih =>
      obtain ⟨hfew, hsmall⟩ := h
      have hcons : replacementBytes (item :: items) =
          item.replacement.length + replacementBytes items := List.sum_cons
      have hone : replacementBytes [item] = item.replacement.length := rfl
      rw [List.length_cons] at hfew
      have hwithin : Within plan [item] := by
        refine ⟨?_, ?_⟩
        · rw [List.length_singleton]
          omega
        · omega
      have hmiddle : ∃ middle, reserveItem plan item = .ok middle := by
        refine ⟨⟨plan.planned ++ [item], plan.replacementBytes + item.replacement.length, ?_, ?_⟩,
          reserveItem_ok.2 ⟨hwithin, rfl, rfl⟩⟩
        · rw [List.length_append]
          exact hwithin.1
        · exact hone ▸ hwithin.2
      obtain ⟨middle, hitem⟩ := hmiddle
      obtain ⟨-, hplanned, hbytes⟩ := reserveItem_ok.1 hitem
      rw [List.foldlM_cons, hitem]
      apply ih
      unfold Within
      rw [hplanned, hbytes, List.length_append, List.length_singleton]
      omega

/-! ## A call -/

theorem encode_mark : Utf8.encode ['\uFEFF'] = UTF8_BOM := by decide

/-- The mark that is stripped is the one of the bytes. -/
theorem hasBom_encode (snapshot : Text) : hasBom (Utf8.encode snapshot) = (stripBom snapshot).1 := by
  cases hmark : (stripBom snapshot).1 with
  | true =>
      have hsnapshot := Literal.stripBom_eq snapshot
      rw [hmark, if_pos rfl] at hsnapshot
      rw [hsnapshot, Utf8.encode_append, encode_mark]
      exact hasBom_iff.2 (List.prefix_append _ _)
  | false =>
      rw [← Bool.not_eq_true]
      intro hbom
      obtain ⟨more, hmore⟩ := hasBom_iff.1 hbom
      rw [← encode_mark] at hmore
      obtain ⟨rest, rfl, -⟩ := Utf8.encode_front hmore.symm
      cases hmark

theorem bomLen_encode (snapshot : Text) :
    bomLen (Utf8.encode snapshot) = if (stripBom snapshot).1 then UTF8_BOM.length else 0 := by
  unfold bomLen
  rw [hasBom_encode]

section Call

variable {Language Tree : Type} [DecidableEq Language] {crates : Crates} {snapshot : Text}
  {astSnapshot : Option (AstSnapshot Language Tree)} {cancelled : Bool}

/-- The operation does not fail, and plans these ranges. -/
def Plans (crates : Crates) (snapshot : Text) (astSnapshot : Option (AstSnapshot Language Tree))
    (cancelled : Bool) (op : PreparedOp Language Tree) (items : List Planned) : Prop :=
  Pushes (planOp crates snapshot astSnapshot cancelled op) items (.ok ()) ∧
    ∀ item ∈ items, bomLen (Utf8.encode snapshot) ≤ item.start

theorem plans_of_run {op : PreparedOp Language Tree} {plan : Plan} {result : Unit × Plan}
    (h : planOp crates snapshot astSnapshot cancelled op plan = .ok result) :
    ∃ items, Plans crates snapshot astSnapshot cancelled op items ∧
      items.foldlM reserveItem plan = .ok result.2 := by
  obtain ⟨items, outcome, hpush, hlow⟩ :=
    planOp_regular crates snapshot astSnapshot cancelled op
  rw [← bomLen_encode] at hlow
  rw [hpush plan] at h
  obtain ⟨plan', hfold, houtcome⟩ := bind_ok.1 h
  cases outcome with
  | error failure => cases houtcome
  | ok done =>
      cases houtcome
      exact ⟨items, ⟨hpush, hlow⟩, hfold⟩

theorem forM_ok {ops : List (PreparedOp Language Tree)} {plan : Plan} {result : Unit × Plan}
    (h : ops.forM (planOp crates snapshot astSnapshot cancelled) plan = .ok result) :
    ∃ ranges, List.Forall₂ (Plans crates snapshot astSnapshot cancelled) ops ranges ∧
      ranges.flatten.foldlM reserveItem plan = .ok result.2 := by
  induction ops generalizing plan with
  | nil =>
      have hsame : ((), plan) = result := Except.ok.inj h
      rw [← hsame]
      exact ⟨[], .nil, rfl⟩
  | cons op ops ih =>
      obtain ⟨middle, hop, hrest⟩ := bind_ok.1
        (show (planOp crates snapshot astSnapshot cancelled op plan >>= fun middle =>
          ops.forM (planOp crates snapshot astSnapshot cancelled) middle.2) = .ok result from h)
      obtain ⟨items, hplans, hfold⟩ := plans_of_run hop
      obtain ⟨ranges, hranges, hfold'⟩ := ih hrest
      refine ⟨items :: ranges, .cons hplans hranges, ?_⟩
      rw [List.flatten_cons, List.foldlM_append, hfold]
      exact hfold'

theorem forM_of_plans {ops : List (PreparedOp Language Tree)} {ranges : List (List Planned)}
    (h : List.Forall₂ (Plans crates snapshot astSnapshot cancelled) ops ranges) (plan : Plan) :
    ops.forM (planOp crates snapshot astSnapshot cancelled) plan =
      (ranges.flatten.foldlM reserveItem plan).map ((), ·) := by
  induction h generalizing plan with
  | nil => rfl
  | @cons op items ops ranges hop hops ih =>
      show (planOp crates snapshot astSnapshot cancelled op plan >>= fun middle =>
        ops.forM (planOp crates snapshot astSnapshot cancelled) middle.2) = _
      rw [hop.1 plan, List.flatten_cons, List.foldlM_append]
      cases items.foldlM reserveItem plan with
      | error failure => rfl
      | ok middle => exact ih middle

/-- A plan is what the operations plan, within the limits. -/
theorem planEdits_iff {ops : List (PreparedOp Language Tree)} {planned : List Planned} :
    planEdits crates snapshot ops astSnapshot cancelled = .ok planned ↔
      ∃ ranges, List.Forall₂ (Plans crates snapshot astSnapshot cancelled) ops ranges ∧
        planned = ranges.flatten ∧ Within .empty planned := by
  unfold planEdits
  constructor
  · intro h
    cases hrun : ops.forM (planOp crates snapshot astSnapshot cancelled) Plan.empty with
    | error failure =>
        rw [hrun] at h
        cases h
    | ok result =>
        rw [hrun] at h
        obtain ⟨ranges, hranges, hfold⟩ := forM_ok hrun
        obtain ⟨hwithin, hplanned, -⟩ := reserveAll_ok hfold
        have hsame : result.2.planned = planned := Except.ok.inj h
        have hflat : planned = ranges.flatten := hsame.symm.trans hplanned
        exact ⟨ranges, hranges, hflat, hflat ▸ hwithin⟩
  · rintro ⟨ranges, hranges, rfl, hwithin⟩
    obtain ⟨plan, hfold⟩ := reserveAll_of_within hwithin
    rw [forM_of_plans hranges, hfold]
    exact congrArg Except.ok (reserveAll_ok hfold).2.1

theorem Within.perm {plan : Plan} {items items' : List Planned} (hperm : items.Perm items')
    (h : Within plan items) : Within plan items' := by
  unfold Within replacementBytes at *
  rw [← hperm.length_eq, ← (hperm.map fun item => item.replacement.length).sum_nat]
  exact h

/-- In another order the operations plan the same ranges in another order. -/
theorem planEdits_perm {ops ops' : List (PreparedOp Language Tree)} (hperm : ops.Perm ops')
    {planned : List Planned}
    (h : planEdits crates snapshot ops astSnapshot cancelled = .ok planned) :
    ∃ planned', planEdits crates snapshot ops' astSnapshot cancelled = .ok planned' ∧
      planned.Perm planned' := by
  obtain ⟨ranges, hranges, rfl, hwithin⟩ := planEdits_iff.1 h
  obtain ⟨ranges', hranges', hperm'⟩ := List.perm_comp_forall₂ hperm.symm hranges
  have hflat : ranges.flatten.Perm ranges'.flatten := hperm'.symm.flatten
  exact ⟨ranges'.flatten, planEdits_iff.2 ⟨ranges', hranges', rfl, hwithin.perm hflat⟩, hflat⟩

theorem planned_start {ops : List (PreparedOp Language Tree)} {planned : List Planned}
    (h : planEdits crates snapshot ops astSnapshot cancelled = .ok planned) :
    ∀ item ∈ planned, bomLen (Utf8.encode snapshot) ≤ item.start := by
  obtain ⟨ranges, hranges, rfl, -⟩ := planEdits_iff.1 h
  intro item hitem
  obtain ⟨items, hitems, hitem⟩ := List.mem_flatten.1 hitem
  obtain ⟨i, hi, rfl⟩ := List.getElem_of_mem hitems
  exact (hranges.get (hranges.length_eq ▸ hi) hi).2 item hitem

theorem finalText_planned {ops : List (PreparedOp Language Tree)} {planned : List Planned}
    (h : planEdits crates snapshot ops astSnapshot cancelled = .ok planned) :
    finalText (Utf8.encode snapshot) planned = replaced (Utf8.encode snapshot) planned ∧
      (hasBom (Utf8.encode snapshot) = true →
        hasBom (replaced (Utf8.encode snapshot) planned) = true) := by
  have hmark : hasBom (Utf8.encode snapshot) = true →
      hasBom (replaced (Utf8.encode snapshot) planned) = true := by
    intro hbom
    apply replaced_bom hbom
    intro item hitem
    have hstart := planned_start h item hitem
    unfold bomLen at hstart
    rw [hbom, if_pos rfl] at hstart
    exact hstart
  refine ⟨?_, hmark⟩
  unfold finalText
  cases hbom : hasBom (Utf8.encode snapshot) with
  | false => rfl
  | true =>
      rw [hmark hbom]
      rfl

/-- Planning and applying both succeed. -/
def Edited (crates : Crates) (snapshot : Text) (ops : List (PreparedOp Language Tree))
    (astSnapshot : Option (AstSnapshot Language Tree)) (cancelled : Bool) (planned : List Planned)
    (applied : Applied) : Prop :=
  planEdits crates snapshot ops astSnapshot cancelled = .ok planned ∧
    applyPlanned (Utf8.encode snapshot) planned cancelled = .ok applied

theorem Edited.perm {ops ops' : List (PreparedOp Language Tree)} (hperm : ops.Perm ops')
    {planned : List Planned} {applied : Applied}
    (h : Edited crates snapshot ops astSnapshot cancelled planned applied) :
    ∃ planned', Edited crates snapshot ops' astSnapshot cancelled planned' applied := by
  obtain ⟨planned', hplan, hsame⟩ := planEdits_perm hperm h.1
  exact ⟨planned', hplan, applyPlanned_perm hsame h.2⟩

/-- An edit replaces all planned ranges at once, whatever the order of its operations;
and unless the call is cancelled, a plan is only refused for its ranges or the length
of the result. -/
theorem edits_simultaneous (crates : Crates) (snapshot : Text)
    (ops ops' : List (PreparedOp Language Tree))
    (astSnapshot : Option (AstSnapshot Language Tree)) (cancelled : Bool) (hperm : ops.Perm ops') :
    (∀ planned applied, Edited crates snapshot ops astSnapshot cancelled planned applied →
      applied.text = replaced (Utf8.encode snapshot) planned ∧
        (kept (Utf8.encode snapshot) planned).Sublist applied.text ∧
        (hasBom (Utf8.encode snapshot) = true → hasBom applied.text = true) ∧
        applied.text.length ≤ MAX_WRITE_BYTES) ∧
      (∀ planned, (∃ error, applyPlanned (Utf8.encode snapshot) planned false = .error error) ↔
        Refused (Utf8.encode snapshot) planned) ∧
      ∀ applied, (∃ planned, Edited crates snapshot ops astSnapshot cancelled planned applied) ↔
        ∃ planned, Edited crates snapshot ops' astSnapshot cancelled planned applied := by
  refine ⟨?_, fun planned => refused_iff, ?_⟩
  · intro planned applied hedited
    obtain ⟨hfinal, hmark⟩ := finalText_planned hedited.1
    obtain ⟨-, -, htext, hfits⟩ := applyPlanned_ok hedited.2
    rw [htext]
    rw [hfinal] at hfits ⊢
    exact ⟨rfl, kept_sublist _ _, hmark, hfits⟩
  · intro applied
    constructor
    · rintro ⟨planned, hedited⟩
      exact hedited.perm hperm
    · rintro ⟨planned, hedited⟩
      exact hedited.perm hperm.symm

end Call

/-! ## Two lines -/

section TwoLines

/-- No operation of the example needs any of these. -/
def plainCrates : Crates where
  searchers := ⟨fun _ _ => none, fun _ => .ok fun _ => []⟩
  blake3 := fun _ => []
  alphanumeric := ⟨Char.isAlphanum, by decide⟩

/-- The replacement of one line. -/
def lineOp (line : Nat) (old new : String) : PreparedOp Unit Unit :=
  .LineRange ⟨line, line, some old.toList, none, new.toList⟩

theorem ok_of_toOption {ε α : Type} {x : Except ε α} {a : α} (h : x.toOption = some a) :
    x = .ok a := by
  cases x with
  | error error => cases h
  | ok b => exact congrArg Except.ok (Option.some.inj h)

theorem two_lines_edited : Edited plainCrates "\uFEFFa\nb".toList
    [lineOp 2 "b" "cd", lineOp 1 "a\n" ""] none false
    [⟨5, 6, [0x63, 0x64]⟩, ⟨3, 5, []⟩]
    ⟨[0xEF, 0xBB, 0xBF, 0x63, 0x64], 2, 6, 5,
      Utf8.encode "- a\\n\n+ \n- b\n+ cd\n".toList⟩ :=
  ⟨ok_of_toOption (by decide +kernel), ok_of_toOption (by decide +kernel)⟩

theorem edits_simultaneous_two_lines :
    ∃ planned, Edited plainCrates "\uFEFFa\nb".toList
      [lineOp 1 "a\n" "", lineOp 2 "b" "cd"] none false planned
      ⟨[0xEF, 0xBB, 0xBF, 0x63, 0x64], 2, 6, 5,
        Utf8.encode "- a\\n\n+ \n- b\n+ cd\n".toList⟩ :=
  ((edits_simultaneous plainCrates "\uFEFFa\nb".toList _ _ none false
    (List.Perm.swap _ _ [])).2.2 _).1 ⟨_, two_lines_edited⟩

/-- A call that is cancelled after planning is refused for nothing in its plan. -/
theorem cancelled_edit_refused :
    planEdits plainCrates "a".toList [lineOp 1 "a" "b"] none false = .ok [⟨0, 1, [0x62]⟩] ∧
      (∃ error, applyPlanned (Utf8.encode "a".toList) [⟨0, 1, [0x62]⟩] true = .error error) ∧
      ¬ Refused (Utf8.encode "a".toList) [⟨0, 1, [0x62]⟩] := by
  refine ⟨ok_of_toOption (by decide +kernel), ⟨_, rfl⟩, ?_⟩
  intro hrefused
  obtain ⟨error, herror⟩ := refused_iff.2 hrefused
  cases herror

end TwoLines

end MCode.Edit
