import MCode.Preflight.Shape

/-!
# Renamed shapes

What it means that one component type is another one with its resources renamed:
a function on resources is applied to every item, in order, and handles are of
resources that are known where they are.  A shape passes exactly when such a
function turns the items of the candidate into those of the reference and is
injective on the candidate's resources.
-/

namespace MCode.Preflight

open MCode.Lib
open MCode.Lib.OneToOne (graph extend Paired mem_graph mem_extend le_extend)
open MCode.Lib.Results (bind_ok)

section

variable {R : Type} [DecidableEq R]

/-! ## Renaming -/

/-- The function on the resources that are known. -/
def within (f : R → R) (known : List R) (resource : R) : Option R :=
  if resource ∈ known then some (f resource) else none

mutual

def renameType (rename : R → Option R) : ValueType R → Option (ValueType R)
  | .Scalar kind => some (.Scalar kind)
  | .List element => (renameType rename element).map .List
  | .Record fields => (renameFields rename fields).map .Record
  | .Tuple types => (renameTypes rename types).map .Tuple
  | .Variant cases => (renameCases rename cases).map .Variant
  | .Enum names => some (.Enum names)
  | .Option payload => (renameType rename payload).map .Option
  | .Result ok err =>
      (renameOptionalType rename ok).bind fun ok =>
        (renameOptionalType rename err).map fun err => .Result ok err
  | .Flags names => some (.Flags names)
  | .Own resource => (rename resource).map .Own
  | .Borrow resource => (rename resource).map .Borrow

def renameOptionalType (rename : R → Option R) :
    Option (ValueType R) → Option (Option (ValueType R))
  | none => some none
  | some ty => (renameType rename ty).map some

def renameFields (rename : R → Option R) :
    List (String × ValueType R) → Option (List (String × ValueType R))
  | [] => some []
  | (name, ty) :: fields =>
      (renameType rename ty).bind fun ty =>
        (renameFields rename fields).map fun fields => (name, ty) :: fields

def renameTypes (rename : R → Option R) : List (ValueType R) → Option (List (ValueType R))
  | [] => some []
  | ty :: types =>
      (renameType rename ty).bind fun ty =>
        (renameTypes rename types).map fun types => ty :: types

def renameCases (rename : R → Option R) :
    List (String × Option (ValueType R)) → Option (List (String × Option (ValueType R)))
  | [] => some []
  | (name, ty) :: cases =>
      (renameOptionalType rename ty).bind fun ty =>
        (renameCases rename cases).map fun cases => (name, ty) :: cases

end

def renameFunc (rename : R → Option R) (func : ComponentFunc R) : Option (ComponentFunc R) :=
  (renameFields rename func.params).bind fun params =>
    (renameTypes rename func.results).map fun results => ⟨func.async, params, results⟩

def asResource : ComponentItem R → Option R
  | .Resource resource => some resource
  | _ => none

/-- The resources that are known inside an instance. -/
def ownResources (exports : List (String × ComponentItem R)) (known : List R) : List R :=
  exports.foldl (fun known item => (asResource item.2).elim known (extend known)) known

mutual

/-- An item with its resources renamed, and the resources that are known behind it. -/
def renameItem (f : R → R) :
    ComponentItem R → List R → Option (ComponentItem R × List R)
  | .ComponentFunc func, known =>
      (renameFunc (within f known) func).map fun func => (.ComponentFunc func, known)
  | .Ty ty, known => (renameType (within f known) ty).map fun ty => (.Ty ty, known)
  | .Resource resource, known => some (.Resource (f resource), extend known resource)
  | .ComponentInstance exports, known =>
      (renameItems f exports (ownResources exports known)).map fun renamed =>
        (.ComponentInstance renamed.1, renamed.2)
  | .CoreFunc, _ | .Module, _ | .Component, _ => none

def renameItems (f : R → R) :
    List (String × ComponentItem R) → List R →
      Option (List (String × ComponentItem R) × List R)
  | [], known => some ([], known)
  | (name, item) :: items, known =>
      (renameItem f item known).bind fun renamed =>
        (renameItems f items renamed.2).map fun others =>
          ((name, renamed.1) :: others.1, others.2)

end

/-- The items of a component that its world names, imports first. -/
def worldItems (world : ComponentWorld) (component : ComponentType R) :
    Option (List (String × ComponentItem R)) :=
  (world.imports.mapM fun name => (component.getImport name).map (name, ·)).bind fun imports =>
    (world.exports.mapM fun name => (component.getExport name).map (name, ·)).map fun exports =>
      imports ++ exports

/-- The reference is the candidate with its resources renamed one to one. -/
def Isomorphic (candidate reference : ComponentType R) (world : ComponentWorld) : Prop :=
  ∃ items items', worldItems world candidate = some items ∧
    worldItems world reference = some items' ∧
    ∃ (f : R → R) (known : List R), renameItems f items [] = some (items', known) ∧
      Set.InjOn f {resource | resource ∈ known}

/-! ## Types -/

variable (f : R → R) (known : List R)

theorem mem_graph_within (candidate reference : R) :
    (candidate, reference) ∈ graph f known ↔ within f known candidate = some reference := by
  rw [mem_graph, within]
  by_cases hknown : candidate ∈ known
  · rw [if_pos hknown, Option.some.injEq]
    exact and_iff_right hknown
  · rw [if_neg hknown]
    exact ⟨fun h => absurd h.1 hknown, fun h => nomatch h⟩

mutual

theorem compareType_iff (candidate reference : ValueType R) :
    compareType (graph f known) candidate reference = true ↔
      renameType (within f known) candidate = some reference := by
  cases candidate with
  | Scalar kind => cases reference <;> simp [compareType, renameType]
  | List element =>
      cases reference <;> simp [compareType, renameType, compareType_iff element]
  | Record fields =>
      cases reference <;> simp [compareType, renameType, compareFields_iff fields]
  | Tuple types =>
      cases reference <;> simp [compareType, renameType, compareTypes_iff types]
  | Variant cases =>
      cases reference <;> simp [compareType, renameType, compareCases_iff cases]
  | Enum names => cases reference <;> simp [compareType, renameType]
  | Option payload =>
      cases reference <;> simp [compareType, renameType, compareType_iff payload]
  | Result ok err =>
      cases reference <;> simp [compareType, renameType, compareOptionalType_iff ok,
        compareOptionalType_iff err, Option.bind_eq_some_iff]
  | Flags names => cases reference <;> simp [compareType, renameType]
  | Own resource => cases reference <;> simp [compareType, renameType, mem_graph_within]
  | Borrow resource => cases reference <;> simp [compareType, renameType, mem_graph_within]

theorem compareOptionalType_iff (candidate reference : Option (ValueType R)) :
    compareOptionalType (graph f known) candidate reference = true ↔
      renameOptionalType (within f known) candidate = some reference := by
  cases candidate with
  | none => cases reference <;> simp [compareOptionalType, renameOptionalType]
  | some ty =>
      cases reference <;> simp [compareOptionalType, renameOptionalType, compareType_iff ty]

theorem compareFields_iff (candidate reference : List (String × ValueType R)) :
    compareFields (graph f known) candidate reference = true ↔
      renameFields (within f known) candidate = some reference := by
  cases candidate with
  | nil => cases reference <;> simp [compareFields, renameFields]
  | cons field candidate =>
      obtain ⟨name, ty⟩ := field
      cases reference with
      | nil => simp [compareFields, renameFields, Option.bind_eq_some_iff]
      | cons field' reference =>
          simp [compareFields, renameFields, compareType_iff ty, compareFields_iff candidate,
            Option.bind_eq_some_iff, Prod.ext_iff, and_assoc, and_comm, and_left_comm]

theorem compareTypes_iff (candidate reference : List (ValueType R)) :
    compareTypes (graph f known) candidate reference = true ↔
      renameTypes (within f known) candidate = some reference := by
  cases candidate with
  | nil => cases reference <;> simp [compareTypes, renameTypes]
  | cons ty candidate =>
      cases reference <;> simp [compareTypes, renameTypes, compareType_iff ty,
        compareTypes_iff candidate, Option.bind_eq_some_iff]

theorem compareCases_iff (candidate reference : List (String × Option (ValueType R))) :
    compareCases (graph f known) candidate reference = true ↔
      renameCases (within f known) candidate = some reference := by
  cases candidate with
  | nil => cases reference <;> simp [compareCases, renameCases]
  | cons field candidate =>
      obtain ⟨name, ty⟩ := field
      cases reference with
      | nil => simp [compareCases, renameCases, Option.bind_eq_some_iff]
      | cons field' reference =>
          simp [compareCases, renameCases, compareOptionalType_iff ty, compareCases_iff candidate,
            Option.bind_eq_some_iff, Prod.ext_iff, and_assoc, and_comm, and_left_comm]

end

theorem compareFunction_iff (candidate reference : ComponentFunc R) :
    compareFunction candidate reference (graph f known) = true ↔
      renameFunc (within f known) candidate = some reference := by
  obtain ⟨async, params, results⟩ := candidate
  obtain ⟨async', params', results'⟩ := reference
  simp [compareFunction, renameFunc, compareFields_iff, compareTypes_iff, Option.bind_eq_some_iff,
    and_assoc, and_comm, and_left_comm]

/-! ## Items -/

variable {f known}

theorem renameItems_cons {name : String} {item : ComponentItem R}
    {items renamed : List (String × ComponentItem R)} {known known' : List R} :
    renameItems f ((name, item) :: items) known = some (renamed, known') ↔
      ∃ first middle rest, renameItem f item known = some (first, middle) ∧
        renameItems f items middle = some (rest, known') ∧ renamed = (name, first) :: rest := by
  rw [renameItems, Option.bind_eq_some_iff]
  constructor
  · rintro ⟨⟨first, middle⟩, hfirst, hmap⟩
    obtain ⟨⟨rest, last⟩, hrest, heq⟩ := Option.map_eq_some_iff.1 hmap
    obtain ⟨rfl, rfl⟩ := Prod.mk.inj heq
    exact ⟨first, middle, rest, hfirst, hrest, rfl⟩
  · rintro ⟨first, middle, rest, hfirst, hrest, rfl⟩
    exact ⟨(first, middle), hfirst, by rw [hrest]; rfl⟩

theorem rememberExports_cons (name name' : String) (item item' : ComponentItem R)
    (candidate reference : List (String × ComponentItem R)) (context : ShapeContext R) :
    rememberExports ((name, item) :: candidate) ((name', item') :: reference) context =
      if name ≠ name' then none
      else
        match asResource item, asResource item' with
        | some resource, some resource' =>
            (rememberResource resource resource' context).bind fun context =>
              rememberExports candidate reference context
        | none, none => rememberExports candidate reference context
        | _, _ => none := by
  cases item <;> cases item' <;> rfl

theorem asResource_renameItem {item renamed : ComponentItem R} {known known' : List R}
    (h : renameItem f item known = some (renamed, known')) :
    asResource renamed = (asResource item).map f := by
  cases item with
  | CoreFunc => cases h
  | Module => cases h
  | Component => cases h
  | Resource resource => rw [← (Prod.mk.inj (Option.some.inj h)).1]; rfl
  | ComponentFunc func =>
      obtain ⟨func, -, heq⟩ := Option.map_eq_some_iff.1 h
      rw [← (Prod.mk.inj heq).1]
      rfl
  | Ty ty =>
      obtain ⟨ty, -, heq⟩ := Option.map_eq_some_iff.1 h
      rw [← (Prod.mk.inj heq).1]
      rfl
  | ComponentInstance exports =>
      obtain ⟨inside, -, heq⟩ := Option.map_eq_some_iff.1 h
      rw [← (Prod.mk.inj heq).1]
      rfl

theorem ownResources_le (exports : List (String × ComponentItem R)) (known : List R) :
    known <+: ownResources exports known := by
  induction exports generalizing known with
  | nil => exact List.prefix_rfl
  | cons item exports ih =>
      refine List.IsPrefix.trans ?_ (ih ((asResource item.2).elim known (extend known)))
      cases asResource item.2 with
      | none => exact List.prefix_rfl
      | some resource => exact le_extend known resource

mutual

/-- What is known stays known. -/
theorem renameItem_le {item renamed : ComponentItem R} {known known' : List R}
    (h : renameItem f item known = some (renamed, known')) : known <+: known' := by
  cases item with
  | ComponentFunc func =>
      obtain ⟨func, -, heq⟩ := Option.map_eq_some_iff.1 h
      exact (Prod.mk.inj heq).2 ▸ List.prefix_rfl
  | CoreFunc => cases h
  | Module => cases h
  | Component => cases h
  | ComponentInstance exports =>
      obtain ⟨inside, hinside, heq⟩ := Option.map_eq_some_iff.1 h
      rw [← (Prod.mk.inj heq).2]
      exact (ownResources_le exports known).trans (renameItems_le hinside)
  | Ty ty =>
      obtain ⟨ty, -, heq⟩ := Option.map_eq_some_iff.1 h
      exact (Prod.mk.inj heq).2 ▸ List.prefix_rfl
  | Resource resource =>
      rw [← (Prod.mk.inj (Option.some.inj h)).2]
      exact le_extend known resource

theorem renameItems_le {items renamed : List (String × ComponentItem R)} {known known' : List R}
    (h : renameItems f items known = some (renamed, known')) : known <+: known' := by
  cases items with
  | nil => exact (Prod.mk.inj (Option.some.inj h)).2 ▸ List.prefix_rfl
  | cons item items =>
      obtain ⟨name, item⟩ := item
      obtain ⟨first, middle, rest, hfirst, hrest, -⟩ := renameItems_cons.1 h
      exact (renameItem_le hfirst).trans (renameItems_le hrest)

end

theorem renameItems_length {items renamed : List (String × ComponentItem R)} {known known' : List R}
    (h : renameItems f items known = some (renamed, known')) : items.length = renamed.length := by
  induction items generalizing known renamed with
  | nil => rw [← (Prod.mk.inj (Option.some.inj h)).1]
  | cons item items ih =>
      obtain ⟨first, middle, rest, -, hrest, rfl⟩ := renameItems_cons.1 h
      rw [List.length_cons, List.length_cons, ih hrest]

/-! ## A renamed item passes -/

theorem rememberExports_of_rename {exports renamed : List (String × ComponentItem R)}
    {known inside known' : List R} (h : renameItems f exports inside = some (renamed, known'))
    (hinj : Set.InjOn f {resource | resource ∈ ownResources exports known}) :
    rememberExports exports renamed (graph f known) =
      some (graph f (ownResources exports known)) := by
  induction exports generalizing known inside renamed with
  | nil => rfl
  | cons item exports ih =>
      obtain ⟨name, item⟩ := item
      obtain ⟨first, middle, rest, hfirst, hrest, rfl⟩ := renameItems_cons.1 h
      rw [rememberExports_cons, if_neg (not_not_intro rfl), asResource_renameItem hfirst]
      have hown : ownResources ((name, item) :: exports) known =
          ownResources exports ((asResource item).elim known (extend known)) := rfl
      rw [hown] at hinj ⊢
      cases hresource : asResource item with
      | none =>
          rw [hresource] at hinj
          exact ih hrest hinj
      | some resource =>
          rw [hresource] at hinj
          have hle := ownResources_le exports (extend known resource)
          have hremember := @OneToOne.remember_graph _ _ _ _ f known resource
            (hinj.mono fun key hkey => hle.subset hkey)
          show (rememberResource resource (f resource) (graph f known)).bind _ = _
          rw [rememberResource, hremember, Option.bind_some]
          exact ih hrest hinj

mutual

theorem compareItem_of_rename {item renamed : ComponentItem R} {known known' : List R}
    (h : renameItem f item known = some (renamed, known'))
    (hinj : Set.InjOn f {resource | resource ∈ known'}) :
    compareItem item renamed (graph f known) = some (graph f known') := by
  cases item with
  | CoreFunc => cases h
  | Module => cases h
  | Component => cases h
  | ComponentFunc func =>
      obtain ⟨func', hfunc, heq⟩ := Option.map_eq_some_iff.1 h
      obtain ⟨rfl, rfl⟩ := Prod.mk.inj heq
      rw [compareItem, if_pos ((compareFunction_iff f known func func').2 hfunc)]
  | Ty ty =>
      obtain ⟨ty', hty, heq⟩ := Option.map_eq_some_iff.1 h
      obtain ⟨rfl, rfl⟩ := Prod.mk.inj heq
      rw [compareItem, if_pos ((compareType_iff f known ty ty').2 hty)]
  | Resource resource =>
      obtain ⟨rfl, rfl⟩ := Prod.mk.inj (Option.some.inj h)
      exact OneToOne.remember_graph hinj
  | ComponentInstance exports =>
      obtain ⟨inside, hinside, heq⟩ := Option.map_eq_some_iff.1 h
      obtain ⟨rfl, rfl⟩ := Prod.mk.inj heq
      have hle := renameItems_le hinside
      rw [compareItem, if_neg (not_not_intro (renameItems_length hinside)),
        rememberExports_of_rename hinside (hinj.mono fun key hkey => hle.subset hkey),
        Option.bind_eq_bind, Option.bind_some]
      exact compareItems_of_rename hinside hinj

theorem compareItems_of_rename {items renamed : List (String × ComponentItem R)}
    {known known' : List R} (h : renameItems f items known = some (renamed, known'))
    (hinj : Set.InjOn f {resource | resource ∈ known'}) :
    compareItems items renamed (graph f known) = some (graph f known') := by
  cases items with
  | nil =>
      obtain ⟨rfl, rfl⟩ := Prod.mk.inj (Option.some.inj h)
      rfl
  | cons item items =>
      obtain ⟨name, item⟩ := item
      obtain ⟨first, middle, rest, hfirst, hrest, rfl⟩ := renameItems_cons.1 h
      have hle := renameItems_le hrest
      rw [compareItems, compareItem_of_rename hfirst (hinj.mono fun key hkey => hle.subset hkey),
        Option.bind_eq_bind, Option.bind_some]
      exact compareItems_of_rename hrest hinj

end

/-! ## An item that passes is renamed -/

/-- The first loop remembers the resources of exports with the same names. -/
theorem rememberExports_some {candidate reference : List (String × ComponentItem R)}
    {context context' : ShapeContext R} (hlength : candidate.length = reference.length)
    (hpaired : Paired context) (h : rememberExports candidate reference context = some context') :
    Paired context' ∧ context <+: context' ∧
      context'.map Prod.fst = ownResources candidate (context.map Prod.fst) ∧
      candidate.map Prod.fst = reference.map Prod.fst := by
  induction candidate generalizing reference context with
  | nil =>
      obtain rfl := List.length_eq_zero_iff.1 hlength.symm
      obtain rfl := Option.some.inj h
      exact ⟨hpaired, List.prefix_rfl, rfl, rfl⟩
  | cons item candidate ih =>
      cases reference with
      | nil => cases hlength
      | cons item' reference =>
          obtain ⟨name, item⟩ := item
          obtain ⟨name', item'⟩ := item'
          rw [rememberExports_cons] at h
          by_cases hname : name = name'
          · rw [if_neg (not_not_intro hname)] at h
            have hlength := Nat.succ.inj hlength
            have hown : ∀ known, ownResources ((name, item) :: candidate) known =
                ownResources candidate ((asResource item).elim known (extend known)) :=
              fun _ => rfl
            rw [hown, List.map_cons, List.map_cons, hname]
            cases hresource : asResource item with
            | none =>
                cases hresource' : asResource item' with
                | none =>
                    rw [hresource, hresource'] at h
                    obtain ⟨hpaired', hle, hkeys, hnames⟩ := ih hlength hpaired h
                    exact ⟨hpaired', hle, hkeys, congrArg _ hnames⟩
                | some resource' =>
                    rw [hresource, hresource'] at h
                    cases h
            | some resource =>
                cases hresource' : asResource item' with
                | none =>
                    rw [hresource, hresource'] at h
                    cases h
                | some resource' =>
                    rw [hresource, hresource'] at h
                    obtain ⟨middle, hremember, hrest⟩ := Option.bind_eq_some_iff.1 h
                    obtain ⟨hmiddle, hbefore, -, hkey⟩ := OneToOne.remember_some hpaired hremember
                    obtain ⟨hpaired', hle, hkeys, hnames⟩ := ih hlength hmiddle hrest
                    rw [hkey] at hkeys
                    exact ⟨hpaired', hbefore.trans hle, hkeys, congrArg _ hnames⟩
          · rw [if_pos hname] at h
            cases h

/-- A function has the pairs of a context. -/
def Has (f : R → R) (context : ShapeContext R) : Prop := ∀ pair ∈ context, f pair.1 = pair.2

omit [DecidableEq R] in
theorem Has.of_le {context context' : ShapeContext R} (hle : context <+: context')
    (h : Has f context') : Has f context := fun pair hpair => h pair (hle.subset hpair)

mutual

theorem compareItem_some {candidate reference : ComponentItem R} {context context' : ShapeContext R}
    (hpaired : Paired context) (h : compareItem candidate reference context = some context') :
    Paired context' ∧ context <+: context' ∧ ∀ f, Has f context' →
      renameItem f candidate (context.map Prod.fst) = some (reference, context'.map Prod.fst) := by
  cases candidate with
  | CoreFunc => cases h
  | Module => cases h
  | Component => cases h
  | ComponentFunc func =>
      cases reference with
      | ComponentFunc func' =>
          rw [compareItem] at h
          split at h
          · rename_i hsame
            obtain rfl := Option.some.inj h
            refine ⟨hpaired, List.prefix_rfl, fun f hf => ?_⟩
            rw [OneToOne.eq_graph hf, compareFunction_iff] at hsame
            rw [renameItem, hsame]
            rfl
          · cases h
      | _ => cases h
  | Ty ty =>
      cases reference with
      | Ty ty' =>
          rw [compareItem] at h
          split at h
          · rename_i hsame
            obtain rfl := Option.some.inj h
            refine ⟨hpaired, List.prefix_rfl, fun f hf => ?_⟩
            rw [OneToOne.eq_graph hf, compareType_iff] at hsame
            rw [renameItem, hsame]
            rfl
          · cases h
      | _ => cases h
  | Resource resource =>
      cases reference with
      | Resource resource' =>
          obtain ⟨hpaired', hle, hmem, hkeys⟩ := OneToOne.remember_some hpaired h
          refine ⟨hpaired', hle, fun f hf => ?_⟩
          have hvalue : f resource = resource' := hf _ hmem
          rw [renameItem, hvalue, hkeys]
      | _ => cases h
  | ComponentInstance exports =>
      cases reference with
      | ComponentInstance exports' =>
          rw [compareItem] at h
          by_cases hlength : exports.length = exports'.length
          · rw [if_neg (not_not_intro hlength)] at h
            obtain ⟨inside, hinside, hrest⟩ := Option.bind_eq_some_iff.1 h
            obtain ⟨hmiddle, hbefore, hkeys, hnames⟩ :=
              rememberExports_some hlength hpaired hinside
            obtain ⟨hpaired', hle, hrename⟩ := compareItems_some hnames hmiddle hrest
            refine ⟨hpaired', hbefore.trans hle, fun f hf => ?_⟩
            rw [renameItem, ← hkeys, hrename f hf]
            rfl
          · rw [if_pos hlength] at h
            cases h
      | _ => cases h

theorem compareItems_some {candidate reference : List (String × ComponentItem R)}
    {context context' : ShapeContext R}
    (hnames : candidate.map Prod.fst = reference.map Prod.fst) (hpaired : Paired context)
    (h : compareItems candidate reference context = some context') :
    Paired context' ∧ context <+: context' ∧ ∀ f, Has f context' →
      renameItems f candidate (context.map Prod.fst) =
        some (reference, context'.map Prod.fst) := by
  cases candidate with
  | nil =>
      obtain rfl := List.map_eq_nil_iff.1 hnames.symm
      obtain rfl := Option.some.inj h
      exact ⟨hpaired, List.prefix_rfl, fun f _ => rfl⟩
  | cons item candidate =>
      cases reference with
      | nil => cases hnames
      | cons item' reference =>
          obtain ⟨name, item⟩ := item
          obtain ⟨name', item'⟩ := item'
          obtain ⟨rfl, hothers⟩ := List.cons_eq_cons.1 hnames
          rw [compareItems] at h
          obtain ⟨middle, hfirst, hrest⟩ := Option.bind_eq_some_iff.1 h
          obtain ⟨hmiddle, hbefore, hrename⟩ := compareItem_some hpaired hfirst
          obtain ⟨hpaired', hle, hrename'⟩ := compareItems_some hothers hmiddle hrest
          exact ⟨hpaired', hbefore.trans hle, fun f hf => renameItems_cons.2
            ⟨item', _, reference, hrename f (hf.of_le hle), hrename' f hf, rfl⟩⟩

end

/-! ## Components -/

theorem elim_ok {ε α : Type} {x : Option α} {e : ε} {a : α} :
    x.elim (Except.error e) Except.ok = .ok a ↔ x = some a := by
  cases x with
  | none => exact ⟨fun h => (nomatch h), fun h => (nomatch h)⟩
  | some value => simp

/-- The loop over the names of a world passes when the items are there and pass
one after the other. -/
theorem compareRoot_ok {find : ComponentType R → String → Option (ComponentItem R)}
    {missing shape : PreflightError} {candidate reference : ComponentType R} {names : List String}
    {context context' : ShapeContext R} :
    compareRoot find missing shape candidate reference names context = .ok context' ↔
      ∃ items items', (names.mapM fun name => (find candidate name).map (name, ·)) = some items ∧
        (names.mapM fun name => (find reference name).map (name, ·)) = some items' ∧
        compareItems items items' context = some context' := by
  induction names generalizing context with
  | nil => simp [compareRoot, compareItems]
  | cons name names ih =>
      simp only [compareRoot, bind_ok, elim_ok, ih, List.mapM_cons, Option.bind_eq_bind,
        Option.bind_eq_some_iff, Option.map_eq_some_iff]
      constructor
      · rintro ⟨item, hitem, item', hitem', middle, hfirst, items, items', hitems, hitems', hrest⟩
        refine ⟨(name, item) :: items, (name, item') :: items',
          ⟨_, ⟨item, hitem, rfl⟩, items, hitems, rfl⟩,
          ⟨_, ⟨item', hitem', rfl⟩, items', hitems', rfl⟩, ?_⟩
        rw [compareItems, hfirst]
        exact hrest
      · rintro ⟨all, all', ⟨_, ⟨item, hitem, rfl⟩, items, hitems, hall⟩,
          ⟨_, ⟨item', hitem', rfl⟩, items', hitems', hall'⟩, hcompare⟩
        obtain rfl := Option.some.inj hall
        obtain rfl := Option.some.inj hall'
        rw [compareItems] at hcompare
        obtain ⟨middle, hfirst, hrest⟩ := Option.bind_eq_some_iff.1 hcompare
        exact ⟨item, hitem, item', hitem', middle, hfirst, items, items', hitems, hitems', hrest⟩

theorem compareItems_append {first first' : List (String × ComponentItem R)}
    (hlength : first.length = first'.length) (second second' : List (String × ComponentItem R))
    (context : ShapeContext R) :
    compareItems (first ++ second) (first' ++ second') context =
      (compareItems first first' context).bind fun context =>
        compareItems second second' context := by
  induction first generalizing first' context with
  | nil =>
      obtain rfl := List.length_eq_zero_iff.1 hlength.symm
      rfl
  | cons item first ih =>
      cases first' with
      | nil => cases hlength
      | cons item' first' =>
          rw [List.cons_append, List.cons_append, compareItems, compareItems]
          simp only [Option.bind_eq_bind, Option.bind_assoc]
          refine congrArg _ (funext fun context => ?_)
          exact ih (Nat.succ.inj hlength) context

omit [DecidableEq R] in
theorem mapM_names {names : List String} {find : String → Option (ComponentItem R)}
    {items : List (String × ComponentItem R)}
    (h : (names.mapM fun name => (find name).map (name, ·)) = some items) :
    items.map Prod.fst = names := by
  induction names generalizing items with
  | nil => rw [← Option.some.inj h]; rfl
  | cons name names ih =>
      simp only [List.mapM_cons, Option.bind_eq_bind, Option.bind_eq_some_iff,
        Option.map_eq_some_iff] at h
      obtain ⟨_, ⟨item, -, rfl⟩, rest, hrest, heq⟩ := h
      rw [← Option.some.inj heq, List.map_cons, ih hrest]

omit [DecidableEq R] in
theorem worldItems_some {world : ComponentWorld} {component : ComponentType R}
    {items : List (String × ComponentItem R)} :
    worldItems world component = some items ↔ ∃ imports exports,
      (world.imports.mapM fun name => (component.getImport name).map (name, ·)) = some imports ∧
      (world.exports.mapM fun name => (component.getExport name).map (name, ·)) = some exports ∧
      imports ++ exports = items := by
  unfold worldItems
  rw [Option.bind_eq_some_iff]
  simp only [Option.map_eq_some_iff, exists_and_left]

/-- A shape passes exactly when the items of the world compare. -/
theorem validateShape_ok {candidate reference : ComponentType R} {world : ComponentWorld} :
    validateShape candidate reference world = .ok () ↔
      ∃ items items' context, worldItems world candidate = some items ∧
        worldItems world reference = some items' ∧ compareItems items items' [] = some context := by
  have hlengths {names : List String} {find find' : String → Option (ComponentItem R)}
      {items items' : List (String × ComponentItem R)}
      (h : (names.mapM fun name => (find name).map (name, ·)) = some items)
      (h' : (names.mapM fun name => (find' name).map (name, ·)) = some items') :
      items.length = items'.length := by
    have hnames := congrArg List.length ((mapM_names h).trans (mapM_names h').symm)
    rwa [List.length_map, List.length_map] at hnames
  simp only [validateShape, compareRootImports, compareRootExports, bind_ok, compareRoot_ok,
    worldItems_some]
  constructor
  · rintro ⟨middle, ⟨imports, imports', himports, himports', hmiddle⟩, context,
      ⟨exports, exports', hexports, hexports', hcontext⟩, -⟩
    refine ⟨_, _, context, ⟨imports, exports, himports, hexports, rfl⟩,
      ⟨imports', exports', himports', hexports', rfl⟩, ?_⟩
    rw [compareItems_append (hlengths himports himports'), hmiddle]
    exact hcontext
  · rintro ⟨_, _, context, ⟨imports, exports, himports, hexports, rfl⟩,
      ⟨imports', exports', himports', hexports', rfl⟩, hcompare⟩
    rw [compareItems_append (hlengths himports himports')] at hcompare
    obtain ⟨middle, hmiddle, hcontext⟩ := Option.bind_eq_some_iff.1 hcompare
    exact ⟨middle, ⟨imports, imports', himports, himports', hmiddle⟩, context,
      ⟨exports, exports', hexports, hexports', hcontext⟩, rfl⟩

omit [DecidableEq R] in
theorem worldItems_names {world : ComponentWorld} {component : ComponentType R}
    {items : List (String × ComponentItem R)} (h : worldItems world component = some items) :
    items.map Prod.fst = world.imports ++ world.exports := by
  obtain ⟨imports, exports, himports, hexports, rfl⟩ := worldItems_some.1 h
  rw [List.map_append, mapM_names himports, mapM_names hexports]

/-- A candidate passes if and only if the reference is the candidate with its
resources renamed one to one. -/
theorem validateShape_iff_isomorphic (candidate reference : ComponentType R)
    (world : ComponentWorld) :
    validateShape candidate reference world = .ok () ↔
      Isomorphic candidate reference world := by
  rw [validateShape_ok]
  constructor
  · rintro ⟨items, items', context, hitems, hitems', hcompare⟩
    have hempty : Paired ([] : ShapeContext R) := ⟨List.nodup_nil, List.nodup_nil⟩
    have hnames := (worldItems_names hitems).trans (worldItems_names hitems').symm
    obtain ⟨hpaired, -, hrename⟩ := compareItems_some hnames hempty hcompare
    obtain ⟨f, hf, hinj⟩ := hpaired.exists_graph id
    exact ⟨items, items', hitems, hitems', f, _, hrename f hf, hinj⟩
  · rintro ⟨items, items', hitems, hitems', f, known, hrename, hinj⟩
    exact ⟨items, items', _, hitems, hitems', compareItems_of_rename hrename hinj⟩

end

end MCode.Preflight
