import MCode.Lib.OneToOne
import MCode.Lib.Results
import MCode.Preflight.Error

/-!
# The shape of a component

`mcode-plugin-host/src/component_shape.rs`: the type of a component that was
compiled is compared with the type of the reference component of its world.
Resource types of two components are never the same, so they are paired as they
come: an instance's own resources before its items.

Both components are compiled by an engine without futures, streams, error
contexts and maps, so value types have none of these.  What is in a core
function, a module or a component is not read, since two of them never compare.

The shapes are the same exactly when the reference is the candidate with its
resources renamed, by a function that is injective on them, where handles are of
resources that are known by then.
-/

namespace MCode.Preflight

open MCode.Lib
open MCode.Lib.OneToOne (graph extend Paired)
open MCode.Lib.Results (bind_ok)

/-! ## Types -/

/-- The value types without parts. -/
inductive ScalarKind where
  | Bool | S8 | U8 | S16 | U16 | S32 | U32 | S64 | U64 | Float32 | Float64 | Char | String
  deriving DecidableEq

inductive ValueType (R : Type) where
  | Scalar (kind : ScalarKind)
  | List (element : ValueType R)
  | Record (fields : List (String × ValueType R))
  | Tuple (types : List (ValueType R))
  | Variant (cases : List (String × Option (ValueType R)))
  | Enum (names : List String)
  | Option (payload : ValueType R)
  | Result (ok err : Option (ValueType R))
  | Flags (names : List String)
  | Own (resource : R)
  | Borrow (resource : R)

structure ComponentFunc (R : Type) where
  async : Bool
  params : List (String × ValueType R)
  results : List (ValueType R)

inductive ComponentItem (R : Type) where
  | ComponentFunc (func : ComponentFunc R)
  | CoreFunc
  | Module
  | Component
  | ComponentInstance (exports : List (String × ComponentItem R))
  | Ty (ty : ValueType R)
  | Resource (resource : R)

structure ComponentType (R : Type) where
  imports : List (String × ComponentItem R)
  exports : List (String × ComponentItem R)

def ComponentType.getImport {R : Type} (self : ComponentType R) (name : String) :
    Option (ComponentItem R) := self.imports.lookup name

def ComponentType.getExport {R : Type} (self : ComponentType R) (name : String) :
    Option (ComponentItem R) := self.exports.lookup name

/-! ## The comparison -/

section

variable {R : Type} [DecidableEq R]

/-- The resources of the candidate with those of the reference. -/
abbrev ShapeContext (R : Type) := List (R × R)

mutual

def compareType (context : ShapeContext R) : ValueType R → ValueType R → Bool
  | .List candidate, .List reference => compareType context candidate reference
  | .Record candidate, .Record reference => compareFields context candidate reference
  | .Tuple candidate, .Tuple reference => compareTypes context candidate reference
  | .Variant candidate, .Variant reference => compareCases context candidate reference
  | .Enum candidate, .Enum reference => candidate == reference
  | .Option candidate, .Option reference => compareType context candidate reference
  | .Result ok err, .Result ok' err' =>
      compareOptionalType context ok ok' && compareOptionalType context err err'
  | .Flags candidate, .Flags reference => candidate == reference
  | .Own candidate, .Own reference | .Borrow candidate, .Borrow reference =>
      context.any fun known => known.1 == candidate && known.2 == reference
  | .Scalar candidate, .Scalar reference => candidate == reference
  | _, _ => false
termination_by structural candidate => candidate

def compareOptionalType (context : ShapeContext R) :
    Option (ValueType R) → Option (ValueType R) → Bool
  | some candidate, some reference => compareType context candidate reference
  | none, none => true
  | _, _ => false
termination_by structural candidate => candidate

/-- The fields of two records, as many and with the same names. -/
def compareFields (context : ShapeContext R) :
    List (String × ValueType R) → List (String × ValueType R) → Bool
  | [], [] => true
  | (name, ty) :: candidate, (name', ty') :: reference =>
      name == name' && compareType context ty ty' && compareFields context candidate reference
  | _, _ => false
termination_by structural candidate => candidate

def compareTypes (context : ShapeContext R) : List (ValueType R) → List (ValueType R) → Bool
  | [], [] => true
  | ty :: candidate, ty' :: reference =>
      compareType context ty ty' && compareTypes context candidate reference
  | _, _ => false
termination_by structural candidate => candidate

/-- The cases of two variants. -/
def compareCases (context : ShapeContext R) :
    List (String × Option (ValueType R)) → List (String × Option (ValueType R)) → Bool
  | [], [] => true
  | (name, ty) :: candidate, (name', ty') :: reference =>
      name == name' && compareOptionalType context ty ty' &&
        compareCases context candidate reference
  | _, _ => false
termination_by structural candidate => candidate

end

def compareFunction (candidate reference : ComponentFunc R) (context : ShapeContext R) : Bool :=
  candidate.async == reference.async &&
    compareFields context candidate.params reference.params &&
    compareTypes context candidate.results reference.results

/-- The context with one more pair, or nothing where it does not fit. -/
def rememberResource (candidate reference : R) (context : ShapeContext R) :
    Option (ShapeContext R) :=
  OneToOne.remember context candidate reference

/-- The first loop of `compare_instance`, over exports that are as many. -/
def rememberExports : List (String × ComponentItem R) → List (String × ComponentItem R) →
    ShapeContext R → Option (ShapeContext R)
  | (name, item) :: candidate, (name', item') :: reference, context =>
      if name ≠ name' then none
      else
        match item, item' with
        | .Resource resource, .Resource resource' => do
            let context ← rememberResource resource resource' context
            rememberExports candidate reference context
        | .Resource _, _ | _, .Resource _ => none
        | _, _ => rememberExports candidate reference context
  | _, _, context => some context

mutual

def compareItem : ComponentItem R → ComponentItem R → ShapeContext R → Option (ShapeContext R)
  | .ComponentInstance candidate, .ComponentInstance reference, context =>
      if candidate.length ≠ reference.length then none
      else do
        let context ← rememberExports candidate reference context
        compareItems candidate reference context
  | .ComponentFunc candidate, .ComponentFunc reference, context =>
      if compareFunction candidate reference context then some context else none
  | .Ty candidate, .Ty reference, context =>
      if compareType context candidate reference then some context else none
  | .Resource candidate, .Resource reference, context =>
      rememberResource candidate reference context
  | _, _, _ => none
termination_by structural candidate => candidate

/-- The second loop of `compare_instance`, over exports that are as many. -/
def compareItems : List (String × ComponentItem R) → List (String × ComponentItem R) →
    ShapeContext R → Option (ShapeContext R)
  | (_, item) :: candidate, (_, item') :: reference, context => do
      let context ← compareItem item item' context
      compareItems candidate reference context
  | _, _, context => some context
termination_by structural candidate => candidate

end

/-- The loop over the names of a world. -/
def compareRoot (find : ComponentType R → String → Option (ComponentItem R))
    (missing shape : PreflightError) (candidate reference : ComponentType R) :
    List String → ShapeContext R → Except PreflightError (ShapeContext R)
  | [], context => .ok context
  | name :: names, context => do
      let item ← (find candidate name).elim (.error missing) .ok
      let item' ← (find reference name).elim (.error .Engine) .ok
      let context ← (compareItem item item' context).elim (.error shape) .ok
      compareRoot find missing shape candidate reference names context

def compareRootImports (candidate reference : ComponentType R) (world : ComponentWorld)
    (context : ShapeContext R) : Except PreflightError (ShapeContext R) :=
  compareRoot ComponentType.getImport .MissingImport .ImportShape candidate reference
    world.imports context

def compareRootExports (candidate reference : ComponentType R) (world : ComponentWorld)
    (context : ShapeContext R) : Except PreflightError (ShapeContext R) :=
  compareRoot ComponentType.getExport .MissingExport .ExportShape candidate reference
    world.exports context

def validateShape (candidate reference : ComponentType R) (world : ComponentWorld) :
    Except PreflightError Unit := do
  let context ← compareRootImports candidate reference world []
  let _ ← compareRootExports candidate reference world context
  return ()

end

end MCode.Preflight
