import Depot.Dict
import Depot.Spec.Basic

/-!
# Registries

A registry keeps the spec of every record type that was registered, under the identity of the type.
Registering a type again hands out the spec that is kept; a type whose declaration is wrong is not
kept.
-/

namespace Depot

/-- The specs of registered record types, under the identities of the types. -/
structure Registry where
  specs : Dict Spec := .empty

namespace Registry

def empty : Registry := ⟨.empty⟩

/-- The spec of a type, if the type was registered. -/
def spec? (r : Registry) (identity : String) : Option Spec :=
  r.specs.get? identity

def size (r : Registry) : Nat := r.specs.size

def isEmpty (r : Registry) : Bool := r.specs.isEmpty

/-- Keeps the spec of a type and hands it out. -/
def register (r : Registry) (identity : String) (declaration : Declaration) :
    Except Error Spec × Registry :=
  match r.spec? identity with
  | some spec => (.ok spec, r)
  | none =>
    match declaration.build with
    | .ok spec => (.ok spec, ⟨r.specs.insert identity spec⟩)
    | .error e => (.error e, r)

theorem register_of_spec? {r : Registry} {identity : String} {spec : Spec}
    (h : r.spec? identity = some spec) (declaration : Declaration) :
    r.register identity declaration = (.ok spec, r) := by
  simp [register, h]

end Registry

end Depot
