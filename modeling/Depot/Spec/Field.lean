/-!
# Declared fields

A record type declares its fields one by one: a name by which atoms, filters and statements address
the field, a column by which rows do, a kind, and a few flags.
-/

namespace Depot

/-- What kind of value a field holds. -/
inductive FieldKind
  | integer
  | float
  | string
  | bool
  | bytes
  /-- Nested arrays or maps, kept as values. -/
  | composite
deriving DecidableEq, Inhabited

namespace FieldKind

def all : List FieldKind := [integer, float, string, bool, bytes, composite]

def name : FieldKind → String
  | integer => "integer"
  | float => "float"
  | string => "string"
  | bool => "bool"
  | bytes => "bytes"
  | composite => "composite"

/-- Whether sums and extremes make sense over the kind. -/
def isNumeric : FieldKind → Bool
  | integer | float => true
  | _ => false

end FieldKind

/-- One declared field of a record type. -/
structure FieldSpec where
  name : String
  /-- The name of the field in rows. -/
  column : String
  kind : FieldKind
  /-- Whether a record may leave the field without a value. -/
  nullable : Bool := false
  /-- Whether the field identifies the record. -/
  isKey : Bool := false
  /-- Whether rows must hold a value even if records need not. -/
  notNull : Bool := false
  /-- Whether no two rows may hold the same value. -/
  unique : Bool := false
deriving DecidableEq, Inhabited

namespace FieldSpec

/-- A field that must have a value and is stored under its own name. -/
def plain (name : String) (kind : FieldKind) : FieldSpec :=
  { name, column := name, kind }

def inColumn (f : FieldSpec) (column : String) : FieldSpec := { f with column }

def asKey (f : FieldSpec) : FieldSpec := { f with isKey := true }

def orNull (f : FieldSpec) : FieldSpec := { f with nullable := true }

def required (f : FieldSpec) : FieldSpec := { f with notNull := true }

def asUnique (f : FieldSpec) : FieldSpec := { f with unique := true }

end FieldSpec

end Depot
