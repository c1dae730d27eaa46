import Depot.Error
import Depot.Spec.Basic
import Depot.Value.Basic

/-!
# Filters over records

A `Filter` is a tree of clauses over the fields of a record. Stores translate it into what they can
evaluate themselves, one clause at a time (`Depot.Filter.Visitor`). Before a filter reaches a store
it is validated: clauses that could never be meant are refused whatever the store.
-/

namespace Depot

inductive Operator
  | eq | ne | isIn | notIn | gt | ge | lt | le | like | contains | present | not | and | or
deriving DecidableEq, Inhabited

namespace Operator

def all : List Operator :=
  [eq, ne, isIn, notIn, gt, ge, lt, le, like, contains, present, not, and, or]

def name : Operator → String
  | eq => "eq"
  | ne => "ne"
  | isIn => "in"
  | notIn => "not_in"
  | gt => "gt"
  | ge => "ge"
  | lt => "lt"
  | le => "le"
  | like => "like"
  | contains => "contains"
  | present => "exists"
  | not => "not"
  | and => "and"
  | or => "or"

def ofName? (name : String) : Option Operator :=
  all.find? fun op => op.name == name

theorem mem_all (op : Operator) : op ∈ all := by
  cases op <;> decide

end Operator

inductive RangeOp
  | gt | ge | lt | le
deriving DecidableEq, Inhabited

namespace RangeOp

def all : List RangeOp := [gt, ge, lt, le]

def operator : RangeOp → Operator
  | gt => .gt
  | ge => .ge
  | lt => .lt
  | le => .le

/-- Whether an order of the field to the bound is within the range. -/
def holds : RangeOp → Ordering → Bool
  | gt, o => o == .gt
  | ge, o => o != .lt
  | lt, o => o == .lt
  | le, o => o != .gt

end RangeOp

inductive Filter
  | eq (field : String) (value : Value)
  | ne (field : String) (value : Value)
  | isIn (field : String) (values : List Value)
  | notIn (field : String) (values : List Value)
  | range (field : String) (op : RangeOp) (bound : Value)
  | like (field : String) (pattern : String)
  /-- The value is part of a text, or an element of an array. -/
  | contains (field : String) (value : Value)
  /-- The field has a value that is not null. -/
  | present (field : String)
  | not (inner : Filter)
  | and (clauses : List Filter)
  | or (clauses : List Filter)
deriving Inhabited

namespace Filter

def operator : Filter → Operator
  | eq .. => .eq
  | ne .. => .ne
  | isIn .. => .isIn
  | notIn .. => .notIn
  | range _ op _ => op.operator
  | like .. => .like
  | contains .. => .contains
  | present _ => .present
  | not _ => .not
  | and _ => .and
  | or _ => .or

mutual

def fields : Filter → List String
  | eq field _ | ne field _ | isIn field _ | notIn field _ | range field _ _ | like field _
  | contains field _ | present field => [field]
  | not inner => inner.fields
  | and clauses | or clauses => fieldsOfAll clauses

def fieldsOfAll : List Filter → List String
  | [] => []
  | f :: rest => f.fields ++ fieldsOfAll rest

end

/-- A clause has to name a field. -/
def checkField (field : String) : Except Error Unit :=
  if field = "" then .error (.invalidQuery "filter field name is empty") else .ok ()

/-- A list clause has to list something. -/
def checkValues (op : Operator) (field : String) (values : List Value) : Except Error Unit := do
  checkField field
  if values.isEmpty then
    .error (.invalidQuery (op.name ++ " on '" ++ field ++ "' needs at least one value"))
  else .ok ()

/-- Whether values can be above or below a value. -/
def isScalarBound : Value → Bool
  | .null | .array _ | .map _ => false
  | _ => true

/-- The bound of a range has to be a scalar. -/
def checkBound (field : String) (bound : Value) : Except Error Unit := do
  checkField field
  if isScalarBound bound then .ok ()
  else .error (.invalidQuery ("range bound on '" ++ field ++ "' must be a scalar"))

def emptyGroup (op : Operator) : Error :=
  .invalidQuery (op.name ++ " needs at least one clause")

mutual

/-- Checks that hold for every store: fields have names, lists and groups have members and the bounds
of ranges are scalars. The first fault from the left is reported, that of a group before those
of its clauses. -/
def validate : Filter → Except Error Unit
  | eq field _ | ne field _ | like field _ | contains field _ | present field => checkField field
  | isIn field values => checkValues .isIn field values
  | notIn field values => checkValues .notIn field values
  | range field _ bound => checkBound field bound
  | not inner => inner.validate
  | and clauses => if clauses.isEmpty then .error (emptyGroup .and) else validateAll clauses
  | or clauses => if clauses.isEmpty then .error (emptyGroup .or) else validateAll clauses

def validateAll : List Filter → Except Error Unit
  | [] => .ok ()
  | f :: rest => do
    f.validate
    validateAll rest

end

/-- Checks a filter against the record type it is meant for: every field has to be declared. -/
def checkFor (f : Filter) (spec : Spec) : Except Error Unit := do
  f.validate
  match f.fields.find? fun name => !spec.declares name with
  | some name =>
    .error (.invalidQuery ("filter field '" ++ name ++ "' is not declared by " ++ spec.typeName))
  | none => .ok ()

end Filter

end Depot
