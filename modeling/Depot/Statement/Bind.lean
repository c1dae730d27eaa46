import Depot.Error
import Depot.Spec.Basic
import Depot.Statement.Basic

/-!
# Binding statements

Binding checks a statement against a spec and parameters and gives its bound form. Every field has to
be declared and every parameter given; a parameter for membership has to be an array, one for a
pattern a text; an empty choice is refused. An update assigns something and never the key.

The first fault in reading order is reported: the order of a query before its conditions, the
assignments of an update before its conditions, the field of an aggregate before its conditions.
-/

namespace Depot

def Spec.columnOf (spec : Spec) (field : String) : Except Error String :=
  match spec.field? field with
  | some f => .ok f.column
  | none => .error (.invalidQuery ("unknown field '" ++ field ++ "' on " ++ spec.typeName))

def Params.value (params : Params) (param : String) : Except Error Value :=
  match params.get? param with
  | some v => .ok v
  | none => .error (.invalidQuery ("missing parameter '" ++ param ++ "'"))

namespace CompareOp

/-- Whether a value can be compared with in this way. -/
def accepts : CompareOp → Value → Bool
  | isIn, .array _ => true
  | isIn, _ => false
  | like, .string _ => true
  | like, _ => false
  | _, _ => true

def refusal (op : CompareOp) (param : String) (v : Value) : Error :=
  let wanted := if op = isIn then " for IN must be an array, got " else " for LIKE must be a string, got "
  .invalidQuery ("parameter '" ++ param ++ "'" ++ wanted ++ v.kindName)

end CompareOp

namespace Condition

mutual

def bind (spec : Spec) (params : Params) : Condition → Except Error Predicate
  | compare field op param => do
    let column ← spec.columnOf field
    let value ← Params.value params param
    if op.accepts value then return .compare column op value
    else .error (op.refusal param value)
  | isNull field => do return .isNull (← spec.columnOf field)
  | isNotNull field => do return .isNotNull (← spec.columnOf field)
  | all conditions => do return .all (← bindAll spec params conditions)
  | any conditions => do
    if conditions.isEmpty then .error (.invalidQuery "ANY group needs at least one condition")
    else return .any (← bindAll spec params conditions)

def bindAll (spec : Spec) (params : Params) : List Condition → Except Error (List Predicate)
  | [] => .ok []
  | c :: rest => do
    let first ← bind spec params c
    let rest ← bindAll spec params rest
    return first :: rest

end

/-- The predicate of conditions that all have to hold. -/
def bindGroup (spec : Spec) (params : Params) (conditions : List Condition) :
    Except Error Predicate := do
  return .all (← bindAll spec params conditions)

end Condition

def Query.bind (q : Query) (spec : Spec) (params : Params) : Except Error BoundQuery := do
  let order ← q.orderBy.mapM fun o => do return (← spec.columnOf o.1, o.2)
  let predicate ← Condition.bindGroup spec params q.conditions
  return { predicate, order, limit := q.limit, offset := q.offset }

namespace Update

/-- One assignment, to any field but the key. -/
def bindAssignment (spec : Spec) (params : Params) (assignment : String × String) :
    Except Error (String × Value) := do
  let (field, param) := assignment
  if field = spec.key.name then
    .error (.invalidQuery ("cannot update primary key '" ++ field ++ "'"))
  else
    let value ← Params.value params param
    return (← spec.columnOf field, value)

def bind (u : Update) (spec : Spec) (params : Params) : Except Error BoundUpdate := do
  if u.assignments.isEmpty then .error (.invalidQuery "update has no assignments")
  else
    let assignments ← u.assignments.mapM (bindAssignment spec params)
    let predicate ← Condition.bindGroup spec params u.conditions
    return { assignments, predicate }

end Update

namespace Aggregate

/-- The column to work on: a count may have none, every other function needs a numeric one. -/
def bindColumn (a : Aggregate) (spec : Spec) : Except Error (Option String) :=
  match a.field with
  | none =>
    if a.func = .count then .ok none
    else .error (.invalidQuery (a.func.name ++ " needs a field"))
  | some field =>
    match spec.field? field with
    | none => .error (.invalidQuery ("unknown field '" ++ field ++ "' on " ++ spec.typeName))
    | some f =>
      if a.func ≠ .count ∧ !f.kind.isNumeric then
        .error (.invalidQuery
          (a.func.name ++ " needs a numeric field, '" ++ field ++ "' is " ++ f.kind.name))
      else .ok (some f.column)

def bind (a : Aggregate) (spec : Spec) (params : Params) : Except Error BoundAggregate := do
  let column ← a.bindColumn spec
  let predicate ← Condition.bindGroup spec params a.conditions
  return { func := a.func, column, predicate }

end Aggregate

end Depot
