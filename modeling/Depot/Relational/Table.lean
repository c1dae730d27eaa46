import Depot.Error
import Depot.Relational.RowOrder
import Depot.Spec.Basic
import Depot.Statement.Evaluate
import Depot.Value.Describe

/-!
# Tables

A table keeps rows in the order in which they came in. Every row has exactly the columns of the
table's spec. A row may not be null in its key, in a column that is not null, or in one whose field
is not nullable, and no two rows may hold the same value in the key or in a unique column; values
are the same if they are loosely equal.

Every change counts up the version, by which a transaction sees that the table has changed.
-/

namespace Depot.Relational

structure Table where
  spec : Spec
  rows : List Row := []
  version : Nat := 0

def rowNotFound (table : String) (key : Value) : Error :=
  .notFound (table ++ "/" ++ key.keyText)

namespace Table

def keyColumn (t : Table) : String := t.spec.key.column

def position? (t : Table) (key : Value) : Option Nat :=
  t.rows.findIdx? fun row =>
    match row.get? t.keyColumn with
    | some v => v.looseEqual key
    | none => false

def find? (t : Table) (key : Value) : Option Row :=
  (t.position? key).bind fun i => t.rows[i]?

/-- The row with all columns of the table, null where it says nothing. Unknown columns are refused. -/
def normalize (t : Table) (row : Row) : Except Error Row :=
  match row.keys.find? fun column => (t.spec.fieldByColumn? column).isNone with
  | some column => .error (.constraint ("unknown column '" ++ column ++ "'"))
  | none => .ok (.ofList (t.spec.fields.map fun f => (f.column, Row.cell row f.column)))

/-- Whether a row other than the one at a place holds a value in a column. -/
def isTaken (t : Table) (column : String) (v : Value) (slot : Option Nat) : Bool :=
  t.rows.zipIdx.any fun (row, i) =>
    some i != slot &&
      match row.get? column with
      | some other => other.looseEqual v
      | none => false

/-- Checks one column of a row that is to stand at a place. -/
def checkField (t : Table) (row : Row) (slot : Option Nat) (f : FieldSpec) : Except Error Unit :=
  let v := Row.cell row f.column
  if v.isNull then
    if f.isKey || f.notNull || !f.nullable then
      .error (.constraint ("column '" ++ f.column ++ "' may not be null"))
    else .ok ()
  else if (f.unique || f.isKey) && t.isTaken f.column v slot then
    .error (.duplicate ("column '" ++ f.column ++ "' already holds " ++ v.describe))
  else .ok ()

/-- Checks a row that is to stand at a place, column by column. -/
def checkRow (t : Table) (row : Row) (slot : Option Nat) : Except Error Unit :=
  t.spec.fields.forM (t.checkField row slot)

/-- The table with a row, which replaces the row with the same key or else comes last. -/
def upsert (t : Table) (row : Row) : Except Error Table := do
  let row ← t.normalize row
  let slot := t.position? (Row.cell row t.keyColumn)
  t.checkRow row slot
  let rows :=
    match slot with
    | some i => t.rows.set i row
    | none => t.rows ++ [row]
  return { t with rows, version := t.version + 1 }

def delete? (t : Table) (key : Value) : Option Table :=
  (t.position? key).map fun i => { t with rows := t.rows.eraseIdx i, version := t.version + 1 }

def matching (t : Table) (predicate : Predicate) : List Row :=
  t.rows.filter fun row => predicate.holds row

/-- The rows that a query means, in its order and cut to its page. -/
def query (t : Table) (q : BoundQuery) : List Row :=
  let rows := (Row.sortBy q.order (t.matching q.predicate)).drop (q.offset.getD 0)
  match q.limit with
  | some limit => rows.take limit
  | none => rows

/-- The row with values assigned to columns, one after the other. -/
def assign (assignments : List (String × Value)) (row : Row) : Row :=
  assignments.foldl (fun row a => row.insert a.1 a.2) row

/-- Applies assignments to the row at a place, checking it against the table as it is by then. -/
def updateAt (assignments : List (String × Value)) (t : Table) (i : Nat) : Except Error Table :=
  match t.rows[i]? with
  | none => .ok t
  | some row => do
    let row ← t.normalize (assign assignments row)
    t.checkRow row (some i)
    return { t with rows := t.rows.set i row }

/-- Applies an update to the rows that satisfy its predicate before it, from the first to the last. -/
def update (t : Table) (u : BoundUpdate) : Except Error (Nat × Table) := do
  let places := (t.rows.zipIdx.filter fun (row, _) => u.predicate.holds row).map Prod.snd
  let updated ← places.foldlM (updateAt u.assignments) t
  return (places.length,
    if places.isEmpty then updated else { updated with version := updated.version + 1 })

/-! ### Aggregates -/

/-- The sum of numbers, added up from the left, starting from the zero that adds to nothing. -/
def sum (xs : List Binary64) : Float :=
  xs.foldl (fun acc x => acc + Float.ofBits x.bits) (-0.0)

/-- The lesser of two numbers, the second of equal ones; a NaN gives way. -/
def lesser (a x : Float) : Float :=
  if x ≤ a || a.isNaN then x else a

/-- The greater of two numbers, the second of equal ones; a NaN gives way. -/
def greater (a x : Float) : Float :=
  if a ≤ x || a.isNaN then x else a

/-- The number that a function makes of numbers; zero of none. -/
def combine (func : AggregateFn) (xs : List Binary64) : Binary64 :=
  let floats := xs.map fun x => Float.ofBits x.bits
  let infinity := Float.ofBits (Binary64.infinity false).bits
  if xs.isEmpty then .zero
  else
    match func with
    | .count => .ofInt xs.length
    | .sum => ⟨(sum xs).toBits⟩
    | .avg => ⟨(sum xs / Float.ofBits (Binary64.ofInt xs.length).bits).toBits⟩
    | .min => ⟨(floats.foldl lesser infinity).toBits⟩
    | .max => ⟨(floats.foldl greater (-infinity)).toBits⟩

/-- The number of a cell in a column that has to be numeric. -/
def numberOf (func : AggregateFn) (column : String) (v : Value) : Except Error Binary64 :=
  match v.asFloat? with
  | some x => .ok x
  | none => .error (.invalidQuery (func.name ++ " over non-numeric column '" ++ column ++ "'"))

/-- The number that an aggregate makes of the rows it means. Nulls are left out. -/
def aggregate (t : Table) (a : BoundAggregate) : Except Error Binary64 :=
  let rows := t.matching a.predicate
  match a.column with
  | none =>
    if a.func = .count then .ok (.ofInt rows.length)
    else .error (.invalidQuery (a.func.name ++ " needs a column"))
  | some column => do
    let cells := (rows.map fun row => Row.cell row column).filter fun v => !v.isNull
    if a.func = .count then return .ofInt cells.length
    else return combine a.func (← cells.mapM (numberOf a.func column))

end Table

end Depot.Relational
