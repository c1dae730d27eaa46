import Depot.Statement.Basic
import Depot.Text.Pattern
import Depot.Value.Compare

/-!
# Evaluating predicates on rows

A column that a row does not have counts as null. Null satisfies no comparison, not even an
inequality; only the two tests for null look at it.
-/

namespace Depot

/-- The cell of a column, null if the row has none. -/
def Row.cell (row : Row) (column : String) : Value :=
  (row.get? column).getD .null

namespace CompareOp

/-- Whether a cell that is not null compares with a value as said. -/
def holds : CompareOp → Value → Value → Bool
  | eq, cell, v => cell.looseEqual v
  | ne, cell, v => !cell.looseEqual v
  | gt, cell, v => cell.compare? v == some .gt
  | ge, cell, v => cell.compare? v == some .gt || cell.compare? v == some .eq
  | lt, cell, v => cell.compare? v == some .lt
  | le, cell, v => cell.compare? v == some .lt || cell.compare? v == some .eq
  | like, cell, v =>
    match cell.asString?, v.asString? with
    | some text, some pattern => Text.Pattern.isMatch pattern text
    | _, _ => false
  | isIn, cell, v =>
    match v with
    | .array items => items.any cell.looseEqual
    | _ => false

end CompareOp

namespace Predicate

mutual

def holds (row : Row) : Predicate → Bool
  | compare column op value =>
    let cell := Row.cell row column
    !cell.isNull && op.holds cell value
  | isNull column => (Row.cell row column).isNull
  | isNotNull column => !(Row.cell row column).isNull
  | all predicates => holdAll row predicates
  | any predicates => holdAny row predicates

def holdAll (row : Row) : List Predicate → Bool
  | [] => true
  | p :: rest => holds row p && holdAll row rest

def holdAny (row : Row) : List Predicate → Bool
  | [] => false
  | p :: rest => holds row p || holdAny row rest

end

end Predicate

end Depot
