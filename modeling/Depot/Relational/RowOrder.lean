import Depot.Statement.Evaluate

/-!
# The order of rows

Rows are compared column by column, nulls before everything. Cells that cannot be compared count as
equal, so the comparison need not be transitive on cells of several kinds; the sort is therefore
given as the process that it is: rows are put in one by one, each behind the last row that it does
not come before.
-/

namespace Depot

namespace Value

/-- The order of two cells: null first, and equal where nothing can be said. -/
def orderCells (a b : Value) : Ordering :=
  match a.isNull, b.isNull with
  | true, true => .eq
  | true, false => .lt
  | false, true => .gt
  | false, false => (a.compare? b).getD .eq

end Value

namespace Direction

/-- An order of rising cells, as this direction sees it. -/
def apply : Direction → Ordering → Ordering
  | asc, o => o
  | desc, o => o.swap

end Direction

namespace Row

/-- The order of two rows by one column after the other. -/
def compareBy (order : List (String × Direction)) (a b : Row) : Ordering :=
  match order with
  | [] => .eq
  | (column, direction) :: rest =>
    (direction.apply ((Row.cell a column).orderCells (Row.cell b column))).then (compareBy rest a b)

/-- Whether a row comes strictly before another. -/
def isBefore (order : List (String × Direction)) (a b : Row) : Bool :=
  compareBy order a b == .lt

/-- Puts a row into rows that are listed last to first, in front of the first of them that it does
not come before. -/
def insertBack (order : List (String × Direction)) (row : Row) : List Row → List Row
  | [] => [row]
  | last :: rest =>
    if isBefore order row last then last :: insertBack order row rest else row :: last :: rest

/-- The rows in an order; rows that are equal in it keep their places. -/
def sortBy (order : List (String × Direction)) (rows : List Row) : List Row :=
  (rows.foldl (fun sorted row => insertBack order row sorted) []).reverse

end Row

end Depot
