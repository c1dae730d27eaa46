import Depot.Dict
import Depot.Value.Basic

/-!
# Statements

A statement says which rows of a table are meant and what is to be done with them. As it is written
it names fields and parameters (`Condition`, `Query`, `Update`, `Aggregate`); what a table works on
is its bound form, with columns in place of fields and values in place of parameters (`Predicate`,
`BoundQuery`, `BoundUpdate`, `BoundAggregate`).
-/

namespace Depot

abbrev Params := Dict Value

inductive CompareOp
  | eq | ne | gt | ge | lt | le | like
  /-- The parameter is an array that holds the field's value. -/
  | isIn
deriving DecidableEq, Inhabited

namespace CompareOp

def all : List CompareOp := [eq, ne, gt, ge, lt, le, like, isIn]

def name : CompareOp → String
  | eq => "eq"
  | ne => "ne"
  | gt => "gt"
  | ge => "ge"
  | lt => "lt"
  | le => "le"
  | like => "like"
  | isIn => "in"

def ofName? (name : String) : Option CompareOp :=
  all.find? fun op => op.name == name

theorem mem_all (op : CompareOp) : op ∈ all := by
  cases op <;> decide

end CompareOp

/-- A condition as it is written. -/
inductive Condition
  | compare (field : String) (op : CompareOp) (param : String)
  | isNull (field : String)
  | isNotNull (field : String)
  | all (conditions : List Condition)
  | any (conditions : List Condition)
deriving Inhabited

/-- A condition as it is evaluated. -/
inductive Predicate
  | compare (column : String) (op : CompareOp) (value : Value)
  | isNull (column : String)
  | isNotNull (column : String)
  /-- Holds when there is nothing in it. -/
  | all (predicates : List Predicate)
  | any (predicates : List Predicate)
deriving Inhabited

inductive Direction
  | asc
  | desc
deriving DecidableEq

/-- Orders rise where nothing is said. -/
instance : Inhabited Direction := ⟨.asc⟩

def Direction.name : Direction → String
  | asc => "asc"
  | desc => "desc"

/-- A selection of rows: all conditions hold, in an order, from an offset on and up to a limit. -/
structure Query where
  conditions : List Condition := []
  orderBy : List (String × Direction) := []
  limit : Option Nat := none
  offset : Option Nat := none

/-- Assignments of parameters to fields in all rows that satisfy the conditions. -/
structure Update where
  assignments : List (String × String) := []
  conditions : List Condition := []

/-- The functions that make one number of many rows. -/
inductive AggregateFn
  | count | sum | avg | min | max
deriving DecidableEq, Inhabited

namespace AggregateFn

def all : List AggregateFn := [count, sum, avg, min, max]

def name : AggregateFn → String
  | count => "COUNT"
  | sum => "SUM"
  | avg => "AVG"
  | min => "MIN"
  | max => "MAX"

end AggregateFn

/-- A number made of the rows that satisfy the conditions. Only a count may do without a field. -/
structure Aggregate where
  func : AggregateFn
  field : Option String := none
  conditions : List Condition := []

structure BoundQuery where
  predicate : Predicate
  order : List (String × Direction) := []
  limit : Option Nat := none
  offset : Option Nat := none

structure BoundUpdate where
  assignments : List (String × Value)
  predicate : Predicate

structure BoundAggregate where
  func : AggregateFn
  column : Option String
  predicate : Predicate

end Depot
