import Depot.Filter.Visitor
import Depot.Text.Pattern
import Depot.Value.Compare

/-!
# Filters as predicates over metadata

The translation of a filter into a test on a decoded record. A field that is missing and a field that
is null are the same thing here: no comparison holds of them, and each negated kind of clause is the
negation of its plain kind.

A store may offer only some kinds of clauses (`FilterSupport`); the others are left out of the
visitor.
-/

namespace Depot

/-- Which filtering a store offers. -/
structure FilterSupport where
  /-- Whether records can be listed by their metadata alone. -/
  metadataFilter : Bool := true
  /-- The kinds of clauses that can be translated; all of them if nothing is said. -/
  operators : Option (List Operator) := none

namespace FilterSupport

def allows (support : FilterSupport) (op : Operator) : Bool :=
  match support.operators with
  | none => true
  | some operators => operators.contains op

/-- A translation if its kind of clause is offered. -/
def ifAllowed {β : Type} (support : FilterSupport) (op : Operator) (translation : β) : Option β :=
  if support.allows op then some translation else none

end FilterSupport

abbrev Test := Value → Bool

namespace Test

/-- The value of a field; none if it is null. -/
def lookup? (metadata : Value) (field : String) : Option Value :=
  match metadata.field? field with
  | some v => if v.isNull then none else some v
  | none => none

def isEqual (field : String) (value : Value) : Test := fun m =>
  match lookup? m field with
  | some v => v.looseEqual value
  | none => false

def isAmong (field : String) (values : List Value) : Test := fun m =>
  match lookup? m field with
  | some v => values.any v.looseEqual
  | none => false

def isWithin (op : RangeOp) (field : String) (bound : Value) : Test := fun m =>
  match lookup? m field with
  | some v =>
    match v.compare? bound with
    | some order => op.holds order
    | none => false
  | none => false

def isLike (field pattern : String) : Test := fun m =>
  match (lookup? m field).bind Value.asString? with
  | some s => Text.Pattern.isMatch pattern s
  | none => false

/-- Whether a text contains another as a run of characters. -/
def isInfix (needle : List Char) : (text : List Char) → Bool
  | [] => needle.isEmpty
  | c :: rest => needle.isPrefixOf (c :: rest) || isInfix needle rest

def doesContain (field : String) (value : Value) : Test := fun m =>
  match lookup? m field, value with
  | some (.array items), needle => items.any fun x => x.looseEqual needle
  | some (.string s), .string needle => isInfix needle.toList s.toList
  | _, _ => false

def isPresent (field : String) : Test := fun m => (lookup? m field).isSome

def negate (test : Test) : Test := fun m => !test m

def all (tests : List Test) : Test := fun m => tests.all fun test => test m

def any (tests : List Test) : Test := fun m => tests.any fun test => test m

end Test

/-- The translation of filters into tests, for the kinds of clauses that are offered. -/
def FilterSupport.visitor (support : FilterSupport) : Visitor Test where
  eq := support.ifAllowed .eq Test.isEqual
  ne := support.ifAllowed .ne fun field value => Test.negate (Test.isEqual field value)
  isIn := support.ifAllowed .isIn Test.isAmong
  notIn := support.ifAllowed .notIn fun field values => Test.negate (Test.isAmong field values)
  range op := support.ifAllowed op.operator (Test.isWithin op)
  like := support.ifAllowed .like Test.isLike
  contains := support.ifAllowed .contains Test.doesContain
  present := support.ifAllowed .present Test.isPresent
  not := support.ifAllowed .not Test.negate
  and := support.ifAllowed .and Test.all
  or := support.ifAllowed .or Test.any

def FilterSupport.compile (support : FilterSupport) (f : Filter) : Except Error Test :=
  f.accept support.visitor

end Depot
