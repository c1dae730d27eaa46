import Depot.Dict
import Depot.Number.Binary64

/-!
# Values

A `Value` is the tree every record passes through on its way into a store and out of it. Codecs
turn it into bytes, filters and predicates are evaluated against it, and rows and atoms keep it in
their cells.

Whole numbers come in two kinds. `integer` is the usual one; `uinteger` is for numbers above the
range of `integer`, and `Value.ofUInt64` keeps that rule. A value built by hand may break it, which
is why equality distinguishes the two.

The members of a `map` are listed by rising key. A tree built by the functions of this library keeps
that order at every depth (`Value.Ordered`).
-/

namespace Depot

/-- A dynamically typed tree. -/
inductive Value
  | null
  | bool (b : Bool)
  | integer (i : Int64)
  | uinteger (u : UInt64)
  | float (x : Binary64)
  | string (s : String)
  | bytes (b : List UInt8)
  | array (items : List Value)
  | map (members : List (String × Value))
deriving Inhabited

/-- A row of a table: cells under their column names. -/
abbrev Row := Dict Value

namespace Value

/-- The name of a value's kind, for messages. -/
def kindName : Value → String
  | null => "null"
  | bool _ => "bool"
  | integer _ | uinteger _ => "integer"
  | float _ => "float"
  | string _ => "string"
  | bytes _ => "bytes"
  | array _ => "array"
  | map _ => "map"

def isNull : Value → Bool
  | null => true
  | _ => false

def isMap : Value → Bool
  | map _ => true
  | _ => false

theorem isNull_eq_true_iff {v : Value} : v.isNull = true ↔ v = null := by
  cases v <;> simp [isNull]

/-! ### Making values -/

/-- The greatest number an `integer` holds. -/
def integerMax : Nat := 2 ^ 63 - 1

/-- An unsigned number in the kind that fits it: `uinteger` only above the range of `integer`. -/
def ofUInt64 (u : UInt64) : Value :=
  if u.toNat ≤ integerMax then integer (.ofInt u.toNat) else uinteger u

/-- A whole number in the kind that fits it, if one does. -/
def ofInt? (i : Int) : Option Value :=
  if -2 ^ 63 ≤ i ∧ i < 2 ^ 63 then some (integer (.ofInt i))
  else if 0 ≤ i ∧ i < 2 ^ 64 then some (uinteger (.ofNat i.toNat))
  else none

def ofDict (d : Dict Value) : Value :=
  map d.entries

def ofByte (b : UInt8) : Value :=
  integer (.ofInt b.toNat)

/-! ### Views -/

def field? (v : Value) (name : String) : Option Value :=
  match v with
  | map members => members.lookup name
  | _ => none

def asString? : Value → Option String
  | string s => some s
  | _ => none

def asInt64? : Value → Option Int64
  | integer i => some i
  | _ => none

def asUInt64? : Value → Option UInt64
  | integer i => if 0 ≤ i.toInt then some (.ofNat i.toInt.toNat) else none
  | uinteger u => some u
  | _ => none

/-- The numeric view, in which whole numbers are rounded to the nearest float. -/
def asFloat? : Value → Option Binary64
  | integer i => some (.ofInt i.toInt)
  | uinteger u => some (.ofInt u.toNat)
  | float x => some x
  | _ => none

def asBool? : Value → Option Bool
  | bool b => some b
  | _ => none

/-! ### Order of members -/

mutual

/-- Members rise by key in this value and everything below it. -/
def Ordered : Value → Prop
  | array items => OrderedItems items
  | map members => Entries.Ordered members ∧ OrderedMembers members
  | _ => True

def OrderedItems : List Value → Prop
  | [] => True
  | v :: rest => v.Ordered ∧ OrderedItems rest

def OrderedMembers : List (String × Value) → Prop
  | [] => True
  | (_, v) :: rest => v.Ordered ∧ OrderedMembers rest

end

mutual

/-- The value with the members of every map arranged by key; of two members with one key the later
one stays. -/
def arrange : Value → Value
  | array items => array (arrangeItems items)
  | map members => map (Entries.arrange (arrangeMembers members))
  | v => v

def arrangeItems : List Value → List Value
  | [] => []
  | v :: rest => v.arrange :: arrangeItems rest

def arrangeMembers : List (String × Value) → List (String × Value)
  | [] => []
  | (k, v) :: rest => (k, v.arrange) :: arrangeMembers rest

end

end Value

end Depot
