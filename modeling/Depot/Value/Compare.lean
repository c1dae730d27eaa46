import Depot.Value.Basic

/-!
# Equality and order of values

Three relations are in use. `Value.equal` is equality of trees, in which numbers of different kinds
differ and floats compare as numbers. `Value.looseEqual` also lets a whole number equal the float it
rounds to; keys, unique columns and filters use it. `Value.compare?` orders values of one kind and
numbers across kinds; it gives nothing where no order makes sense, null included.
-/

namespace Depot.Value

mutual

/-- Equality of trees; floats compare as numbers, so a NaN differs from itself. -/
def equal : Value → Value → Bool
  | null, null => true
  | bool a, bool b => a == b
  | integer a, integer b => a == b
  | uinteger a, uinteger b => a == b
  | float a, float b => a.equal b
  | string a, string b => a == b
  | bytes a, bytes b => a == b
  | array a, array b => equalItems a b
  | map a, map b => equalMembers a b
  | _, _ => false

def equalItems : List Value → List Value → Bool
  | [], [] => true
  | a :: as, b :: bs => a.equal b && equalItems as bs
  | _, _ => false

def equalMembers : List (String × Value) → List (String × Value) → Bool
  | [], [] => true
  | (k, a) :: as, (l, b) :: bs => k == l && a.equal b && equalMembers as bs
  | _, _ => false

end

/-- Equality in which a whole number also equals the float it rounds to. -/
def looseEqual : Value → Value → Bool
  | integer a, float b => (Binary64.ofInt a.toInt).equal b
  | float a, integer b => (Binary64.ofInt b.toInt).equal a
  | uinteger a, float b => (Binary64.ofInt a.toNat).equal b
  | float a, uinteger b => (Binary64.ofInt b.toNat).equal a
  | a, b => a.equal b

/-- The lexicographic order of byte strings. -/
def compareBytes : List UInt8 → List UInt8 → Ordering
  | [], [] => .eq
  | [], _ :: _ => .lt
  | _ :: _, [] => .gt
  | a :: as, b :: bs => (compare a b).then (compareBytes as bs)

/-- The order of comparable scalars: numbers across kinds, texts and byte strings
lexicographically, `false` before `true`. An `uinteger` lies above every `integer`. -/
def compare? : Value → Value → Option Ordering
  | integer a, integer b => some (compare a b)
  | uinteger a, uinteger b => some (compare a b)
  | integer _, uinteger _ => some .lt
  | uinteger _, integer _ => some .gt
  | string a, string b => some (compare a b)
  | bool a, bool b => some (compare a b)
  | bytes a, bytes b => some (compareBytes a b)
  | a, b =>
    match a.asFloat?, b.asFloat? with
    | some x, some y => x.compare? y
    | _, _ => none

end Depot.Value
