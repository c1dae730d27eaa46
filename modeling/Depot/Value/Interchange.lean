import Depot.Value.Basic
import Depot.Text.Base64

/-!
# The interchange form of a value

Data that travels as JSON knows no bytes, no number beyond the finite ones, and one kind of whole
number per range. `Value.interchange` brings a value into that form: bytes become base64 text or an
array of numbers, numbers that are not finite become null, and a whole number takes the kind that
fits it. Records are read from this form and written in it.
-/

namespace Depot

/-- What bytes become in the interchange form. -/
inductive ByteForm
  | base64
  | numbers
deriving DecidableEq

namespace ByteForm

def apply : ByteForm → List UInt8 → Value
  | base64, b => .string (String.ofList (Text.Base64.encode b))
  | numbers, b => .array (b.map Value.ofByte)

end ByteForm

namespace Value

mutual

def interchange (form : ByteForm) : Value → Value
  | uinteger u => ofUInt64 u
  | float x => if x.isFinite then float x else null
  | bytes b => form.apply b
  | array items => array (interchangeItems form items)
  | map members => map (interchangeMembers form members)
  | v => v

def interchangeItems (form : ByteForm) : List Value → List Value
  | [] => []
  | v :: rest => v.interchange form :: interchangeItems form rest

def interchangeMembers (form : ByteForm) : List (String × Value) → List (String × Value)
  | [] => []
  | (k, v) :: rest => (k, v.interchange form) :: interchangeMembers form rest

end

mutual

/-- How many containers lie around the innermost value. -/
def nesting : Value → Nat
  | array items => nestingItems items + 1
  | map members => nestingMembers members + 1
  | _ => 0

def nestingItems : List Value → Nat
  | [] => 0
  | v :: rest => max v.nesting (nestingItems rest)

def nestingMembers : List (String × Value) → Nat
  | [] => 0
  | (_, v) :: rest => max v.nesting (nestingMembers rest)

end

end Value

end Depot
