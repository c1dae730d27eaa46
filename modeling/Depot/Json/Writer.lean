import Depot.Number.Decimal
import Depot.Text.Quoted
import Depot.Value.Interchange

/-!
# Writing JSON text

The text of a value without any white space, members in the order of the map. Values are written as
their interchange form in which bytes are arrays of numbers; a caller that wants base64 text brings
the value into that form first (`Json.encode`).
-/

namespace Depot.Json

def intChars (i : Int) : List Char :=
  if i < 0 then '-' :: Decimal.digitChars i.natAbs else Decimal.digitChars i.natAbs

/-- The texts of a list, separated by commas. -/
def joined : List (List Char) → List Char
  | [] => []
  | [t] => t
  | t :: rest => t ++ ',' :: joined rest

mutual

def write : Value → List Char
  | .null => ['n', 'u', 'l', 'l']
  | .bool true => ['t', 'r', 'u', 'e']
  | .bool false => ['f', 'a', 'l', 's', 'e']
  | .integer i => intChars i.toInt
  | .uinteger u => intChars u.toNat
  | .float x => if x.isFinite then Decimal.render .json x else ['n', 'u', 'l', 'l']
  | .string s => Text.Quoted.json s
  | .bytes b => '[' :: (joined (b.map fun x => Decimal.digitChars x.toNat) ++ [']'])
  | .array items => '[' :: (joined (writeItems items) ++ [']'])
  | .map members => '\x7b' :: (joined (writeMembers members) ++ ['\x7d'])

def writeItems : List Value → List (List Char)
  | [] => []
  | v :: rest => write v :: writeItems rest

def writeMembers : List (String × Value) → List (List Char)
  | [] => []
  | (k, v) :: rest => (Text.Quoted.json k ++ ':' :: write v) :: writeMembers rest

end

/-- The JSON text of a value in which bytes become base64 text. -/
def encode (v : Value) : List Char :=
  write (v.interchange .base64)

end Depot.Json
