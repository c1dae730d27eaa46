import Depot.Text.Utf8
import Depot.Value.Basic

/-!
# Writing MessagePack

Every value takes its shortest form: the narrowest whole number that holds it, non-negative ones in
the unsigned forms, and the narrowest header of a text, a byte string or a container. Floats always
take sixty-four bits.
-/

namespace Depot.MessagePack

/-- The last `width` bytes of a number, the highest first. -/
def bigEndian (width n : Nat) : List UInt8 :=
  (List.range width).map fun i => .ofNat (n / 256 ^ (width - 1 - i))

/-- A natural number below `2 ^ 64`. -/
def writeNat (n : Nat) : List UInt8 :=
  if n < 2 ^ 7 then [.ofNat n]
  else if n < 2 ^ 8 then 0xcc :: bigEndian 1 n
  else if n < 2 ^ 16 then 0xcd :: bigEndian 2 n
  else if n < 2 ^ 32 then 0xce :: bigEndian 4 n
  else 0xcf :: bigEndian 8 n

/-- A negative number not below `-2 ^ 63`, as its two's complement. -/
def writeNegative (i : Int) : List UInt8 :=
  if -2 ^ 5 ≤ i then [.ofNat (2 ^ 8 + i).toNat]
  else if -2 ^ 7 ≤ i then 0xd0 :: bigEndian 1 (2 ^ 8 + i).toNat
  else if -2 ^ 15 ≤ i then 0xd1 :: bigEndian 2 (2 ^ 16 + i).toNat
  else if -2 ^ 31 ≤ i then 0xd2 :: bigEndian 4 (2 ^ 32 + i).toNat
  else 0xd3 :: bigEndian 8 (2 ^ 64 + i).toNat

def writeInt (i : Int) : List UInt8 :=
  if 0 ≤ i then writeNat i.toNat else writeNegative i

def stringHeader (n : Nat) : List UInt8 :=
  if n < 2 ^ 5 then [.ofNat (0xa0 + n)]
  else if n < 2 ^ 8 then 0xd9 :: bigEndian 1 n
  else if n < 2 ^ 16 then 0xda :: bigEndian 2 n
  else 0xdb :: bigEndian 4 n

def binaryHeader (n : Nat) : List UInt8 :=
  if n < 2 ^ 8 then 0xc4 :: bigEndian 1 n
  else if n < 2 ^ 16 then 0xc5 :: bigEndian 2 n
  else 0xc6 :: bigEndian 4 n

def arrayHeader (n : Nat) : List UInt8 :=
  if n < 2 ^ 4 then [.ofNat (0x90 + n)]
  else if n < 2 ^ 16 then 0xdc :: bigEndian 2 n
  else 0xdd :: bigEndian 4 n

def mapHeader (n : Nat) : List UInt8 :=
  if n < 2 ^ 4 then [.ofNat (0x80 + n)]
  else if n < 2 ^ 16 then 0xde :: bigEndian 2 n
  else 0xdf :: bigEndian 4 n

def writeString (s : String) : List UInt8 :=
  let bytes := Text.Utf8.encode s
  stringHeader bytes.length ++ bytes

mutual

def write : Value → List UInt8
  | .null => [0xc0]
  | .bool false => [0xc2]
  | .bool true => [0xc3]
  | .integer i => writeInt i.toInt
  | .uinteger u => writeNat u.toNat
  | .float x => 0xcb :: bigEndian 8 x.bits.toNat
  | .string s => writeString s
  | .bytes b => binaryHeader b.length ++ b
  | .array items => arrayHeader items.length ++ writeItems items
  | .map members => mapHeader members.length ++ writeMembers members

def writeItems : List Value → List UInt8
  | [] => []
  | v :: rest => write v ++ writeItems rest

def writeMembers : List (String × Value) → List UInt8
  | [] => []
  | (k, v) :: rest => writeString k ++ write v ++ writeMembers rest

end

end Depot.MessagePack
