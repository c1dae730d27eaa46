import Depot.Number.Binary32
import Depot.Text.Utf8
import Depot.Value.Basic

/-!
# Reading MessagePack

The first byte names the form of a value, and in the short forms also its size or its number. All
forms of a kind are accepted, not only the shortest. Extension types and the unused form are not,
and neither is data that ends early or containers that lie deeper than `maxNesting`. Bytes behind
the value are left alone.

A text that is no UTF-8 is read as a byte string. The key of a member is a text or a byte string,
and has to be UTF-8.
-/

namespace Depot.MessagePack

/-- How deep containers may lie within one another. -/
def maxNesting : Nat := 1023

/-- The number that bytes denote, the highest first. -/
def ofBigEndian (bytes : List UInt8) : Nat :=
  bytes.foldl (fun n b => 256 * n + b.toNat) 0

/-- The first `n` bytes, and the rest. -/
def take? (n : Nat) (bytes : List UInt8) : Option (List UInt8 × List UInt8) :=
  let front := bytes.take n
  if front.length = n then some (front, bytes.drop n) else none

/-- A natural number of `width` bytes. -/
def takeNat? (width : Nat) (bytes : List UInt8) : Option (Nat × List UInt8) :=
  (take? width bytes).map fun (front, rest) => (ofBigEndian front, rest)

/-- A number of `width` bytes in two's complement. -/
def takeInt? (width : Nat) (bytes : List UInt8) : Option (Int × List UInt8) :=
  (takeNat? width bytes).map fun (n, rest) =>
    (if n < 2 ^ (8 * width - 1) then (n : Int) else n - 2 ^ (8 * width), rest)

/-- What the first byte of a value says. -/
inductive Form
  | value (v : Value)
  | nat (width : Nat)
  | int (width : Nat)
  | float32
  | float64
  | string (size : Nat)
  /-- A text whose size takes so many bytes. -/
  | sizedString (width : Nat)
  | sizedBinary (width : Nat)
  | array (count : Nat)
  | sizedArray (width : Nat)
  | map (count : Nat)
  | sizedMap (width : Nat)
  | unknown

/-- The form that a first byte names. -/
def Form.ofByte (b : UInt8) : Form :=
  let n := b.toNat
  if n < 0x80 then .value (.integer (.ofInt n))
  else if n < 0x90 then .map (n - 0x80)
  else if n < 0xa0 then .array (n - 0x90)
  else if n < 0xc0 then .string (n - 0xa0)
  else if 0xe0 ≤ n then .value (.integer (.ofInt ((n : Int) - 256)))
  else
    match n with
    | 0xc0 => .value .null
    | 0xc2 => .value (.bool false)
    | 0xc3 => .value (.bool true)
    | 0xc4 => .sizedBinary 1
    | 0xc5 => .sizedBinary 2
    | 0xc6 => .sizedBinary 4
    | 0xca => .float32
    | 0xcb => .float64
    | 0xcc => .nat 1
    | 0xcd => .nat 2
    | 0xce => .nat 4
    | 0xcf => .nat 8
    | 0xd0 => .int 1
    | 0xd1 => .int 2
    | 0xd2 => .int 4
    | 0xd3 => .int 8
    | 0xd9 => .sizedString 1
    | 0xda => .sizedString 2
    | 0xdb => .sizedString 4
    | 0xdc => .sizedArray 2
    | 0xdd => .sizedArray 4
    | 0xde => .sizedMap 2
    | 0xdf => .sizedMap 4
    | _ => .unknown

/-- The value of text bytes: a text if they are UTF-8, and the bytes themselves if not. -/
def textValue (bytes : List UInt8) : Value :=
  match Text.Utf8.decode? bytes with
  | some s => .string s
  | none => .bytes bytes

def readKey? : List UInt8 → Option (String × List UInt8)
  | [] => none
  | b :: rest => do
    let (bytes, rest) ← match Form.ofByte b with
      | .string size => take? size rest
      | .sizedString width | .sizedBinary width => do
        let (size, rest) ← takeNat? width rest
        take? size rest
      | _ => none
    return (← Text.Utf8.decode? bytes, rest)

/-- Reads so many items, with a reader for one of them. -/
def readItems? (readOne? : List UInt8 → Option (Value × List UInt8)) :
    (count : Nat) → List UInt8 → Option (List Value × List UInt8)
  | 0, bytes => some ([], bytes)
  | count + 1, bytes => do
    let (v, rest) ← readOne? bytes
    let (items, rest) ← readItems? readOne? count rest
    return (v :: items, rest)

/-- Reads so many members, with a reader for a member's value. -/
def readMembers? (readOne? : List UInt8 → Option (Value × List UInt8)) :
    (count : Nat) → List UInt8 → Option (List (String × Value) × List UInt8)
  | 0, bytes => some ([], bytes)
  | count + 1, bytes => do
    let (k, rest) ← readKey? bytes
    let (v, rest) ← readOne? rest
    let (members, rest) ← readMembers? readOne? count rest
    return ((k, v) :: members, rest)

/-- Reads a value that is no container, behind its first byte. -/
def readScalar? (form : Form) (bytes : List UInt8) : Option (Value × List UInt8) :=
  match form with
  | .value v => some (v, bytes)
  | .nat width => (takeNat? width bytes).map fun (n, rest) => (.ofUInt64 (.ofNat n), rest)
  | .int width => (takeInt? width bytes).map fun (i, rest) => (.integer (.ofInt i), rest)
  | .float32 => (takeNat? 4 bytes).map fun (n, rest) => (.float (Binary32.widen ⟨.ofNat n⟩), rest)
  | .float64 => (takeNat? 8 bytes).map fun (n, rest) => (.float ⟨.ofNat n⟩, rest)
  | .string size => (take? size bytes).map fun (front, rest) => (textValue front, rest)
  | .sizedString width => do
    let (size, rest) ← takeNat? width bytes
    let (front, rest) ← take? size rest
    return (textValue front, rest)
  | .sizedBinary width => do
    let (size, rest) ← takeNat? width bytes
    let (front, rest) ← take? size rest
    return (.bytes front, rest)
  | _ => none

/-- How many items or members the form of a container announces, and what follows. -/
def containerSize? (form : Form) (bytes : List UInt8) : Option (Nat × List UInt8) :=
  match form with
  | .array count | .map count => some (count, bytes)
  | .sizedArray width | .sizedMap width => takeNat? width bytes
  | _ => none

/-- Reads a value in which containers lie at most `nesting` deep. -/
def readValue? : (nesting : Nat) → List UInt8 → Option (Value × List UInt8)
  | _, [] => none
  | 0, b :: rest => readScalar? (Form.ofByte b) rest
  | nesting + 1, b :: rest =>
    let form := Form.ofByte b
    match form with
    | .array _ | .sizedArray _ => do
      let (count, rest) ← containerSize? form rest
      let (items, rest) ← readItems? (readValue? nesting) count rest
      return (.array items, rest)
    | .map _ | .sizedMap _ => do
      let (count, rest) ← containerSize? form rest
      let (members, rest) ← readMembers? (readValue? nesting) count rest
      return (.map members, rest)
    | form => readScalar? form rest

/-- The value at the front of the bytes. -/
def decode? (bytes : List UInt8) : Option Value :=
  (readValue? maxNesting bytes).map fun (v, _) => v.arrange

end Depot.MessagePack
