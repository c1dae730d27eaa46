import Depot.Json.Number
import Depot.Text.Utf8
import Depot.Text.Hex

/-!
# Reading JSON text

A reader takes the characters of a text and gives a value with what is left behind it. Containers
may lie at most `maxNesting` deep, an escape must denote a character, a number must lie within the
floats, and nothing but blanks may follow the value.

Members are read as they are written, repetitions included (`read?`); `decode?` arranges them, the
last one of a name staying.

Every loop over the elements of a container is bounded by the length of the whole text, which no
container can exceed.
-/

namespace Depot.Json

/-- How deep containers may lie within one another. -/
def maxNesting : Nat := 127

def isBlank (c : Char) : Bool :=
  c = ' ' || c = '\n' || c = '\t' || c = '\r'

/-- The text from its first character on that is not blank. -/
def skipBlank (cs : List Char) : List Char :=
  cs.dropWhile isBlank

/-! ### Strings -/

/-- The character that a single letter stands for behind a backslash. -/
def unescape? (c : Char) : Option Char :=
  if c = '"' then some '"'
  else if c = '\\' then some '\\'
  else if c = '/' then some '/'
  else if c = 'b' then some '\x08'
  else if c = 'f' then some '\x0c'
  else if c = 'n' then some '\n'
  else if c = 'r' then some '\r'
  else if c = 't' then some '\t'
  else none

/-- Whether a code unit is the first half of a pair. -/
def isHighHalf (n : Nat) : Bool := 0xd800 ≤ n && n < 0xdc00

/-- Whether a code unit is the second half of a pair. -/
def isLowHalf (n : Nat) : Bool := 0xdc00 ≤ n && n < 0xe000

/-- The characters up to the closing quote, and what follows it. -/
def readString? : List Char → Option (List Char × List Char)
  | [] => none
  | '"' :: rest => some ([], rest)
  | '\\' :: 'u' :: a :: b :: c :: d :: rest => do
    let unit ← Text.Hex.number? [a, b, c, d]
    if isLowHalf unit then none
    else if isHighHalf unit then
      match rest with
      | '\\' :: 'u' :: e :: f :: g :: h :: rest =>
        let low ← Text.Hex.number? [e, f, g, h]
        if isLowHalf low then
          let (cs, rest) ← readString? rest
          return (.ofNat (0x10000 + (unit - 0xd800) * 0x400 + (low - 0xdc00)) :: cs, rest)
        else none
      | _ => none
    else
      let (cs, rest) ← readString? rest
      return (.ofNat unit :: cs, rest)
  | '\\' :: c :: rest => do
    let c ← unescape? c
    let (cs, rest) ← readString? rest
    return (c :: cs, rest)
  | c :: rest =>
    if c = '\\' ∨ c.toNat < 32 then none
    else do
      let (cs, rest) ← readString? rest
      return (c :: cs, rest)

/-! ### Values -/

/-- Reads a value that is no container, blanks before it being skipped already. -/
def readScalar? : List Char → Option (Value × List Char)
  | 'n' :: 'u' :: 'l' :: 'l' :: rest => some (.null, rest)
  | 't' :: 'r' :: 'u' :: 'e' :: rest => some (.bool true, rest)
  | 'f' :: 'a' :: 'l' :: 's' :: 'e' :: rest => some (.bool false, rest)
  | '"' :: rest => (readString? rest).map fun (cs, rest) => (.string (String.ofList cs), rest)
  | cs => readNumber? cs

/-- Reads the elements of an array up to its end, with a reader for one of them. -/
def readItems? (readOne? : List Char → Option (Value × List Char)) :
    (bound : Nat) → List Char → Option (List Value × List Char)
  | 0, _ => none
  | bound + 1, cs => do
    let (v, rest) ← readOne? cs
    match skipBlank rest with
    | ',' :: rest =>
      let (items, rest) ← readItems? readOne? bound rest
      return (v :: items, rest)
    | ']' :: rest => return ([v], rest)
    | _ => none

/-- Reads the members of an object up to its end, with a reader for a member's value. -/
def readMembers? (readOne? : List Char → Option (Value × List Char)) :
    (bound : Nat) → List Char → Option (List (String × Value) × List Char)
  | 0, _ => none
  | bound + 1, cs => do
    match skipBlank cs with
    | '"' :: rest =>
      let (key, rest) ← readString? rest
      match skipBlank rest with
      | ':' :: rest =>
        let (v, rest) ← readOne? rest
        match skipBlank rest with
        | ',' :: rest =>
          let (members, rest) ← readMembers? readOne? bound rest
          return ((String.ofList key, v) :: members, rest)
        | '\x7d' :: rest => return ([(String.ofList key, v)], rest)
        | _ => none
      | _ => none
    | _ => none

/-- Reads a value in which containers lie at most `nesting` deep. -/
def readValue? (bound : Nat) : (nesting : Nat) → List Char → Option (Value × List Char)
  | 0, cs => readScalar? (skipBlank cs)
  | nesting + 1, cs =>
    match skipBlank cs with
    | '[' :: rest =>
      match skipBlank rest with
      | ']' :: rest => some (.array [], rest)
      | _ => (readItems? (readValue? bound nesting) bound rest).map fun (items, rest) =>
        (.array items, rest)
    | '\x7b' :: rest =>
      match skipBlank rest with
      | '\x7d' :: rest => some (.map [], rest)
      | _ => (readMembers? (readValue? bound nesting) bound rest).map fun (members, rest) =>
        (.map members, rest)
    | cs => readScalar? cs

/-- The value of a JSON text, members as they are written. -/
def read? (text : List Char) : Option Value := do
  let (v, rest) ← readValue? text.length maxNesting text
  if (skipBlank rest).isEmpty then some v else none

/-- The value of a JSON text. -/
def decode? (text : List Char) : Option Value :=
  (read? text).map Value.arrange

end Depot.Json
