import Depot.Number.Literal
import Depot.Value.Basic

/-!
# Numbers in JSON text

A numeral is what is written of a number behind its sign: digits, perhaps more of them behind a point, and
perhaps an exponent. A whole number becomes the whole kind that fits it; a whole number outside of both,
and a negative zero, becomes a float, as does every number with a point or an exponent.

The float is not always the nearest one. Digits are gathered in a number of sixty-four bits while they
fit, this number is rounded, and what was rounded is multiplied with or divided by a power of ten, which
is a rounded number itself. A number of many digits may so be read as a neighbour of the float that it was
written for.
-/

namespace Depot.Json

open Literal (digitsValue spanDigits readExponent?)

/-- What is written of a number behind its sign. -/
structure Numeral where
  whole : List Char
  places : Option (List Char)
  power : Option Int
deriving DecidableEq

/-- The digits before the point: a zero stands alone. -/
def readWhole? (cs : List Char) : Option (List Char × List Char) :=
  match spanDigits cs with
  | ([], _) => none
  | ('0' :: _ :: _, _) => none
  | (digits, rest) => some (digits, rest)

/-- The digits behind the point, none if there is no point. -/
def readFraction? : List Char → Option (Option (List Char) × List Char)
  | '.' :: rest =>
    match spanDigits rest with
    | ([], _) => none
    | (digits, rest) => some (some digits, rest)
  | cs => some (none, cs)

def readNumeral? (cs : List Char) : Option (Numeral × List Char) := do
  let (whole, rest) ← readWhole? cs
  let (places, rest) ← readFraction? rest
  let (power, rest) ← readExponent? rest
  return ({ whole, places, power }, rest)

/-! ### Digits and powers of ten -/

/-- Appends digits to a number while it stays one of sixty-four bits; the others are left. -/
def gather (n : Nat) : List Char → Nat × List Char
  | [] => (n, [])
  | c :: cs =>
    let next := 10 * n + (c.toNat - 48)
    if next < 2 ^ 64 then gather next cs else (n, c :: cs)

/-- The digits that are used of a numeral, and the power of ten that they are to be multiplied with. Digits
behind the point are appended even if some before it were left. -/
def Numeral.gathered (n : Numeral) : Nat × Int :=
  let places := n.places.getD []
  let whole := gather 0 n.whole
  let all := gather whole.1 places
  (all.1, n.power.getD 0 + whole.2.length - (places.length - all.2.length : Nat))

/-- A power of ten that a float is near to. -/
def tenPower (exponent : Nat) : Binary64 :=
  .ofDecimal false 1 exponent

/-- Divides by the greatest power of ten, so many times or until nothing is left. -/
def lower : (times : Nat) → Binary64 → Binary64
  | 0, x => x
  | times + 1, x => if x.magnitude = 0 then x else lower times (x.div (tenPower 308))

/-- The float that `digits * 10 ^ exponent` is read as, none if it is infinite. -/
def scaled? (digits : Nat) (exponent : Int) : Option Binary64 :=
  let x := Binary64.ofInt digits
  if 308 < exponent then
    if digits = 0 then some x else none
  else if 0 ≤ exponent then
    let y := x.mul (tenPower exponent.toNat)
    if y.isFinite then some y else none
  else
    let times := (exponent.natAbs - 1) / 308
    some ((lower times x).div (tenPower (exponent.natAbs - 308 * times)))

/-! ### Values -/

/-- The value of a whole number of sixty-four bits and a sign. -/
def wholeNumber (negative : Bool) (digits : Nat) : Value :=
  let float : Value := .float ((Binary64.ofInt digits).withSign negative)
  if negative && digits = 0 then float
  else (Value.ofInt? (if negative then -(digits : Int) else digits)).getD float

/-- Whether there is a point or an exponent. -/
def Numeral.isReal (n : Numeral) : Bool :=
  n.places.isSome || n.power.isSome

/-- What a numeral is read as where no whole number is meant. -/
def Numeral.float? (negative : Bool) (n : Numeral) : Option Binary64 :=
  (scaled? n.gathered.1 n.gathered.2).map (.withSign negative)

def Numeral.value? (negative : Bool) (n : Numeral) : Option Value :=
  if !n.isReal && digitsValue n.whole < 2 ^ 64 then some (wholeNumber negative (digitsValue n.whole))
  else (n.float? negative).map .float

/-- Reads a number behind its sign. -/
def readUnsigned? (negative : Bool) (cs : List Char) : Option (Value × List Char) := do
  let (n, rest) ← readNumeral? cs
  let v ← n.value? negative
  return (v, rest)

def readNumber? : List Char → Option (Value × List Char)
  | '-' :: rest => readUnsigned? true rest
  | cs => readUnsigned? false cs

end Depot.Json
