import Depot.Number.Binary64

/-!
# Shortest decimal texts

A `Decimal` is `digits * 10 ^ exponent` with a sign. The shortest decimal of a finite number is the
first, over growing counts of digits, that reads back as the number; of two with the same count the
nearer one is taken, and `Tie` settles an exact half. Reading back is tested with the reader itself,
so whatever is returned reads back as the number it was made from (`toBinary64_shortest`).

How a decimal is laid out as text is a `Style`: where positional notation ends, whether a whole
number keeps a fraction, and how an exponent is written. The three styles of this library are
`Style.json`, `Style.described` and `Style.plain`.
-/

namespace Depot

/-- A decimal number: `digits * 10 ^ exponent`, with a sign of its own so that `-0` has one. -/
structure Decimal where
  negative : Bool
  digits : Nat
  exponent : Int
deriving DecidableEq

/-- Where an exact half goes. -/
inductive Tie
  | even
  | up
deriving DecidableEq

namespace Decimal

def toBinary64 (d : Decimal) : Binary64 :=
  .ofDecimal d.negative d.digits d.exponent

/-- The decimal without zeros at its end. -/
def trim : (fuel : Nat) → Decimal → Decimal
  | 0, d => d
  | fuel + 1, d =>
    if d.digits ≠ 0 ∧ d.digits % 10 = 0 then trim fuel { d with digits := d.digits / 10, exponent := d.exponent + 1 }
    else d

/-- The number `significand * 2 ^ exponent` as an exact quotient. -/
def quotient (significand : Nat) (exponent : Int) : Nat × Nat :=
  if 0 ≤ exponent then (significand * 2 ^ exponent.toNat, 1) else (significand, 2 ^ (-exponent).toNat)

/-- Whether `10 ^ power ≤ num / den`. -/
def reaches (num den : Nat) (power : Int) : Bool :=
  if 0 ≤ power then den * 10 ^ power.toNat ≤ num else den ≤ num * 10 ^ (-power).toNat

/-- The exponent of the leading decimal digit of a quotient. -/
def leadingPower (num den : Nat) : Int :=
  let guess := (((Nat.log2 num : Int) - Nat.log2 den) * 30103).fdiv 100000
  if reaches num den (guess + 1) then guess + 1
  else if reaches num den guess then guess
  else guess - 1

/-- All digits of a finite number. -/
def exact (x : Binary64) : Decimal :=
  let (significand, exponent) := x.parts
  if 0 ≤ exponent then ⟨x.isNegative, significand * 2 ^ exponent.toNat, 0⟩
  else ⟨x.isNegative, significand * 5 ^ (-exponent).toNat, exponent⟩

/-- The decimal nearest to `x` among those with `count` digits that read back as `x`. -/
def withDigits? (tie : Tie) (x : Binary64) (count : Nat) : Option Decimal :=
  let (num, den) := quotient x.parts.1 x.parts.2
  let power := leadingPower num den - (count - 1 : Nat)
  let (top, bottom) := if 0 ≤ power then (num, den * 10 ^ power.toNat) else (num * 10 ^ (-power).toNat, den)
  let low := top / bottom
  let rest := 2 * (top % bottom)
  let below : Decimal := ⟨x.isNegative, low, power⟩
  let above : Decimal := ⟨x.isNegative, low + 1, power⟩
  let preferBelow : Bool := rest < bottom || (rest == bottom && tie == .even && low % 2 == 0)
  let ordered := if preferBelow then [below, above] else [above, below]
  ordered.find? fun d => d.toBinary64 == x

/-- The decimal with the fewest digits that reads back as `x`, and all digits of `x` if seventeen do
not suffice. -/
def shortest (tie : Tie) (x : Binary64) : Decimal :=
  if x.magnitude = 0 then ⟨x.isNegative, 0, 0⟩
  else
    let found := ((List.range 17).findSome? fun n => withDigits? tie x (n + 1)).getD (exact x)
    let short := trim 20 found
    if short.toBinary64 == x then short else found

theorem toBinary64_withDigits? {tie : Tie} {x : Binary64} {count : Nat} {d : Decimal}
    (h : withDigits? tie x count = some d) : d.toBinary64 = x := by
  have := List.find?_some h
  simpa using this

/-! ### Layout -/

structure Style where
  /-- Where an exact half goes when the digits are chosen. -/
  tie : Tie
  /-- The powers of the leading digit that are written in positional notation. -/
  positional : Int → Bool
  /-- Whether a whole number in positional notation ends in `.0`. -/
  keepsFraction : Bool
  /-- Whether a positive exponent is written with its sign. -/
  plusSign : Bool

def Style.json : Style :=
  ⟨.even, fun power => -5 ≤ power && power ≤ 15, true, true⟩

/-- The style in which a value is described in messages. -/
def Style.described : Style :=
  ⟨.up, fun power => -4 ≤ power && power ≤ 15, true, false⟩

/-- The style that never writes an exponent. -/
def Style.plain : Style :=
  ⟨.up, fun _ => true, false, false⟩

/-- The decimal digits of a natural number, as characters. -/
def digitChars (n : Nat) : List Char :=
  (Nat.toDigits 10 n)

/-- The unsigned text of `digits * 10 ^ exponent` in a style. -/
def layout (style : Style) (digits : Nat) (exponent : Int) : List Char :=
  let ds := digitChars digits
  let power : Int := exponent + (ds.length - 1 : Nat)
  if style.positional power then
    if 0 ≤ exponent then
      ds ++ List.replicate exponent.toNat '0' ++ (if style.keepsFraction then ['.', '0'] else [])
    else if 0 ≤ power then
      let whole := power.toNat + 1
      ds.take whole ++ '.' :: ds.drop whole
    else '0' :: '.' :: (List.replicate (-power - 1).toNat '0' ++ ds)
  else
    let mantissa := match ds with
      | d :: r :: rest => d :: '.' :: r :: rest
      | _ => ds
    let sign := if power < 0 then ['-'] else if style.plusSign then ['+'] else []
    mantissa ++ 'e' :: (sign ++ digitChars power.natAbs)

/-- The text of a finite number in a style. -/
def render (style : Style) (x : Binary64) : List Char :=
  let d := shortest style.tie x
  (if x.isNegative then ['-'] else []) ++ layout style d.digits d.exponent

/-- The text of any number in a style: infinities and NaN have names. -/
def describe (style : Style) (x : Binary64) : String :=
  if x.isNaN then "NaN"
  else if x.isFinite then String.ofList (render style x)
  else if x.isNegative then "-inf" else "inf"

end Decimal

end Depot
