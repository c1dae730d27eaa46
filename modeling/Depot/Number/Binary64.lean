import Depot.Number.Power

/-!
# Numbers of the binary64 format

A `Binary64` is kept as its sixty-four bits, so a number that only travels through a store comes
out as it went in, the payload of a NaN included. Its place on the number line is an integer, its
`rank`: the sign applied to the remaining bits. Ordering and equality are those of the ranks, with
NaN outside of both, and the two zeros share rank `0`.

Rounding starts from an exact quotient of naturals (`ofQuotient`): the exponent is the one that
leaves fifty-three binary digits, or the least one of the format, and the significand is rounded
half to even. Integers, decimal texts, products and quotients are rounded by it.
-/

namespace Depot

/-- A binary64 number, as its bits. -/
structure Binary64 where
  bits : UInt64
deriving DecidableEq, Inhabited

namespace Binary64

/-- The bits below the sign, as a natural number. -/
def magnitude (x : Binary64) : Nat :=
  x.bits.toNat % 2 ^ 63

def isNegative (x : Binary64) : Bool :=
  2 ^ 63 ≤ x.bits.toNat

/-- The magnitude of the infinities; every larger magnitude is a NaN's. -/
def infiniteMagnitude : Nat :=
  0x7ff * 2 ^ 52

def isNaN (x : Binary64) : Bool :=
  infiniteMagnitude < x.magnitude

def isFinite (x : Binary64) : Bool :=
  x.magnitude < infiniteMagnitude

/-- The number with the given sign and magnitude. -/
def ofMagnitude (negative : Bool) (magnitude : Nat) : Binary64 :=
  ⟨.ofNat (if negative then 2 ^ 63 + magnitude else magnitude)⟩

def zero : Binary64 := ⟨0⟩

/-- A number that is no number: the quiet NaN without a sign. -/
def nan : Binary64 := ofMagnitude false (infiniteMagnitude + 2 ^ 51)

def infinity (negative : Bool) : Binary64 := ofMagnitude negative infiniteMagnitude

/-! ### Order -/

/-- The place on the number line, counted in representable numbers from zero. -/
def rank (x : Binary64) : Int :=
  if x.isNegative then -(x.magnitude : Int) else x.magnitude

/-- Equality of numbers: zeros of either sign are equal, and a NaN equals nothing. -/
def equal (x y : Binary64) : Bool :=
  !x.isNaN && !y.isNaN && x.rank == y.rank

/-- The order of numbers; a NaN is comparable to nothing. -/
def compare? (x y : Binary64) : Option Ordering :=
  if x.isNaN || y.isNaN then none else some (compare x.rank y.rank)

theorem equal_eq_true_iff {x y : Binary64} :
    x.equal y = true ↔ x.isNaN = false ∧ y.isNaN = false ∧ x.rank = y.rank := by
  simp [equal, and_assoc]

/-! ### Rounding -/

/-- The quotient rounded to the nearest natural number, a half to the even neighbour. -/
def roundDiv (num den : Nat) : Nat :=
  let low := num / den
  let rest := 2 * (num % den)
  if rest < den then low
  else if den < rest then low + 1
  else low + low % 2

/-- `num / den` rounded after scaling by `2 ^ -exponent`. -/
def significand (num den : Nat) (exponent : Int) : Nat :=
  if 0 ≤ exponent then roundDiv num (den * 2 ^ exponent.toNat)
  else roundDiv (num * 2 ^ (-exponent).toNat) den

/-- The exponent that leaves fifty-three binary digits of `num / den` before the point, or the
least exponent of the format. -/
def exponentOf (num den : Nat) : Int :=
  let guess : Int := (Nat.log2 num : Int) - Nat.log2 den - 52
  let short : Bool :=
    if 0 ≤ guess then num < den * 2 ^ guess.toNat * 2 ^ 52
    else num * 2 ^ (-guess).toNat < den * 2 ^ 52
  max (-1074) (if short then guess - 1 else guess)

/-- The binary64 number nearest to `num / den`, a half going to the even significand; infinite from
half a unit above the largest finite number on. -/
def ofQuotient (negative : Bool) (num den : Nat) : Binary64 :=
  if num = 0 then ofMagnitude negative 0
  else
    let exponent := exponentOf num den
    let magnitude : Nat := (exponent + 1074).toNat * 2 ^ 52 + significand num den exponent
    ofMagnitude negative (min magnitude infiniteMagnitude)

/-- The number nearest to an integer. -/
def ofInt (i : Int) : Binary64 :=
  ofQuotient (i < 0) i.natAbs 1

/-- The number nearest to `digits * 10 ^ exponent`. Exponents that lie beyond the format by the
count of digits alone are settled without the power. -/
def ofDecimal (negative : Bool) (digits : Nat) (exponent : Int) : Binary64 :=
  let places : Nat := Nat.log2 digits / 3 + 1
  if digits = 0 || exponent + places < -400 then ofMagnitude negative 0
  else if 400 < exponent then infinity negative
  else if 0 ≤ exponent then ofQuotient negative (digits * 10 ^ exponent.toNat) 1
  else ofQuotient negative digits (10 ^ (-exponent).toNat)

/-- Significand and exponent of a finite number: it is `significand * 2 ^ exponent` up to sign. -/
def parts (x : Binary64) : Nat × Int :=
  let field : Nat := x.magnitude / 2 ^ 52
  let fraction : Nat := x.magnitude % 2 ^ 52
  if field = 0 then (fraction, -1074) else (2 ^ 52 + fraction, (field : Int) - 1075)

/-! ### Arithmetic of finite numbers -/

/-- The number with the given sign in place of its own. -/
def withSign (negative : Bool) (x : Binary64) : Binary64 :=
  ofMagnitude negative x.magnitude

/-- The number nearest to `num / den * 2 ^ exponent`. -/
def ofScaled (negative : Bool) (num den : Nat) (exponent : Int) : Binary64 :=
  ofQuotient negative (num * 2 ^ exponent.toNat) (den * 2 ^ (-exponent).toNat)

/-- The number nearest to the product of two finite numbers, infinite if that is too large. -/
def mul (x y : Binary64) : Binary64 :=
  ofScaled (x.isNegative ^^ y.isNegative) (x.parts.1 * y.parts.1) 1 (x.parts.2 + y.parts.2)

/-- The number nearest to the quotient of two finite numbers, the second one not zero. -/
def div (x y : Binary64) : Binary64 :=
  ofScaled (x.isNegative ^^ y.isNegative) x.parts.1 y.parts.1 (x.parts.2 - y.parts.2)

end Binary64

end Depot
