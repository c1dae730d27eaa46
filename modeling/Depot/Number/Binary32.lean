import Depot.Number.Binary64

/-!
# Numbers of the binary32 format

The components of vectors, kept as their bits. Arithmetic is that of the machine's single
precision, with the sign of a NaN pinned down: an operand that is a NaN passes through, the first
one before the second, and an operation without a result yields the NaN whose sign bit is set. The
sign matters because distances are ranked by the total order on bit patterns, which places a
negative NaN before everything and a positive one after everything.
-/

namespace Depot

/-- A binary32 number, as its bits. -/
structure Binary32 where
  bits : UInt32
deriving DecidableEq, Inhabited

namespace Binary32

def magnitude (x : Binary32) : Nat :=
  x.bits.toNat % 2 ^ 31

def isNegative (x : Binary32) : Bool :=
  2 ^ 31 ≤ x.bits.toNat

/-- The magnitude of the infinities; every larger magnitude is a NaN's. -/
def infiniteMagnitude : Nat :=
  0xff * 2 ^ 23

def isNaN (x : Binary32) : Bool :=
  infiniteMagnitude < x.magnitude

def isFinite (x : Binary32) : Bool :=
  x.magnitude < infiniteMagnitude

def isZero (x : Binary32) : Bool :=
  x.magnitude == 0

def zero : Binary32 := ⟨0⟩

/-- The zero that adds to nothing: a sum starts from it, and an empty sum is it. -/
def negativeZero : Binary32 := ⟨0x80000000⟩

def one : Binary32 := ⟨0x3f800000⟩

/-- The result of an operation that has none. -/
def undefined : Binary32 := ⟨0xffc00000⟩

/-! ### Total order -/

/-- The place of a bit pattern in the total order: negative patterns first, by falling magnitude,
then the positive ones by rising magnitude. -/
def totalRank (x : Binary32) : Int :=
  if x.isNegative then -(x.magnitude : Int) - 1 else x.magnitude

/-! ### Arithmetic -/

/-- The number with its sign bit turned over, also for a NaN. -/
def neg (x : Binary32) : Binary32 :=
  ⟨x.bits ^^^ 0x80000000⟩

/-- The bits of a machine result, `undefined` when it is a NaN. -/
def ofFloat32 (r : Float32) : Binary32 :=
  let x : Binary32 := ⟨r.toBits⟩
  if x.isNaN then undefined else x

/-- A machine operation on two numbers; a NaN among them passes through. -/
def combine (op : Float32 → Float32 → Float32) (x y : Binary32) : Binary32 :=
  if x.isNaN then x
  else if y.isNaN then y
  else ofFloat32 (op (.ofBits x.bits) (.ofBits y.bits))

def add (x y : Binary32) : Binary32 := combine (· + ·) x y

def sub (x y : Binary32) : Binary32 := combine (· - ·) x y

def mul (x y : Binary32) : Binary32 := combine (· * ·) x y

def div (x y : Binary32) : Binary32 := combine (· / ·) x y

def sqrt (x : Binary32) : Binary32 :=
  if x.isNaN then x else ofFloat32 (Float32.ofBits x.bits).sqrt

def sum (xs : List Binary32) : Binary32 :=
  xs.foldl add negativeZero

/-! ### Widening -/

/-- The same number in the binary64 format; every binary32 number has one. -/
def widen (x : Binary32) : Binary64 :=
  let field := x.magnitude / 2 ^ 23
  let fraction := x.magnitude % 2 ^ 23
  if field = 0xff then
    .ofMagnitude x.isNegative (Binary64.infiniteMagnitude + fraction * 2 ^ 29)
  else if field = 0 then .ofQuotient x.isNegative fraction (2 ^ 149)
  else .ofMagnitude x.isNegative ((field + 896) * 2 ^ 52 + fraction * 2 ^ 29)

end Binary32

end Depot
