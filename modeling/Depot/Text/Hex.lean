import Depot.Number.Power

/-!
# Hexadecimal text

Lower-case hexadecimal digits: two for a byte, a fixed count for a number.
-/

namespace Depot.Text.Hex

/-- The digit of a number below sixteen. -/
def digit (n : Nat) : Char :=
  if n < 10 then Char.ofNat (48 + n) else Char.ofNat (87 + n)

/-- The number of a digit, of either case. -/
def value? (c : Char) : Option Nat :=
  if '0' ≤ c ∧ c ≤ '9' then some (c.toNat - 48)
  else if 'a' ≤ c ∧ c ≤ 'f' then some (c.toNat - 87)
  else if 'A' ≤ c ∧ c ≤ 'F' then some (c.toNat - 55)
  else none

/-- The last `width` digits of a number. -/
def padded (width n : Nat) : List Char :=
  (List.range width).map fun i => digit (n / 16 ^ (width - 1 - i) % 16)

/-- The digits of a number, none of them a leading zero. -/
def compact (n : Nat) : List Char :=
  Nat.toDigits 16 n

/-- Two digits for every byte. -/
def encode (bytes : List UInt8) : List Char :=
  bytes.flatMap fun b => padded 2 b.toNat

/-- Reads two digits as a byte, as long as there are any. -/
def decode? : List Char → Option (List UInt8)
  | [] => some []
  | [_] => none
  | high :: low :: rest => do
    let high ← value? high
    let low ← value? low
    let rest ← decode? rest
    return .ofNat (16 * high + low) :: rest

/-- The number that all digits of a text denote together. -/
def number? (digits : List Char) : Option Nat :=
  digits.foldlM (fun n c => (value? c).map (16 * n + ·)) 0

end Depot.Text.Hex
