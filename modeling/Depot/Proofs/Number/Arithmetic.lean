import Depot.Proofs.Number.Exact

/-!
# Products and quotients that are rounded once

A product or a quotient of two floats is rounded by its value. Where both of them are whole numbers the value
is that of the numbers (`mul_of_isWhole`, `div_of_isWhole`), so nothing is lost but by the one rounding.
-/

namespace Depot

namespace Binary64

/-- A quotient is rounded by its value. -/
theorem ofQuotient_congr (negative : Bool) {num den num' den' : Nat} (hden : den ≠ 0) (hden' : den' ≠ 0)
    (same : num * den' = num' * den) :
    ofQuotient negative num den = ofQuotient negative num' den' := by
  rw [← ofQuotient_scale negative num hden (Nat.pos_of_ne_zero hden'), same, Nat.mul_comm den,
    ofQuotient_scale negative num' hden' (Nat.pos_of_ne_zero hden)]

theorem withSign_ofQuotient (negative sign : Bool) (num den : Nat) :
    (ofQuotient sign num den).withSign negative = ofQuotient negative num den := by
  rw [ofQuotient_eq_ofMagnitude, ofQuotient_eq_ofMagnitude, withSign,
    magnitude_ofMagnitude sign (magnitudeOf_lt num den)]

theorem withSign_ofDecimal (negative sign : Bool) (digits : Nat) (exponent : Int) :
    (ofDecimal sign digits exponent).withSign negative = ofDecimal negative digits exponent := by
  have plain {m : Nat} (small : m < 2 ^ 63) :
      (ofMagnitude sign m).withSign negative = ofMagnitude negative m := by
    rw [withSign, magnitude_ofMagnitude sign small]
  rw [ofDecimal, ofDecimal]
  split
  · exact plain (by decide)
  · split
    · exact plain (by decide)
    · split <;> exact withSign_ofQuotient negative sign _ _

theorem isFinite_withSign (negative : Bool) (x : Binary64) :
    (x.withSign negative).isFinite = x.isFinite := by
  have small : x.magnitude < 2 ^ 63 := Nat.mod_lt _ (by decide)
  rw [isFinite, isFinite, withSign, magnitude_ofMagnitude negative small]

theorem ofInt_natCast (n : Nat) : ofInt n = ofQuotient false n 1 := by
  rw [ofInt, Int.natAbs_natCast, decide_eq_false (by omega)]

/-- Both sides of an equation, scaled so that no exponent is negative. -/
theorem scale_iff {a b : Nat} {e : Int} (up : Nat) (le : -e ≤ up) :
    a * 2 ^ e.toNat = b * 2 ^ (-e).toNat ↔ a * 2 ^ (e + up).toNat = b * 2 ^ up := by
  have left : (e + up).toNat = e.toNat + (up - (-e).toNat) := by omega
  have right : up = (-e).toNat + (up - (-e).toNat) := by omega
  have pos : 0 < 2 ^ (up - (-e).toNat) := Nat.two_pow_pos _
  generalize up - (-e).toNat = more at *
  rw [left, right, Nat.pow_add, Nat.pow_add, ← Nat.mul_assoc, ← Nat.mul_assoc,
    Nat.mul_left_inj (Nat.ne_of_gt pos)]

/-! ### Whole numbers -/

/-- The number is a whole one that is not negative. -/
structure IsWhole (x : Binary64) (n : Nat) : Prop where
  positive : x.isNegative = false
  parts_eq : x.parts.1 * 2 ^ x.parts.2.toNat = n * 2 ^ (-x.parts.2).toNat

/-- A significand of the format and its exponent are the parts of the number that is made of them. -/
theorem parts_ofMagnitude (negative : Bool) {s : Nat} {e : Int} (small : s < 2 ^ 53)
    (normal : 2 ^ 52 ≤ s) (least : -1074 ≤ e) (most : e ≤ 971) :
    (ofMagnitude negative ((e + 1074).toNat * 2 ^ 52 + s)).parts = (s, e) := by
  have kept : (ofMagnitude negative ((e + 1074).toNat * 2 ^ 52 + s)).magnitude =
      (e + 1074).toNat * 2 ^ 52 + s := magnitude_ofMagnitude negative (by omega)
  have field : ((e + 1074).toNat * 2 ^ 52 + s) / 2 ^ 52 = (e + 1075).toNat := by omega
  have fraction : ((e + 1074).toNat * 2 ^ 52 + s) % 2 ^ 52 = s - 2 ^ 52 := by omega
  rw [parts, kept, field, fraction]
  rw [if_neg (by omega), Prod.mk.injEq]
  omega

/-- A whole number below `2 ^ 53` is a float. -/
theorem isWhole_ofInt {n : Nat} (small : n < 2 ^ 53) : (ofInt n).IsWhole n := by
  rw [ofInt_natCast]
  by_cases zero : n = 0
  · subst zero
    have parts : (ofQuotient false 0 1).parts = (0, -1074) := rfl
    exact ⟨rfl, by rw [parts, Nat.zero_mul, Nat.zero_mul]⟩
  obtain ⟨lower, low, high⟩ := exponentOf_one zero
  have digits : exponentOf n 1 + 52 < (53 : Nat) := exponentOf_one_lt zero small
  have whole : exponentOf n 1 ≤ 0 := by omega
  have full : 2 ^ 52 ≤ significand n 1 (exponentOf n 1) := le_significand Nat.one_ne_zero low
  have short : significand n 1 (exponentOf n 1) < 2 ^ 53 := significand_one_lt whole high
  have finite : (exponentOf n 1 + 1074).toNat * 2 ^ 52 + significand n 1 (exponentOf n 1) ≤
      infiniteMagnitude := by
    simp only [infiniteMagnitude]
    omega
  have same : ofQuotient false n 1 =
      ofMagnitude false ((exponentOf n 1 + 1074).toNat * 2 ^ 52 + significand n 1 (exponentOf n 1)) := by
    rw [ofQuotient_eq_ofMagnitude, magnitudeOf_one zero, Nat.min_eq_left finite]
  rw [same]
  refine ⟨isNegative_ofMagnitude false (by omega), ?_⟩
  rw [parts_ofMagnitude false short full (by omega) (by omega)]
  dsimp only
  rw [significand_one whole, Int.toNat_of_nonpos whole, Nat.pow_zero, Nat.mul_one]

section

variable {x y : Binary64} {m n : Nat}

/-- The product of two whole numbers is rounded once. -/
theorem mul_of_isWhole (hx : x.IsWhole m) (hy : y.IsWhole n) : x.mul y = ofQuotient false (m * n) 1 := by
  rw [mul, hx.positive, hy.positive, ofScaled]
  apply ofQuotient_congr
  · exact Nat.mul_ne_zero Nat.one_ne_zero (Nat.ne_of_gt (Nat.two_pow_pos _))
  · exact Nat.one_ne_zero
  obtain ⟨p, hp⟩ : ∃ p : Nat, -x.parts.2 ≤ p := ⟨(-x.parts.2).toNat, by omega⟩
  obtain ⟨q, hq⟩ : ∃ q : Nat, -y.parts.2 ≤ q := ⟨(-y.parts.2).toNat, by omega⟩
  have left := (scale_iff p hp).1 hx.parts_eq
  have right := (scale_iff q hq).1 hy.parts_eq
  rw [Nat.mul_one, Nat.one_mul, scale_iff (p + q) (by omega)]
  have sum : (x.parts.2 + y.parts.2 + (p + q : Nat)).toNat =
      (x.parts.2 + p).toNat + (y.parts.2 + q).toNat := by omega
  rw [sum, Nat.pow_add, Nat.pow_add, Nat.mul_mul_mul_comm, left, right, Nat.mul_mul_mul_comm]

/-- The quotient of two whole numbers is rounded once. -/
theorem div_of_isWhole (hx : x.IsWhole m) (hy : y.IsWhole n) (nonzero : n ≠ 0) :
    x.div y = ofQuotient false m n := by
  obtain ⟨p, hp⟩ : ∃ p : Nat, -x.parts.2 ≤ p := ⟨(-x.parts.2).toNat, by omega⟩
  obtain ⟨q, hq⟩ : ∃ q : Nat, -y.parts.2 ≤ q := ⟨(-y.parts.2).toNat, by omega⟩
  have left := (scale_iff p hp).1 hx.parts_eq
  have right := (scale_iff q hq).1 hy.parts_eq
  have divisor : y.parts.1 ≠ 0 := by
    intro zero
    rw [zero, Nat.zero_mul] at right
    exact Nat.mul_ne_zero nonzero (Nat.ne_of_gt (Nat.two_pow_pos q)) right.symm
  rw [div, hx.positive, hy.positive, ofScaled]
  apply ofQuotient_congr
  · exact Nat.mul_ne_zero divisor (Nat.ne_of_gt (Nat.two_pow_pos _))
  · exact nonzero
  rw [Nat.mul_right_comm, ← Nat.mul_assoc, scale_iff (p + (y.parts.2 + q).toNat) (by omega)]
  have sum : (x.parts.2 - y.parts.2 + (p + (y.parts.2 + q).toNat : Nat)).toNat =
      (x.parts.2 + p).toNat + q := by omega
  rw [sum, Nat.pow_add, Nat.pow_add, Nat.mul_mul_mul_comm, left, ← right, Nat.mul_mul_mul_comm]

end

end Binary64

end Depot
