import Depot.Proofs.Number.Monotone

/-!
# Whole numbers that are kept apart

Up to `2 ^ 53` no two whole numbers are rounded to one float: their significands need no digit beyond the
point, so they are not rounded at all. A whole number below that is kept apart from every other one
(`rank_ofInt_lt`), and two that are rounded to one float are both at least as far from zero
(`two_pow_le_of_rank_eq`).
-/

namespace Depot

namespace Binary64

theorem roundDiv_one (n : Nat) : roundDiv n 1 = n := by
  rw [← Nat.mul_one n, roundDiv_mul n Nat.one_ne_zero, Nat.mul_one]

/-- Without a digit below the point, a whole number is its significand, scaled. -/
theorem significand_one {n : Nat} {e : Int} (le : e ≤ 0) :
    significand n 1 e = n * 2 ^ (-e).toNat := by
  rw [significand]
  split
  · next up =>
      obtain rfl : e = 0 := by omega
      rw [Int.toNat_zero, Int.neg_zero, Int.toNat_zero, Nat.pow_zero, Nat.mul_one, Nat.mul_one,
        roundDiv_one]
  · exact roundDiv_one _

/-- A significand that was not rounded has at most fifty-three digits. -/
theorem significand_one_lt {n : Nat} {e : Int} (le : e ≤ 0) (high : ¬ Reaches n 1 (e + 53)) :
    significand n 1 e < 2 ^ 53 := by
  have cast : e + 53 = ((53 : Nat) : Int) - ((-e).toNat : Nat) := by omega
  rw [cast, reaches_sub, Nat.not_le, Nat.one_mul] at high
  rwa [significand_one le]

theorem magnitudeOf_one {n : Nat} (nonzero : n ≠ 0) :
    magnitudeOf n 1 =
      min ((exponentOf n 1 + 1074).toNat * 2 ^ 52 + significand n 1 (exponentOf n 1)) infiniteMagnitude :=
  if_neg nonzero

/-- Up to `2 ^ 53` the greater of two whole numbers has the greater magnitude. -/
theorem magnitudeOf_lt_magnitudeOf {a b : Nat} (less : a < b) (small : b ≤ 2 ^ 53) :
    magnitudeOf a 1 < magnitudeOf b 1 := by
  have positive : b ≠ 0 := by omega
  obtain ⟨lowerB, lowB, highB⟩ := exponentOf_one positive
  have full : 2 ^ 52 ≤ significand b 1 (exponentOf b 1) := le_significand Nat.one_ne_zero lowB
  have infinite : infiniteMagnitude = 2047 * 2 ^ 52 := rfl
  by_cases zero : a = 0
  · rw [magnitudeOf_one positive, zero, magnitudeOf, if_pos rfl]
    omega
  obtain ⟨lowerA, lowA, highA⟩ := exponentOf_one zero
  have digits : exponentOf a 1 + 52 < (53 : Nat) := exponentOf_one_lt zero (by omega)
  have wholeA : exponentOf a 1 ≤ 0 := by omega
  have short : significand a 1 (exponentOf a 1) < 2 ^ 53 := significand_one_lt wholeA highA
  have below : (exponentOf a 1 + 1074).toNat * 2 ^ 52 + significand a 1 (exponentOf a 1) <
      (exponentOf b 1 + 1074).toNat * 2 ^ 52 + significand b 1 (exponentOf b 1) := by
    rcases Int.lt_or_le (exponentOf a 1) (exponentOf b 1) with rising | same
    · omega
    · have rising : exponentOf a 1 ≤ exponentOf b 1 :=
        Int.not_lt.1 fun fell => highB ((lowA.of_num_le (Nat.le_of_lt less)).of_le (by omega))
      have same : exponentOf a 1 = exponentOf b 1 := by omega
      rw [← same, significand_one wholeA, significand_one wholeA]
      exact Nat.add_lt_add_left (Nat.mul_lt_mul_of_pos_right less (Nat.two_pow_pos _)) _
  have finite : (exponentOf a 1 + 1074).toNat * 2 ^ 52 + significand a 1 (exponentOf a 1) <
      infiniteMagnitude := by
    rw [infinite]
    omega
  rw [magnitudeOf_one zero, magnitudeOf_one positive]
  exact Nat.lt_of_le_of_lt (Nat.min_le_left _ _) (Nat.lt_min.2 ⟨below, finite⟩)

/-- A whole number below `2 ^ 53` is kept apart from every other one. -/
theorem rank_ofInt_lt {i j : Int} (less : i < j) (exact : i.natAbs < 2 ^ 53 ∨ j.natAbs < 2 ^ 53) :
    (ofInt i).rank < (ofInt j).rank := by
  -- it is kept apart from its neighbours, and the others are no nearer
  have step {k : Int} (low : -(2 ^ 53) ≤ k) (high : k < 2 ^ 53) :
      (ofInt k).rank < (ofInt (k + 1)).rank := by
    rw [rank_ofInt, rank_ofInt]
    by_cases negative : k < 0
    · have closer := magnitudeOf_lt_magnitudeOf (a := (k + 1).natAbs) (b := k.natAbs) (by omega) (by omega)
      rw [if_pos negative]
      split <;> omega
    · have farther := magnitudeOf_lt_magnitudeOf (a := k.natAbs) (b := (k + 1).natAbs) (by omega) (by omega)
      rw [if_neg negative, if_neg (by omega)]
      omega
  rcases exact with near | near
  · exact Int.lt_of_lt_of_le (step (by omega) (by omega)) (rank_ofInt_le less)
  · have apart := step (k := j - 1) (by omega) (by omega)
    rw [Int.sub_add_cancel] at apart
    exact Int.lt_of_le_of_lt (rank_ofInt_le (by omega)) apart

/-- Different whole numbers that are rounded to one float are at least `2 ^ 53` from zero. -/
theorem two_pow_le_of_rank_eq {i j : Int} (differ : i ≠ j) (same : (ofInt i).rank = (ofInt j).rank) :
    2 ^ 53 ≤ i.natAbs ∧ 2 ^ 53 ≤ j.natAbs := by
  rw [← Nat.not_lt, ← Nat.not_lt, ← not_or]
  intro exact
  rcases Int.lt_or_gt_of_ne differ with less | more
  · exact Int.ne_of_lt (rank_ofInt_lt less exact) same
  · exact Int.ne_of_lt (rank_ofInt_lt more exact.symm) same.symm

end Binary64

end Depot
