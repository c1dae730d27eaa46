import Depot.Proofs.Number.Rounding

/-!
# Rounding keeps the order

Rounding may make two whole numbers one float, but it never changes their places: the float of the
lesser does not lie above that of the greater (`rank_ofInt_le`). Within one exponent this is so because
quotients are rounded in order. From one exponent to the next the significand starts again, but the
last one of the lower exponent is at most the first one of the higher.
-/

namespace Depot

namespace Binary64

/-! ### Significands -/

theorem le_roundDiv (num den : Nat) : num / den ≤ roundDiv num den := by
  rw [roundDiv]
  split
  · exact Nat.le_refl _
  · split
    · exact Nat.le_succ _
    · exact Nat.le_add_right _ _

theorem roundDiv_le_roundDiv {a b : Nat} (den : Nat) (le : a ≤ b) : roundDiv a den ≤ roundDiv b den := by
  rcases Nat.lt_or_eq_of_le (Nat.div_le_div_right (c := den) le) with less | same
  · calc roundDiv a den
      _ ≤ a / den + 1 := roundDiv_le a den
      _ ≤ b / den := less
      _ ≤ roundDiv b den := le_roundDiv b den
  · have rest : a % den ≤ b % den := by
      have ha := Nat.div_add_mod a den
      have hb := Nat.div_add_mod b den
      rw [same] at ha
      omega
    rw [roundDiv, roundDiv, same]
    split <;> split <;> (try split) <;> (try split) <;> omega

theorem significand_le_significand {a b : Nat} (den : Nat) (e : Int) (le : a ≤ b) :
    significand a den e ≤ significand b den e := by
  rw [significand, significand]
  split
  · exact roundDiv_le_roundDiv _ le
  · exact roundDiv_le_roundDiv _ (Nat.mul_le_mul_right _ le)

/-- A significand of a quotient with fifty-three digits has them all. -/
theorem le_significand {num den : Nat} {e : Int} (hden : den ≠ 0) (h : Reaches num den (e + 52)) :
    2 ^ 52 ≤ significand num den e := by
  have above {n d : Nat} (positive : 0 < d) (le : d * 2 ^ 52 ≤ n) : 2 ^ 52 ≤ roundDiv n d :=
    Nat.le_trans ((Nat.le_div_iff_mul_le positive).2 (by rwa [Nat.mul_comm])) (le_roundDiv n d)
  rw [significand]
  split
  · next up =>
      have cast : e + 52 = ((e.toNat + 52 : Nat) : Int) - (0 : Nat) := by omega
      rw [cast, reaches_sub, Nat.pow_add, ← Nat.mul_assoc, Nat.pow_zero, Nat.mul_one] at h
      exact above (Nat.mul_pos (Nat.pos_of_ne_zero hden) (Nat.two_pow_pos _)) h
  · next down =>
      have cast : e + 52 = ((52 : Nat) : Int) - ((-e).toNat : Nat) := by omega
      rw [cast, reaches_sub] at h
      exact above (Nat.pos_of_ne_zero hden) h

/-! ### Magnitudes -/

/-- The magnitude that a quotient is rounded to. -/
def magnitudeOf (num den : Nat) : Nat :=
  if num = 0 then 0
  else min ((exponentOf num den + 1074).toNat * 2 ^ 52 + significand num den (exponentOf num den))
    infiniteMagnitude

theorem ofQuotient_eq_ofMagnitude (negative : Bool) (num den : Nat) :
    ofQuotient negative num den = ofMagnitude negative (magnitudeOf num den) := by
  rw [ofQuotient, magnitudeOf]
  split <;> rfl

theorem magnitudeOf_le (num den : Nat) : magnitudeOf num den ≤ infiniteMagnitude := by
  rw [magnitudeOf]
  split
  · exact Nat.zero_le _
  · exact Nat.min_le_right _ _

theorem Reaches.of_num_le {a b den : Nat} {k : Int} (h : Reaches a den k) (le : a ≤ b) :
    Reaches b den k :=
  Nat.le_trans h (Nat.mul_le_mul_right _ le)

/-- The greater of two quotients is rounded to the greater magnitude. -/
theorem magnitudeOf_le_magnitudeOf {a b den : Nat} (hden : den ≠ 0) (le : a ≤ b) :
    magnitudeOf a den ≤ magnitudeOf b den := by
  by_cases zero : a = 0
  · rw [magnitudeOf, if_pos zero]
    exact Nat.zero_le _
  have positive : b ≠ 0 := by omega
  rw [magnitudeOf, magnitudeOf, if_neg zero, if_neg positive]
  obtain ⟨e, exponent, low, high⟩ := exists_exponentOf zero hden
  obtain ⟨f, exponent', low', high'⟩ := exists_exponentOf positive hden
  have rising : e ≤ f :=
    Int.not_lt.1 fun less => high' ((low.of_num_le le).of_le (by omega))
  have magnitudes : (exponentOf a den + 1074).toNat * 2 ^ 52 + significand a den (exponentOf a den) ≤
      (exponentOf b den + 1074).toNat * 2 ^ 52 + significand b den (exponentOf b den) := by
    rcases Int.lt_or_le (exponentOf a den) (exponentOf b den) with less | same
    · -- the exponents differ, so that of `b` is above the least and its significand is full
      have full : 2 ^ 52 ≤ significand b den (exponentOf b den) :=
        le_significand hden (low'.of_le (by omega))
      have short : significand a den (exponentOf a den) ≤ 2 ^ 53 :=
        significand_le fun reached => high (reached.of_le (by omega))
      omega
    · have same : exponentOf a den = exponentOf b den := by omega
      rw [same]
      exact Nat.add_le_add_left (significand_le_significand den _ le) _
  exact Nat.le_min.2 ⟨Nat.le_trans (Nat.min_le_left _ _) magnitudes, Nat.min_le_right _ _⟩

/-! ### Places on the number line -/

theorem isNegative_ofMagnitude (negative : Bool) {m : Nat} (small : m < 2 ^ 63) :
    (ofMagnitude negative m).isNegative = negative := by
  rw [ofMagnitude, isNegative, Bool.eq_iff_iff, decide_eq_true_eq, UInt64.toNat_ofNat']
  split
  · next sign => exact iff_of_true (by omega) sign
  · next sign => exact iff_of_false (by omega) sign

theorem rank_ofMagnitude (negative : Bool) {m : Nat} (small : m < 2 ^ 63) :
    (ofMagnitude negative m).rank = if negative then -(m : Int) else m := by
  rw [rank, isNegative_ofMagnitude negative small, magnitude_ofMagnitude negative small]

theorem magnitudeOf_lt (num den : Nat) : magnitudeOf num den < 2 ^ 63 :=
  Nat.lt_of_le_of_lt (magnitudeOf_le num den) (by decide)

/-- A whole number is rounded to a number. -/
theorem isNaN_ofInt (i : Int) : (ofInt i).isNaN = false := by
  rw [ofInt, ofQuotient_eq_ofMagnitude, isNaN, magnitude_ofMagnitude _ (magnitudeOf_lt _ _)]
  exact decide_eq_false (Nat.not_lt.2 (magnitudeOf_le _ _))

theorem rank_ofInt (i : Int) :
    (ofInt i).rank = if i < 0 then -(magnitudeOf i.natAbs 1 : Int) else magnitudeOf i.natAbs 1 := by
  rw [ofInt, ofQuotient_eq_ofMagnitude, rank_ofMagnitude _ (magnitudeOf_lt _ _)]
  simp only [decide_eq_true_eq]

/-- Whole numbers are rounded in order. -/
theorem rank_ofInt_le {i j : Int} (le : i ≤ j) : (ofInt i).rank ≤ (ofInt j).rank := by
  have mono {a b : Nat} (le : a ≤ b) : magnitudeOf a 1 ≤ magnitudeOf b 1 :=
    magnitudeOf_le_magnitudeOf Nat.one_ne_zero le
  rw [rank_ofInt, rank_ofInt]
  by_cases negative : i < 0
  · by_cases negative' : j < 0
    · have closer := mono (a := j.natAbs) (b := i.natAbs) (by omega)
      rw [if_pos negative, if_pos negative']
      omega
    · rw [if_pos negative, if_neg negative']
      omega
  · have farther := mono (a := i.natAbs) (b := j.natAbs) (by omega)
    rw [if_neg negative, if_neg (by omega)]
    omega

end Binary64

end Depot
