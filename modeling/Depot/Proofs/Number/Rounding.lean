import Depot.Number.Binary64

/-!
# Rounding that changes nothing

A quotient is rounded by its value alone (`ofQuotient_scale`), and a quotient that a number of the
format has exactly is rounded to that number (`ofQuotient_parts`). Both rest on what the exponent of
a quotient is: the one that leaves fifty-three binary digits (`exists_exponentOf`), said by which
powers of two the quotient reaches. No fraction is formed; `2 ^ k ≤ num / den` is an inequality of
naturals, with the power on the side where its exponent is not negative.
-/

namespace Depot

namespace Binary64

/-! ### Powers of two below a quotient -/

/-- `2 ^ k ≤ num / den`. -/
def Reaches (num den : Nat) (k : Int) : Prop :=
  den * 2 ^ k.toNat ≤ num * 2 ^ (-k).toNat

theorem reaches_sub {num den m n : Nat} :
    Reaches num den ((m : Int) - n) ↔ den * 2 ^ m ≤ num * 2 ^ n := by
  rw [Reaches]
  rcases Nat.le_total m n with le | le
  · have shift : 2 ^ n = 2 ^ (n - m) * 2 ^ m := by
      rw [← Nat.pow_add]
      congr 1
      omega
    rw [show ((m : Int) - n).toNat = 0 by omega, show (-((m : Int) - n)).toNat = n - m by omega,
      shift, ← Nat.mul_assoc, Nat.mul_le_mul_right_iff (Nat.two_pow_pos m), Nat.pow_zero, Nat.mul_one]
  · have shift : 2 ^ m = 2 ^ (m - n) * 2 ^ n := by
      rw [← Nat.pow_add]
      congr 1
      omega
    rw [show ((m : Int) - n).toNat = m - n by omega, show (-((m : Int) - n)).toNat = 0 by omega,
      shift, ← Nat.mul_assoc, Nat.mul_le_mul_right_iff (Nat.two_pow_pos n), Nat.pow_zero, Nat.mul_one]

theorem Reaches.of_le {num den : Nat} {j k : Int} (h : Reaches num den k) (le : j ≤ k) :
    Reaches num den j := by
  obtain ⟨n, m, l, hk, hj⟩ : ∃ n m l : Nat, k = (m : Int) - n ∧ j = (l : Int) - n :=
    ⟨k.natAbs + j.natAbs, (k + (k.natAbs + j.natAbs : Nat)).toNat,
      (j + (k.natAbs + j.natAbs : Nat)).toNat, by omega, by omega⟩
  rw [hk, reaches_sub] at h
  rw [hj, reaches_sub]
  have fewer : 2 ^ l ≤ 2 ^ m := Nat.pow_le_pow_right (by decide) (by omega)
  exact Nat.le_trans (Nat.mul_le_mul_left den fewer) h

theorem reaches_scale {num den factor : Nat} (pos : 0 < factor) (k : Int) :
    Reaches (num * factor) (den * factor) k ↔ Reaches num den k := by
  rw [Reaches, Reaches, Nat.mul_right_comm den, Nat.mul_right_comm num,
    Nat.mul_le_mul_right_iff pos]

/-! ### The exponent of a quotient -/

theorem reaches_log2 {num : Nat} (den : Nat) (hnum : num ≠ 0) :
    Reaches num den ((Nat.log2 num : Int) - Nat.log2 den - 1) := by
  have low := Nat.log2_self_le hnum
  have high : den < 2 ^ (den.log2 + 1) := Nat.lt_log2_self
  have cast : (Nat.log2 num : Int) - Nat.log2 den - 1 = (Nat.log2 num : Nat) - (den.log2 + 1 : Nat) := by
    omega
  rw [cast, reaches_sub, Nat.mul_comm]
  exact Nat.mul_le_mul low (Nat.le_of_lt high)

theorem not_reaches_log2 (num : Nat) {den : Nat} (hden : den ≠ 0) :
    ¬ Reaches num den ((Nat.log2 num : Int) - Nat.log2 den + 1) := by
  have high : num < 2 ^ (num.log2 + 1) := Nat.lt_log2_self
  have low := Nat.log2_self_le hden
  have cast : (Nat.log2 num : Int) - Nat.log2 den + 1 = (Nat.log2 num + 1 : Nat) - (den.log2 : Nat) := by
    omega
  rw [cast, reaches_sub, Nat.not_le, Nat.mul_comm den]
  exact Nat.mul_lt_mul_of_lt_of_le high low (Nat.pos_of_ne_zero hden)

/-- The exponent is the one that leaves fifty-three binary digits, unless that is below the least. -/
theorem exists_exponentOf {num den : Nat} (hnum : num ≠ 0) (hden : den ≠ 0) :
    ∃ e, exponentOf num den = max (-1074) e ∧ Reaches num den (e + 52) ∧
      ¬ Reaches num den (e + 53) := by
  have low := reaches_log2 den hnum
  have high := not_reaches_log2 num hden
  rw [exponentOf]
  generalize guessed : (Nat.log2 num : Int) - Nat.log2 den - 52 = guess
  have short : (if 0 ≤ guess then decide (num < den * 2 ^ guess.toNat * 2 ^ 52)
      else decide (num * 2 ^ (-guess).toNat < den * 2 ^ 52)) = true ↔
        ¬ Reaches num den (guess + 52) := by
    split
    · next up =>
        have cast : guess + 52 = ((guess.toNat + 52 : Nat) : Int) - (0 : Nat) := by omega
        rw [cast, reaches_sub, Nat.not_le, decide_eq_true_eq, Nat.pow_add, Nat.mul_assoc,
          Nat.pow_zero, Nat.mul_one]
    · next down =>
        have cast : guess + 52 = ((52 : Nat) : Int) - ((-guess).toNat : Nat) := by omega
        rw [cast, reaches_sub, Nat.not_le, decide_eq_true_eq]
  by_cases reached : Reaches num den (guess + 52)
  · refine ⟨guess, by rw [if_neg fun h => short.1 h reached], reached, ?_⟩
    rwa [show guess + 53 = (Nat.log2 num : Int) - Nat.log2 den + 1 by omega]
  · refine ⟨guess - 1, by rw [if_pos (short.2 reached)], ?_, ?_⟩
    · rwa [show guess - 1 + 52 = (Nat.log2 num : Int) - Nat.log2 den - 1 by omega]
    · rwa [show guess - 1 + 53 = guess + 52 by omega]

theorem exponentOf_eq {num den : Nat} {e : Int} (hnum : num ≠ 0) (hden : den ≠ 0)
    (low : e = -1074 ∨ Reaches num den (e + 52)) (high : ¬ Reaches num den (e + 53)) :
    exponentOf num den = max (-1074) e := by
  obtain ⟨own, eq, ownLow, ownHigh⟩ := exists_exponentOf hnum hden
  have above : own ≤ e := by
    apply Int.not_lt.1
    intro lt
    exact high (ownLow.of_le (by omega))
  have below : e = -1074 ∨ e ≤ own := by
    refine low.imp_right fun low => Int.not_lt.1 fun lt => ownHigh (low.of_le (by omega))
  omega

theorem exponentOf_scale {num den factor : Nat} (hnum : num ≠ 0) (hden : den ≠ 0)
    (scaled : 0 < factor) : exponentOf (num * factor) (den * factor) = exponentOf num den := by
  obtain ⟨e, eq, low, high⟩ := exists_exponentOf hnum hden
  rw [eq]
  apply exponentOf_eq
  · exact Nat.mul_ne_zero hnum (Nat.ne_of_gt scaled)
  · exact Nat.mul_ne_zero hden (Nat.ne_of_gt scaled)
  · exact .inr ((reaches_scale scaled _).2 low)
  · exact fun h => high ((reaches_scale scaled _).1 h)

/-! ### Rounding what needs no rounding -/

theorem roundDiv_mul (n : Nat) {den : Nat} (hden : den ≠ 0) : roundDiv (n * den) den = n := by
  rw [roundDiv]
  rw [Nat.mul_mod_left, Nat.mul_zero, if_pos (Nat.pos_of_ne_zero hden),
    Nat.mul_div_cancel _ (Nat.pos_of_ne_zero hden)]

theorem roundDiv_scale (num : Nat) (den : Nat) {factor : Nat} (scaled : 0 < factor) :
    roundDiv (num * factor) (den * factor) = roundDiv num den := by
  rw [roundDiv, roundDiv]
  rw [Nat.mul_div_mul_right _ _ scaled, Nat.mul_mod_mul_right, ← Nat.mul_assoc]
  simp only [Nat.mul_lt_mul_right scaled]

theorem significand_scale (num den : Nat) {factor : Nat} (scaled : 0 < factor) (e : Int) :
    significand (num * factor) (den * factor) e = significand num den e := by
  rw [significand, significand]
  split
  · rw [Nat.mul_right_comm, roundDiv_scale _ _ scaled]
  · rw [Nat.mul_right_comm, roundDiv_scale _ _ scaled]

/-- A quotient is rounded by its value: a common factor does not matter. -/
theorem ofQuotient_scale (negative : Bool) (num : Nat) {den factor : Nat} (hden : den ≠ 0)
    (scaled : 0 < factor) :
    ofQuotient negative (num * factor) (den * factor) = ofQuotient negative num den := by
  rw [ofQuotient, ofQuotient]
  by_cases zero : num = 0
  · rw [zero, Nat.zero_mul, if_pos rfl, if_pos rfl]
  · rw [if_neg zero, if_neg (Nat.mul_ne_zero zero (Nat.ne_of_gt scaled))]
    dsimp only
    rw [exponentOf_scale zero hden scaled, significand_scale _ _ scaled]

/-- A quotient that is a significand of the format times a power of two is not rounded. -/
theorem ofQuotient_exact (negative : Bool) {num den s : Nat} {e : Int} (hden : den ≠ 0) (hs : s ≠ 0)
    (small : s < 2 ^ 53) (normal : 2 ^ 52 ≤ s ∨ e = -1074) (least : -1074 ≤ e)
    (exact : num * 2 ^ (-e).toNat = s * (den * 2 ^ e.toNat)) :
    ofQuotient negative num den =
      ofMagnitude negative (min ((e + 1074).toNat * 2 ^ 52 + s) infiniteMagnitude) := by
  have unit : den * 2 ^ e.toNat ≠ 0 := Nat.mul_ne_zero hden (Nat.ne_of_gt (Nat.two_pow_pos _))
  have someNum : num ≠ 0 := by
    rintro rfl
    rw [Nat.zero_mul] at exact
    exact absurd exact.symm (Nat.mul_ne_zero hs unit)
  have reached (digits : Nat) : Reaches num den (e + digits) ↔ 2 ^ digits ≤ s := by
    have cast : e + digits = ((e.toNat + digits : Nat) : Int) - (-e).toNat := by omega
    rw [cast, reaches_sub, exact, Nat.pow_add, ← Nat.mul_assoc, Nat.mul_comm,
      Nat.mul_le_mul_right_iff (Nat.pos_of_ne_zero unit)]
  have exponent : exponentOf num den = e := by
    rw [exponentOf_eq (e := e) someNum hden]
    · omega
    · exact normal.symm.imp_right (reached 52).2
    · exact fun h => absurd ((reached 53).1 h) (by omega)
  have rounded : significand num den e = s := by
    rw [significand]
    split
    · next up =>
        rw [show (-e).toNat = 0 by omega, Nat.pow_zero, Nat.mul_one] at exact
        rw [exact, roundDiv_mul s unit]
    · next down =>
        rw [show e.toNat = 0 by omega, Nat.pow_zero, Nat.mul_one] at exact
        rw [exact, roundDiv_mul s hden]
  rw [ofQuotient, if_neg someNum]
  dsimp only
  rw [exponent, rounded]

/-! ### Significand and exponent -/

theorem ofMagnitude_self (x : Binary64) : ofMagnitude x.isNegative x.magnitude = x := by
  obtain ⟨bits⟩ := x
  have small := bits.toNat_lt
  rw [ofMagnitude, isNegative, magnitude]
  congr 1
  apply UInt64.toNat_inj.1
  rw [UInt64.toNat_ofNat']
  simp only [decide_eq_true_eq]
  split <;> omega

theorem magnitude_ofMagnitude (negative : Bool) {m : Nat} (small : m < 2 ^ 63) :
    (ofMagnitude negative m).magnitude = m := by
  rw [ofMagnitude, magnitude]
  simp only [UInt64.toNat_ofNat']
  split <;> omega

/-- Significand and exponent are those of the format, and the magnitude is made of them. -/
theorem parts_spec (x : Binary64) :
    x.parts.1 < 2 ^ 53 ∧ (2 ^ 52 ≤ x.parts.1 ∨ x.parts.2 = -1074) ∧ -1074 ≤ x.parts.2 ∧
      (x.parts.2 + 1074).toNat * 2 ^ 52 + x.parts.1 = x.magnitude := by
  have whole := Nat.div_add_mod x.magnitude (2 ^ 52)
  have fraction : x.magnitude % 2 ^ 52 < 2 ^ 52 := Nat.mod_lt _ (by decide)
  rw [parts]
  split
  · exact ⟨by omega, .inr rfl, Int.le_refl _, by omega⟩
  · exact ⟨by omega, .inl (by omega), by omega, by omega⟩

/-- A quotient that has the value of a finite number up to sign is rounded to it. -/
theorem ofQuotient_parts {x : Binary64} (finite : x.isFinite) (hx : x.magnitude ≠ 0)
    {num den : Nat} (hden : den ≠ 0)
    (exact : num * 2 ^ (-x.parts.2).toNat = x.parts.1 * (den * 2 ^ x.parts.2.toNat)) :
    ofQuotient x.isNegative num den = x := by
  have below : x.magnitude < infiniteMagnitude := of_decide_eq_true finite
  obtain ⟨small, normal, least, whole⟩ := parts_spec x
  have someParts : x.parts.1 ≠ 0 := by omega
  rw [ofQuotient_exact x.isNegative hden someParts small normal least exact, whole,
    Nat.min_eq_left (Nat.le_of_lt below), ofMagnitude_self]

/-! ### Whole numbers -/

theorem roundDiv_le (num den : Nat) : roundDiv num den ≤ num / den + 1 := by
  rw [roundDiv]
  split
  · exact Nat.le_succ _
  · split
    · exact Nat.le_refl _
    · exact Nat.add_le_add_left (Nat.le_of_lt_succ (Nat.mod_lt _ (by decide))) _

/-- A significand has at most fifty-three digits, or is the least number of more. -/
theorem significand_le {num den : Nat} {e : Int} (h : ¬ Reaches num den (e + 53)) :
    significand num den e ≤ 2 ^ 53 := by
  have below {n d : Nat} (lt : n < d * 2 ^ 53) : roundDiv n d ≤ 2 ^ 53 :=
    Nat.le_trans (roundDiv_le n d) (Nat.div_lt_of_lt_mul lt)
  rw [significand]
  split
  · next up =>
      have cast : e + 53 = ((e.toNat + 53 : Nat) : Int) - (0 : Nat) := by omega
      rw [cast, reaches_sub, Nat.not_le, Nat.pow_add, ← Nat.mul_assoc, Nat.pow_zero, Nat.mul_one] at h
      exact below h
  · next down =>
      have cast : e + 53 = ((53 : Nat) : Int) - ((-e).toNat : Nat) := by omega
      rw [cast, reaches_sub, Nat.not_le] at h
      exact below h

/-- The exponent of a whole number is far above the least. -/
theorem exponentOf_one {n : Nat} (nonzero : n ≠ 0) :
    -52 ≤ exponentOf n 1 ∧ Reaches n 1 (exponentOf n 1 + 52) ∧
      ¬ Reaches n 1 (exponentOf n 1 + 53) := by
  obtain ⟨e, exponent, low, high⟩ := exists_exponentOf nonzero Nat.one_ne_zero
  have lower : -52 ≤ e := by
    refine Int.not_lt.1 fun below => high ?_
    have one : Reaches n 1 (((0 : Nat) : Int) - (0 : Nat)) := reaches_sub.2 (by omega)
    exact one.of_le (by omega)
  rw [exponent, Int.max_eq_right (by omega)]
  exact ⟨lower, low, high⟩

theorem exponentOf_one_lt {n k : Nat} (nonzero : n ≠ 0) (small : n < 2 ^ k) :
    exponentOf n 1 + 52 < k := by
  obtain ⟨-, reached, -⟩ := exponentOf_one nonzero
  refine Int.not_le.1 fun above => ?_
  have cast : (k : Int) - (0 : Nat) ≤ exponentOf n 1 + 52 := by omega
  have big := reaches_sub.1 (reached.of_le cast)
  omega

/-- Whole numbers of sixty-four digits are far from the end of the format. -/
theorem isFinite_ofInt {i : Int} (small : i.natAbs < 2 ^ 64) : (ofInt i).isFinite = true := by
  have finite (negative : Bool) {m : Nat} (le : m ≤ 1087 * 2 ^ 52) :
      (ofMagnitude negative (min m infiniteMagnitude)).isFinite = true := by
    have lt : min m infiniteMagnitude < infiniteMagnitude := by
      simp only [infiniteMagnitude]
      omega
    have short : infiniteMagnitude < 2 ^ 63 := by decide
    rw [isFinite, magnitude_ofMagnitude negative (Nat.lt_trans lt short)]
    exact decide_eq_true lt
  rw [ofInt, ofQuotient]
  split
  · cases decide (i < 0) <;> rfl
  · next nonzero =>
      obtain ⟨lower, -, high⟩ := exponentOf_one nonzero
      have upper := exponentOf_one_lt nonzero small
      apply finite
      have digits := significand_le high
      omega

/-! ### Decimals that are settled without the power -/

theorem ofDecimal_zero (negative : Bool) (exponent : Int) :
    ofDecimal negative 0 exponent = ofMagnitude negative 0 := by
  simp [ofDecimal]

/-- A decimal that is neither too great nor too small is rounded as a quotient. -/
theorem ofDecimal_eq_ofQuotient {negative : Bool} {digits : Nat} {exponent : Int}
    (hdigits : digits ≠ 0) (low : -400 ≤ exponent + (digits.log2 / 3 + 1 : Nat))
    (high : exponent ≤ 400) :
    ofDecimal negative digits exponent =
      if 0 ≤ exponent then ofQuotient negative (digits * 10 ^ exponent.toNat) 1
      else ofQuotient negative digits (10 ^ (-exponent).toNat) := by
  have inside :
      ¬ (decide (digits = 0) || decide (exponent + (digits.log2 / 3 + 1 : Nat) < -400)) = true := by
    simp [hdigits]
    omega
  rw [ofDecimal, if_neg inside, if_neg (by omega)]

theorem ofDecimal_of_nonneg {negative : Bool} {digits : Nat} {exponent : Int} (hdigits : digits ≠ 0)
    (low : 0 ≤ exponent) (high : exponent ≤ 400) :
    ofDecimal negative digits exponent =
      ofQuotient negative (digits * 10 ^ exponent.toNat) 1 := by
  rw [ofDecimal_eq_ofQuotient hdigits (by omega) high, if_pos low]

theorem ofDecimal_of_neg {negative : Bool} {digits : Nat} {exponent : Int} (hdigits : digits ≠ 0)
    (high : exponent < 0) (low : -400 ≤ exponent + (digits.log2 / 3 + 1 : Nat)) :
    ofDecimal negative digits exponent =
      ofQuotient negative digits (10 ^ (-exponent).toNat) := by
  rw [ofDecimal_eq_ofQuotient hdigits low (by omega), if_neg (by omega)]

end Binary64

end Depot
