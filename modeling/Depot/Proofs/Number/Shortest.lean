import Depot.Number.Decimal
import Depot.Proofs.Number.Rounding

/-!
# Shortest digits read back

The digits that are chosen for a finite number read back as that number, bit for bit: either they
were tried and did, or they are all the digits of the number, which is rounded by nothing.
-/

namespace Depot

namespace Decimal

open Binary64

theorem negative_trim (fuel : Nat) (d : Decimal) : (trim fuel d).negative = d.negative := by
  induction fuel generalizing d with
  | zero => rfl
  | succ fuel ih =>
      rw [trim]
      split
      · exact ih _
      · rfl

theorem two_mul_le_log2 {s : Nat} (hs : s ≠ 0) (k : Nat) : 2 * k ≤ (s * 5 ^ k).log2 := by
  have pos : 5 ^ k ≠ 0 := Nat.ne_of_gt (Nat.pow_pos (by decide))
  rw [Nat.le_log2 (Nat.mul_ne_zero hs pos), Nat.pow_mul]
  calc (2 ^ 2) ^ k ≤ 5 ^ k := Nat.pow_le_pow_left (by decide) k
    _ ≤ s * 5 ^ k := Nat.le_mul_of_pos_left _ (Nat.pos_of_ne_zero hs)

theorem exact_eq (x : Binary64) :
    exact x =
      if 0 ≤ x.parts.2 then ⟨x.isNegative, x.parts.1 * 2 ^ x.parts.2.toNat, 0⟩
      else ⟨x.isNegative, x.parts.1 * 5 ^ (-x.parts.2).toNat, x.parts.2⟩ := rfl

/-- All digits of a number read back as it. -/
theorem toBinary64_exact {x : Binary64} (finite : x.isFinite) (hx : x.magnitude ≠ 0) :
    (exact x).toBinary64 = x := by
  obtain ⟨small, normal, least, whole⟩ := parts_spec x
  have someParts : x.parts.1 ≠ 0 := by omega
  rw [exact_eq]
  split
  · next up =>
      have someDigits : x.parts.1 * 2 ^ x.parts.2.toNat ≠ 0 :=
        Nat.mul_ne_zero someParts (Nat.ne_of_gt (Nat.two_pow_pos _))
      show ofDecimal _ _ 0 = x
      rw [ofDecimal_of_nonneg someDigits (by decide) (by decide)]
      apply ofQuotient_parts finite hx (by decide)
      rw [show (-x.parts.2).toNat = 0 by omega]
      simp
  · next down =>
      have pos (n k : Nat) (h : n ≠ 0) : n ^ k ≠ 0 := Nat.ne_of_gt (Nat.pow_pos (Nat.pos_of_ne_zero h))
      have someDigits := Nat.mul_ne_zero someParts (pos 5 (-x.parts.2).toNat (by decide))
      have long := two_mul_le_log2 someParts (-x.parts.2).toNat
      show ofDecimal _ _ x.parts.2 = x
      rw [ofDecimal_of_neg someDigits (by omega) (by omega)]
      apply ofQuotient_parts finite hx (pos 10 _ (by decide))
      rw [show x.parts.2.toNat = 0 by omega, Nat.mul_assoc, ← Nat.mul_pow]
      simp

theorem negative_exact (x : Binary64) : (exact x).negative = x.isNegative := by
  rw [exact_eq]
  split <;> rfl

theorem negative_withDigits? {tie : Tie} {x : Binary64} {count : Nat} {d : Decimal}
    (h : withDigits? tie x count = some d) : d.negative = x.isNegative := by
  have mem := List.mem_of_find?_eq_some h
  revert mem
  dsimp only
  split
  · intro mem
    simp at mem
    rcases mem with rfl | rfl <;> rfl
  · intro mem
    simp at mem
    rcases mem with rfl | rfl <;> rfl

theorem exists_shortest (tie : Tie) {x : Binary64} (finite : x.isFinite) (hx : x.magnitude ≠ 0) :
    ∃ found : Decimal, found.negative = x.isNegative ∧ found.toBinary64 = x ∧
      shortest tie x = if (trim 20 found).toBinary64 == x then trim 20 found else found := by
  refine ⟨((List.range 17).findSome? fun n => withDigits? tie x (n + 1)).getD (exact x), ?_, ?_, ?_⟩
  · cases search : (List.range 17).findSome? fun n => withDigits? tie x (n + 1) with
    | none => exact negative_exact x
    | some d =>
        obtain ⟨n, _, found⟩ := List.exists_of_findSome?_eq_some search
        exact negative_withDigits? found
  · cases search : (List.range 17).findSome? fun n => withDigits? tie x (n + 1) with
    | none => exact toBinary64_exact finite hx
    | some d =>
        obtain ⟨n, _, found⟩ := List.exists_of_findSome?_eq_some search
        exact toBinary64_withDigits? found
  · rw [shortest, if_neg hx]

/-- The shortest digits of a finite number read back as it. -/
theorem toBinary64_shortest (tie : Tie) {x : Binary64} (finite : x.isFinite) :
    (shortest tie x).toBinary64 = x := by
  by_cases zero : x.magnitude = 0
  · rw [shortest, if_pos zero]
    show ofDecimal x.isNegative 0 0 = x
    rw [ofDecimal_zero, ← zero, ofMagnitude_self]
  · obtain ⟨found, _, reads, eq⟩ := exists_shortest tie finite zero
    rw [eq]
    split
    · next trimmed => exact eq_of_beq trimmed
    · exact reads

theorem negative_shortest (tie : Tie) {x : Binary64} (finite : x.isFinite) :
    (shortest tie x).negative = x.isNegative := by
  by_cases zero : x.magnitude = 0
  · rw [shortest, if_pos zero]
  · obtain ⟨found, sign, _, eq⟩ := exists_shortest tie finite zero
    rw [eq]
    split
    · rw [negative_trim, sign]
    · exact sign

/-- Only zero has no digits, and it is written without an exponent. -/
theorem exponent_shortest_of_zero (tie : Tie) {x : Binary64} (finite : x.isFinite)
    (none : (shortest tie x).digits = 0) : (shortest tie x).exponent = 0 := by
  by_cases zero : x.magnitude = 0
  · rw [shortest, if_pos zero]
  · have reads := toBinary64_shortest tie finite
    rw [toBinary64, none, ofDecimal_zero] at reads
    have : x.magnitude = 0 := by
      rw [← reads]
      cases (shortest tie x).negative <;> rfl
    exact absurd this zero

end Decimal

end Depot
