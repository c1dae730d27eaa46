import Depot.Number.Decimal
import Depot.Number.Literal

/-!
# Decimal digits

The digits that are written for a natural number denote it, and none of them is a needless zero.
Digits are read from the left, so those behind others shift them (`digitsValue_append`).
-/

namespace Depot

namespace Literal

theorem digitsValue_eq (ds : List Char) : digitsValue ds = Nat.ofDigitChars 10 ds 0 := rfl

theorem digitsValue_append (ds es : List Char) :
    digitsValue (ds ++ es) = 10 ^ es.length * digitsValue ds + digitsValue es := by
  rw [digitsValue_eq, Nat.ofDigitChars_append, Nat.ofDigitChars_eq_ofDigitChars_zero]
  rfl

theorem digitsValue_zeros (n : Nat) : digitsValue (List.replicate n '0') = 0 := by
  rw [digitsValue_eq, Nat.ofDigitChars_replicate_zero, Nat.mul_zero]

theorem digitsValue_digitChars (n : Nat) : digitsValue (Decimal.digitChars n) = n :=
  Nat.ofDigitChars_ten_toDigits

end Literal

namespace Decimal

theorem digitChars_ne_nil (n : Nat) : digitChars n ≠ [] := Nat.toDigits_ne_nil

theorem isDigit_of_mem_digitChars {n : Nat} {c : Char} (mem : c ∈ digitChars n) : c.isDigit = true :=
  Nat.isDigit_of_mem_toDigits (by decide) (by decide) mem

/-- Only zero is written with a zero in front. -/
theorem head?_digitChars {n : Nat} (h : n ≠ 0) : (digitChars n).head? ≠ some '0' := by
  induction n using Nat.strongRecOn with
  | ind n ih =>
      show (Nat.toDigits 10 n).head? ≠ _
      rw [Nat.toDigits_eq_if (by decide)]
      split
      · simp [h]
      · next large =>
          have front : Nat.toDigits 10 (n / 10) ≠ [] := Nat.toDigits_ne_nil
          have first := ih (n / 10) (by omega) (by omega)
          rw [digitChars] at first
          cases digits : Nat.toDigits 10 (n / 10) with
          | nil => exact absurd digits front
          | cons c ds => rwa [digits] at first

/-- Zeros behind the digits of a number multiply it. -/
theorem digitChars_append_zeros {n : Nat} (h : n ≠ 0) (k : Nat) :
    digitChars n ++ List.replicate k '0' = digitChars (n * 10 ^ k) := by
  induction k with
  | zero => simp
  | succ k ih =>
      have pos : 0 < n * 10 ^ k := Nat.mul_pos (Nat.pos_of_ne_zero h) (Nat.pow_pos (by decide))
      rw [List.replicate_succ', ← List.append_assoc, ih, Nat.pow_succ, ← Nat.mul_assoc,
        Nat.mul_comm _ 10]
      exact Nat.toDigits_append_toDigits (d := 0) (by decide) pos (by decide)

end Decimal

namespace Literal

theorem spanSign_digitChars (n : Nat) : spanSign (Decimal.digitChars n) = (false, Decimal.digitChars n) := by
  have first : ∀ c ∈ Decimal.digitChars n, c.isDigit = true :=
    fun _ => Decimal.isDigit_of_mem_digitChars
  rw [spanSign.eq_def]
  split
  · next same => exact absurd (first '-' (by simp [same])) (by decide)
  · next same => exact absurd (first '+' (by simp [same])) (by decide)
  · rfl

/-- A whole number is read from its text. -/
theorem int?_toString (i : Int) : int? (toString i) = some i := by
  have digits (n : Nat) : (Decimal.digitChars n).all Char.isDigit = true :=
    List.all_eq_true.2 fun c mem => Decimal.isDigit_of_mem_digitChars mem
  have filled (n : Nat) : (Decimal.digitChars n).isEmpty = false :=
    List.isEmpty_eq_false_iff.2 (Decimal.digitChars_ne_nil n)
  cases i with
  | ofNat n =>
      have text : (toString (Int.ofNat n)).toList = Decimal.digitChars n := String.toList_ofList
      rw [int?, text, spanSign_digitChars]
      simp [digits, filled, digitsValue_digitChars]
  | negSucc n =>
      have text : (toString (Int.negSucc n)).toList = '-' :: Decimal.digitChars (n + 1) := by
        show ("-" ++ String.ofList (Nat.toDigits 10 (n + 1))).toList = _
        rw [String.toList_append]
        exact congrArg (List.cons '-') String.toList_ofList
      rw [int?, text, spanSign]
      simp only [digits, filled, digitsValue_digitChars, Bool.not_true, Bool.or_self,
        Bool.false_eq_true, if_false, if_true]
      rfl

end Literal

end Depot
