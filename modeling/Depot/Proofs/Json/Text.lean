import Depot.Json.Reader
import Depot.Json.Writer

/-!
# Texts in JSON

Every text is read back from between its quotes. The writer works character by character, so the
reader's part is told character by character as well (`readString?_jsonChar`).
-/

namespace Depot

namespace Text.Hex

theorem value?_digit : ∀ n < 16, value? (digit n) = some n := by decide

theorem padded_two (n : Nat) : padded 2 n = [digit (n / 16 % 16), digit (n % 16)] := by
  simp [padded, List.range_succ]

theorem number?_padded_two {n : Nat} (small : n < 256) :
    number? ('0' :: '0' :: padded 2 n) = some n := by
  have high := value?_digit (n / 16 % 16) (Nat.mod_lt _ (by decide))
  have low := value?_digit (n % 16) (Nat.mod_lt _ (by decide))
  have zero : value? '0' = some 0 := by decide
  rw [padded_two, number?]
  simp only [List.foldlM_cons, List.foldlM_nil, zero, high, low, Option.map_some, Option.bind_eq_bind,
    Option.bind_some, Option.pure_def, Option.some.injEq]
  omega

end Text.Hex

namespace Json

theorem readString?_escaped {c letter : Char} (escaped : unescape? letter = some c)
    (notHex : letter ≠ 'u') (rest : List Char) :
    readString? ('\\' :: letter :: rest) =
      (readString? rest).map fun (cs, rest) => (c :: cs, rest) := by
  rw [readString?, escaped]
  · cases readString? rest <;> rfl
  · rintro a b c d tail same
    exact absurd same notHex

theorem readString?_plain {c : Char} (quote : c ≠ '"') (backslash : c ≠ '\\') (shown : 32 ≤ c.toNat)
    (rest : List Char) :
    readString? (c :: rest) = (readString? rest).map fun (cs, rest) => (c :: cs, rest) := by
  rw [readString?]
  · rw [if_neg fun bad => bad.elim backslash (by omega)]
    cases readString? rest <;> rfl
  · exact quote
  · rintro a b d e tail same
    exact absurd same backslash
  · rintro d tail same
    exact absurd same backslash

theorem readString?_control {c : Char} (control : c.toNat < 32) (rest : List Char) :
    readString? ('\\' :: 'u' :: '0' :: '0' :: (Text.Hex.padded 2 c.toNat ++ rest)) =
      (readString? rest).map fun (cs, rest) => (c :: cs, rest) := by
  have number := Text.Hex.number?_padded_two (n := c.toNat) (by omega)
  rw [Text.Hex.padded_two] at number ⊢
  show readString? ('\\' :: 'u' :: '0' :: '0' :: _ :: _ :: rest) = _
  rw [readString?, number]
  have notLow : isLowHalf c.toNat = false := by
    simp [isLowHalf]
    omega
  have notHigh : isHighHalf c.toNat = false := by
    simp [isHighHalf]
    omega
  rw [Option.bind_eq_bind, Option.bind_some, notLow, notHigh, Char.ofNat_toNat]
  cases readString? rest <;> rfl

/-- A character that is written is the character that is read. -/
theorem readString?_jsonChar (c : Char) (rest : List Char) :
    readString? (Text.Quoted.jsonChar c ++ rest) =
      (readString? rest).map fun (cs, rest) => (c :: cs, rest) := by
  rw [Text.Quoted.jsonChar]
  iterate 7
    split
    · next eq =>
        subst eq
        exact readString?_escaped (by decide) (by decide) rest
  split
  · next control => exact readString?_control control rest
  · next quote backslash _ _ _ _ _ shown =>
      exact readString?_plain quote backslash (by omega) rest

theorem readString?_flatMap (cs rest : List Char) :
    readString? (cs.flatMap Text.Quoted.jsonChar ++ '"' :: rest) = some (cs, rest) := by
  induction cs with
  | nil => rfl
  | cons c cs ih =>
      rw [List.flatMap_cons, List.append_assoc, readString?_jsonChar, ih]
      rfl

end Json

end Depot
