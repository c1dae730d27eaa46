import Depot.Proofs.Json.Number
import Depot.Proofs.Number.Arithmetic
import Depot.Proofs.Number.Shortest
import Depot.Proofs.Value.Plain

/-!
# Floats in JSON text

The text of a float is read as some float, if it is read at all (`readNumber?_render`), which need not be the
one that was written: the reader rounds more than once. Whether a float is read back is a property of the
float (`Keeps`), and of a value that all its floats are (`KeepsFloats`).

A float whose digits and power of ten are floats themselves is read back, since there is only one rounding
(`keeps_of_few`).
-/

namespace Depot

namespace Json

open Literal (digitsValue)

/-! ### What the text of a float is read as -/

/-- What the text of a finite number is read as. -/
def reread? (x : Binary64) : Option Binary64 :=
  match readNumber? (Decimal.render .json x) with
  | some (.float y, _) => some y
  | _ => none

/-- The text of the number is read as the number. -/
def Keeps (x : Binary64) : Prop := reread? x = some x

instance (x : Binary64) : Decidable (Keeps x) := inferInstanceAs (Decidable (_ = _))

theorem Numeral.value?_of_isReal {n : Numeral} (real : n.isReal = true) (negative : Bool) :
    n.value? negative = (n.float? negative).map .float := by
  rw [value?, real]
  rfl

/-- A finite number has a numeral, which its text is read by whatever may stand behind it. -/
theorem exists_numeral_render {x : Binary64} (finite : x.isFinite) :
    ∃ n : Numeral, n.Denotes (Decimal.shortest .even x).digits (Decimal.shortest .even x).exponent ∧
      reread? x = n.float? x.isNegative ∧ ∀ rest, Ends rest →
        readNumber? (Decimal.render .json x ++ rest) =
          (n.float? x.isNegative).map fun y => (.float y, rest) := by
  obtain ⟨n, denotes, numeral⟩ :=
    exists_numeral_layout (Decimal.exponent_shortest_of_zero .even finite)
  have read (rest : List Char) (ends : Ends rest) : readNumber? (Decimal.render .json x ++ rest) =
      (n.float? x.isNegative).map fun y => (.float y, rest) := by
    have read := readNumber?_signed (numeral rest ends) x.isNegative
    rw [← List.append_assoc, Numeral.value?_of_isReal denotes.real, Option.map_map] at read
    exact read
  refine ⟨n, denotes, ?_, read⟩
  have alone := read [] trivial
  rw [List.append_nil] at alone
  rw [reread?, alone]
  cases n.float? x.isNegative <;> rfl

theorem numeric_render {x : Binary64} (finite : x.isFinite) : Numeric (Decimal.render .json x) := by
  obtain ⟨n, -, numeral⟩ := exists_numeral_layout (Decimal.exponent_shortest_of_zero .even finite)
  have alone := numeral [] trivial
  rw [List.append_nil] at alone
  exact numeric_signed alone _

/-- The text of a finite number is read as a number or not at all, whatever may stand behind it. -/
theorem readNumber?_render {x : Binary64} (finite : x.isFinite) {rest : List Char} (ends : Ends rest) :
    readNumber? (Decimal.render .json x ++ rest) = (reread? x).map fun y => (.float y, rest) := by
  obtain ⟨n, -, same, read⟩ := exists_numeral_render finite
  rw [read rest ends, same]

/-- The text `449.49106478873813` is read as a neighbour of the number that it was written for. -/
example : reread? ⟨0x407c17db66c07d8f⟩ = some ⟨0x407c17db66c07d90⟩ := by decide +kernel

/-! ### Floats of few digits -/

/-- The digits of the number, together with the zero that is written behind a whole number, and its power of
ten are floats themselves. -/
def Few (x : Binary64) : Prop :=
  let d := Decimal.shortest .even x
  d.digits * 10 ^ (d.exponent.toNat + 1) < 2 ^ 53 ∧ -22 ≤ d.exponent

/-- Digits that are appended make a number no less. -/
theorem le_foldl_digits (n : Nat) (ds : List Char) :
    n ≤ ds.foldl (fun n c => 10 * n + (c.toNat - 48)) n := by
  induction ds generalizing n with
  | nil => exact Nat.le_refl n
  | cons c ds ih => exact Nat.le_trans (by dsimp only; omega) (ih _)

theorem gather_of_lt {n : Nat} {ds : List Char}
    (small : ds.foldl (fun n c => 10 * n + (c.toNat - 48)) n < 2 ^ 64) :
    gather n ds = (ds.foldl (fun n c => 10 * n + (c.toNat - 48)) n, []) := by
  induction ds generalizing n with
  | nil => rfl
  | cons c ds ih =>
      have next : 10 * n + (c.toNat - 48) < 2 ^ 64 := Nat.lt_of_le_of_lt (le_foldl_digits _ ds) small
      rw [gather, if_pos next, ih small]
      rfl

/-- A numeral whose digits all fit is used as it denotes. -/
theorem Numeral.gathered_of_lt {n : Numeral} (small : n.digits < 2 ^ 64) :
    n.gathered = (n.digits, n.exponent) := by
  rw [digits, digitsValue, List.foldl_append] at small
  have whole := Nat.lt_of_le_of_lt (le_foldl_digits _ _) small
  rw [gathered, gather_of_lt whole]
  dsimp only
  rw [gather_of_lt small, digits, digitsValue, List.foldl_append, exponent]
  simp

theorem isWhole_tenPower {k : Nat} (small : k ≤ 22) : (tenPower k).IsWhole (10 ^ k) := by
  have all : ∀ k : Fin 23, (tenPower k).isNegative = false ∧
      (tenPower k).parts.1 * 2 ^ (tenPower k).parts.2.toNat =
        10 ^ k.val * 2 ^ (-(tenPower k).parts.2).toNat := by decide +kernel
  exact ⟨(all ⟨k, Nat.lt_succ_of_le small⟩).1, (all ⟨k, Nat.lt_succ_of_le small⟩).2⟩

/-- Digits and a power of ten that are floats are read as the nearest float. -/
theorem scaled?_of_few {digits : Nat} {exponent : Int} (few : digits < 2 ^ 53) (low : -22 ≤ exponent)
    (high : exponent ≤ 22) (finite : (Binary64.ofDecimal false digits exponent).isFinite) :
    scaled? digits exponent = some (.ofDecimal false digits exponent) := by
  have whole := Binary64.isWhole_ofInt few
  rw [scaled?, if_neg (by omega)]
  by_cases up : 0 ≤ exponent
  · have same : (Binary64.ofInt digits).mul (tenPower exponent.toNat) =
        .ofDecimal false digits exponent := by
      rw [Binary64.mul_of_isWhole whole (isWhole_tenPower (by omega))]
      by_cases zero : digits = 0
      · rw [zero, Nat.zero_mul, Binary64.ofDecimal_zero]
        rfl
      · rw [Binary64.ofDecimal_of_nonneg zero up (by omega)]
    rw [if_pos up, same, if_pos finite]
  · have once : (exponent.natAbs - 1) / 308 = 0 := by omega
    have same : (Binary64.ofInt digits).div (tenPower exponent.natAbs) =
        .ofDecimal false digits exponent := by
      rw [Binary64.div_of_isWhole whole (isWhole_tenPower (by omega)) (by simp)]
      by_cases zero : digits = 0
      · rw [zero, Binary64.ofDecimal_zero]
        rfl
      · have power : (-exponent).toNat = exponent.natAbs := by omega
        rw [Binary64.ofDecimal_of_neg zero (by omega) (by omega), power]
    rw [if_neg up, once]
    exact congrArg some same

/-- A point and a zero behind a whole number do not change it. -/
theorem ofDecimal_tenfold (negative : Bool) {digits : Nat} {exponent : Int} (low : 0 ≤ exponent)
    (high : exponent ≤ 400) :
    Binary64.ofDecimal negative (10 * (digits * 10 ^ exponent.toNat)) (-1) =
      Binary64.ofDecimal negative digits exponent := by
  by_cases zero : digits = 0
  · rw [zero, Nat.zero_mul, Nat.mul_zero, Binary64.ofDecimal_zero, Binary64.ofDecimal_zero]
  · have whole : digits * 10 ^ exponent.toNat ≠ 0 :=
      Nat.mul_ne_zero zero (Nat.ne_of_gt (Nat.pow_pos (by decide)))
    rw [Binary64.ofDecimal_of_neg (Nat.mul_ne_zero (by decide) whole) (by decide) (by omega),
      Binary64.ofDecimal_of_nonneg zero low high, Nat.mul_comm 10]
    exact Binary64.ofQuotient_scale negative _ Nat.one_ne_zero (by decide)

/-- A float of few digits is read back. -/
theorem keeps_of_few {x : Binary64} (finite : x.isFinite) (h : Few x) : Keeps x := by
  obtain ⟨few, low⟩ := h
  have reads := Decimal.toBinary64_shortest .even finite
  have sign := Decimal.negative_shortest .even finite
  have zero := Decimal.exponent_shortest_of_zero .even finite
  obtain ⟨n, denotes, reread, -⟩ := exists_numeral_render finite
  rw [Decimal.toBinary64, sign] at reads
  generalize (Decimal.shortest .even x).digits = digits at *
  generalize (Decimal.shortest .even x).exponent = exponent at *
  have high : exponent ≤ 22 := by
    by_cases none : digits = 0
    · omega
    · refine Int.not_lt.1 fun above => Nat.not_lt.2 ?_ few
      calc 2 ^ 53 ≤ 1 * 10 ^ 16 := by decide
        _ ≤ digits * 10 ^ (exponent.toNat + 1) :=
          Nat.mul_le_mul (by omega) (Nat.pow_le_pow_right (by decide) (by omega))
  -- the zero that is written behind a whole number counts as a digit
  have short : n.digits < 2 ^ 53 ∧ -22 ≤ n.exponent ∧ n.exponent ≤ 22 ∧
      Binary64.ofDecimal x.isNegative n.digits n.exponent = x := by
    rcases denotes.same with ⟨same, power⟩ | ⟨whole, same, power⟩
    · have fewer : digits * 1 ≤ digits * 10 ^ (exponent.toNat + 1) :=
        Nat.mul_le_mul_left digits (Nat.pow_pos (by decide))
      rw [same, power]
      exact ⟨by omega, low, high, reads⟩
    · have tenfold : 10 * (digits * 10 ^ exponent.toNat) = digits * 10 ^ (exponent.toNat + 1) := by
        rw [Nat.pow_succ, Nat.mul_comm 10, Nat.mul_assoc]
      rw [same, power, ofDecimal_tenfold _ whole (by omega), tenfold]
      exact ⟨few, by decide, by decide, reads⟩
  obtain ⟨few, low, high, reads⟩ := short
  have nearest : Binary64.ofDecimal false n.digits n.exponent = x.withSign false := by
    rw [← reads, Binary64.withSign_ofDecimal]
  have scaled := scaled?_of_few few low high (by rw [nearest, Binary64.isFinite_withSign, finite])
  rw [Keeps, reread, Numeral.float?, Numeral.gathered_of_lt (Nat.lt_trans few (by decide)), scaled,
    Option.map_some, Binary64.withSign_ofDecimal, reads]

end Json

/-! ### The floats of a value -/

namespace Value

mutual

/-- The floats that lie in a value. -/
def floats : Value → List Binary64
  | float x => [x]
  | array items => floatsItems items
  | map members => floatsMembers members
  | _ => []

def floatsItems : List Value → List Binary64
  | [] => []
  | v :: rest => v.floats ++ floatsItems rest

def floatsMembers : List (String × Value) → List Binary64
  | [] => []
  | (_, v) :: rest => v.floats ++ floatsMembers rest

end

mutual

/-- The floats of the plain form are those that are finite. -/
theorem floats_canonical : ∀ v : Value, v.canonical.floats = v.floats.filter Binary64.isFinite
  | array items => floats_mapItems items
  | map members => floats_mapMembers members
  | float x => by
      show (canonicalLeaf (float x)).floats = _
      rw [canonicalLeaf]
      cases finite : x.isFinite <;> simp [floats, finite]
  | uinteger u => by
      show (narrowLeaf (uinteger u)).floats = _
      rw [narrowLeaf]
      split <;> rfl
  | null | bool _ | integer _ | string _ | bytes _ => rfl

theorem floats_mapItems : ∀ items : List Value,
    floatsItems (mapItems canonicalLeaf items) = (floatsItems items).filter Binary64.isFinite
  | [] => rfl
  | v :: rest => by
      rw [mapItems, floatsItems, floatsItems, List.filter_append, ← floats_canonical v,
        ← floats_mapItems rest]
      rfl

theorem floats_mapMembers : ∀ members : List (String × Value),
    floatsMembers (mapMembers canonicalLeaf members) = (floatsMembers members).filter Binary64.isFinite
  | [] => rfl
  | (_, v) :: rest => by
      rw [mapMembers, floatsMembers, floatsMembers, List.filter_append, ← floats_canonical v,
        ← floats_mapMembers rest]
      rfl

end

mutual

/-- What the text of a plain value is read as, if all its floats can be read. -/
def reread? : Value → Option Value
  | float x => (Json.reread? x).map float
  | array items => (rereadItems? items).map array
  | map members => (rereadMembers? members).map map
  | v => some v

def rereadItems? : List Value → Option (List Value)
  | [] => some []
  | v :: rest => v.reread?.bind fun w => (rereadItems? rest).map (w :: ·)

def rereadMembers? : List (String × Value) → Option (List (String × Value))
  | [] => some []
  | (k, v) :: rest => v.reread?.bind fun w => (rereadMembers? rest).map ((k, w) :: ·)

end

mutual

theorem reread?_of_keeps : ∀ v : Value, (∀ x ∈ v.floats, Json.Keeps x) → v.reread? = some v
  | float x, keeps => by rw [reread?, keeps x (List.mem_singleton_self x), Option.map_some]
  | array items, keeps => by rw [reread?, rereadItems?_of_keeps items keeps, Option.map_some]
  | map members, keeps => by rw [reread?, rereadMembers?_of_keeps members keeps, Option.map_some]
  | null, _ | bool _, _ | integer _, _ | uinteger _, _ | string _, _ | bytes _, _ => rfl

theorem rereadItems?_of_keeps : ∀ items : List Value,
    (∀ x ∈ floatsItems items, Json.Keeps x) → rereadItems? items = some items
  | [], _ => rfl
  | v :: rest, keeps => by
      obtain ⟨first, others⟩ := List.forall_mem_append.1 keeps
      rw [rereadItems?, reread?_of_keeps v first, Option.bind_some, rereadItems?_of_keeps rest others,
        Option.map_some]

theorem rereadMembers?_of_keeps : ∀ members : List (String × Value),
    (∀ x ∈ floatsMembers members, Json.Keeps x) → rereadMembers? members = some members
  | [], _ => rfl
  | (_, v) :: rest, keeps => by
      obtain ⟨first, others⟩ := List.forall_mem_append.1 keeps
      rw [rereadMembers?, reread?_of_keeps v first, Option.bind_some,
        rereadMembers?_of_keeps rest others, Option.map_some]

end

end Value

/-- Every finite float in the value is read back from its JSON text. -/
def Json.KeepsFloats (v : Value) : Prop :=
  ∀ x ∈ v.floats, x.isFinite = true → Keeps x

instance (v : Value) : Decidable (Json.KeepsFloats v) := inferInstanceAs (Decidable (∀ x ∈ v.floats, _))

theorem Json.keepsFloats_of_few {v : Value} (few : ∀ x ∈ v.floats, x.isFinite = true → Few x) :
    KeepsFloats v :=
  fun x mem finite => keeps_of_few finite (few x mem finite)

/-- The plain form of a value is reread as it is, if the finite floats of the value are. -/
theorem Json.KeepsFloats.reread?_canonical {v : Value} (h : KeepsFloats v) :
    v.canonical.reread? = some v.canonical := by
  refine Value.reread?_of_keeps _ fun x mem => ?_
  rw [Value.floats_canonical, List.mem_filter] at mem
  exact h x mem.1 mem.2

end Depot
