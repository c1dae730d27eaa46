import Depot.Proofs.Number.Exact
import Depot.Proofs.Value.Coherence
import Depot.Proofs.Value.Reflexive

/-!
# Whole numbers that one float equals

Equality of trees is transitive (`equal_trans`). Loose equality also lets a whole number equal the float
that it is rounded to, and two different whole numbers may be rounded to one float: it equals both, which
do not equal each other (`Merges`). No other value equals two that differ (`looseEqual_trans_iff`), and
unless an unsigned number is in the range of the signed ones, both whole numbers are far from zero
(`two_pow_le_of_merges`).
-/

namespace Depot.Value

variable {a b c : Value} {x : Binary64}

/-! ### Equality of trees -/

mutual

theorem equal_trans : ∀ {a b c : Value}, a.equal b = true → b.equal c = true → a.equal c = true
  | array as, b, c, ab, bc => by
      cases b with
      | array bs =>
          cases c with
          | array cs => exact equalItems_trans ab bc
          | _ => cases bc
      | _ => cases ab
  | map as, b, c, ab, bc => by
      cases b with
      | map bs =>
          cases c with
          | map cs => exact equalMembers_trans ab bc
          | _ => cases bc
      | _ => cases ab
  | float x, b, c, ab, bc => by
      cases b with
      | float y =>
          cases c with
          | float z =>
              obtain ⟨notNaN, -, first⟩ := Binary64.equal_eq_true_iff.1 ab
              obtain ⟨-, notNaN', second⟩ := Binary64.equal_eq_true_iff.1 bc
              exact Binary64.equal_eq_true_iff.2 ⟨notNaN, notNaN', first.trans second⟩
          | _ => cases bc
      | _ => cases ab
  | null, b, c, ab, bc => by cases b <;> first | exact bc | cases ab
  | bool a, b, c, ab, bc => by cases b <;> first | exact eq_of_beq ab ▸ bc | cases ab
  | integer a, b, c, ab, bc => by cases b <;> first | exact eq_of_beq ab ▸ bc | cases ab
  | uinteger a, b, c, ab, bc => by cases b <;> first | exact eq_of_beq ab ▸ bc | cases ab
  | string a, b, c, ab, bc => by cases b <;> first | exact eq_of_beq ab ▸ bc | cases ab
  | bytes a, b, c, ab, bc => by cases b <;> first | exact eq_of_beq ab ▸ bc | cases ab

theorem equalItems_trans : ∀ {as bs cs : List Value},
    equalItems as bs = true → equalItems bs cs = true → equalItems as cs = true
  | [], [], _, _, bc => bc
  | [], _ :: _, _, ab, _ => by cases ab
  | _ :: _, [], _, ab, _ => by cases ab
  | _ :: _, _ :: _, [], _, bc => by cases bc
  | a :: as, b :: bs, c :: cs, ab, bc => by
      rw [equalItems, Bool.and_eq_true] at ab bc ⊢
      exact ⟨equal_trans ab.1 bc.1, equalItems_trans ab.2 bc.2⟩

theorem equalMembers_trans : ∀ {as bs cs : List (String × Value)},
    equalMembers as bs = true → equalMembers bs cs = true → equalMembers as cs = true
  | [], [], _, _, bc => bc
  | [], _ :: _, _, ab, _ => by cases ab
  | _ :: _, [], _, ab, _ => by cases ab
  | _ :: _, _ :: _, [], _, bc => by cases bc
  | (k, a) :: as, (l, b) :: bs, (m, c) :: cs, ab, bc => by
      simp only [equalMembers, Bool.and_eq_true, beq_iff_eq] at ab bc ⊢
      exact ⟨⟨ab.1.1.trans bc.1.1, equal_trans ab.1.2 bc.1.2⟩, equalMembers_trans ab.2 bc.2⟩

end

/-! ### Loose equality, scale by scale -/

theorem isScalarBound_of_scale? {k : Scale} (on : a.scale? = some k) : Filter.isScalarBound a = true := by
  cases a <;> first | rfl | cases on

/-- What is loosely equal to a value with a place has its place on the same scale. -/
theorem scale?_of_looseEqual {k : Scale} (same : a.looseEqual b = true) (on : a.scale? = some k) :
    b.scale? = some k := by
  rw [looseEqual_comm, ← compare?_eq_some_eq_iff (isScalarBound_of_scale? on)] at same
  obtain ⟨l, onB, onA⟩ := isSome_compare?_iff.1 (Option.isSome_of_eq_some same)
  rwa [← onA.symm.trans on]

/-- Off the number line loose equality is equality of trees. -/
theorem looseEqual_eq_equal (off : a.scale? ≠ some .number) (b : Value) : a.looseEqual b = a.equal b := by
  have unequal {x : Binary64} (off : (float x).scale? ≠ some .number) (y : Binary64) :
      y.equal x = false := by
    have nan : x.isNaN = true := by simpa [scale?_float_iff] using off
    simp [Binary64.equal, nan]
  cases a with
  | integer i => exact absurd rfl off
  | uinteger u => exact absurd rfl off
  | float x => cases b <;> first | rfl | exact unequal off _
  | _ => rfl

theorem isDiscrete_of_isWhole (whole : a.isWhole = true) : a.isDiscrete = true := by
  cases a <;> first | rfl | cases whole

theorem looseEqual_iff_eq_of_isWhole (wa : a.isWhole = true) (wb : b.isWhole = true) :
    a.looseEqual b = true ↔ a = b :=
  looseEqual_iff_eq (isDiscrete_of_isWhole wa) (isDiscrete_of_isWhole wb)

/-- A float equals any number with the same place among floats. -/
theorem looseEqual_iff_place (na : a.scale? = some .number) (nb : b.scale? = some .number)
    (real : ¬ (a.isWhole = true ∧ b.isWhole = true)) : a.looseEqual b = true ↔ a.place = b.place := by
  obtain ⟨order, compared⟩ := Option.isSome_iff_exists.1 (isSome_compare?_iff.2 ⟨_, na, nb⟩)
  have placed := orderCells_of_not_isWhole na nb real
  have notNull {v : Value} (on : v.scale? = some .number) : v.isNull = false := by
    cases v <;> first | rfl | cases on
  rw [orderCells_of_not_null (notNull na) (notNull nb), compared, Option.getD_some] at placed
  rw [← compare?_eq_some_eq_iff (isScalarBound_of_scale? nb), compared, Option.some_inj, placed,
    Std.LawfulEqCmp.compare_eq_iff_eq]

theorem place_eq_of_looseEqual (na : a.scale? = some .number) (same : a.looseEqual b = true) :
    a.place = b.place := by
  by_cases whole : a.isWhole = true ∧ b.isWhole = true
  · rw [(looseEqual_iff_eq_of_isWhole whole.1 whole.2).1 same]
  · exact (looseEqual_iff_place na (scale?_of_looseEqual same na) whole).1 same

/-! ### Merging -/

/-- A float is what two different whole numbers are rounded to. -/
structure Merges (x : Binary64) (a b : Value) : Prop where
  first_isWhole : a.isWhole = true
  second_isWhole : b.isWhole = true
  differ : a ≠ b
  first_place : a.place = x.rank
  second_place : b.place = x.rank

/-- Two values that equal a third equal each other, unless the third is a float that merges them. -/
theorem looseEqual_trans_iff (ab : a.looseEqual b = true) (bc : b.looseEqual c = true) :
    a.looseEqual c = true ↔ ¬ ∃ x, b = float x ∧ Merges x a c := by
  by_cases number : a.scale? = some .number
  · have numberB := scale?_of_looseEqual ab number
    have numberC := scale?_of_looseEqual bc numberB
    have first := place_eq_of_looseEqual number ab
    have second := place_eq_of_looseEqual numberB bc
    by_cases whole : a.isWhole = true ∧ c.isWhole = true
    · obtain ⟨wholeA, wholeC⟩ := whole
      rw [looseEqual_iff_eq_of_isWhole wholeA wholeC]
      cases wholeB : b.isWhole with
      | true =>
          -- whole numbers throughout are all the same
          obtain rfl := (looseEqual_iff_eq_of_isWhole wholeA wholeB).1 ab
          obtain rfl := (looseEqual_iff_eq_of_isWhole wholeA wholeC).1 bc
          exact iff_of_true rfl fun ⟨_, _, merges⟩ => merges.differ rfl
      | false =>
          obtain ⟨x, rfl⟩ := exists_float numberB wholeB
          constructor
          · rintro same ⟨_, _, merges⟩
            exact merges.differ same
          · intro apart
            by_contra differ
            exact apart ⟨x, rfl, wholeA, wholeC, differ, first, second.symm⟩
    · exact iff_of_true ((looseEqual_iff_place number numberC whole).2 (first.trans second))
        fun ⟨_, _, merges⟩ => whole ⟨merges.first_isWhole, merges.second_isWhole⟩
  · have off : b.scale? ≠ some .number := fun on =>
      number (scale?_of_looseEqual ((looseEqual_comm b a).trans ab) on)
    rw [looseEqual_eq_equal number] at ab ⊢
    rw [looseEqual_eq_equal off] at bc
    exact iff_of_true (equal_trans ab bc)
      fun ⟨_, _, merges⟩ => number (scale?_of_isWhole merges.first_isWhole)

/-! ### Numbers in their own kinds -/

/-- The number that a whole number stands for. -/
def whole : Value → Int
  | integer i => i.toInt
  | uinteger u => u.toNat
  | _ => 0

theorem place_eq_of_isWhole (wa : a.isWhole = true) : a.place = (Binary64.ofInt a.whole).rank := by
  cases a <;> first | rfl | cases wa

/-- Of whole numbers in their own kinds no two stand for one number. -/
theorem eq_of_whole_eq (wa : a.isWhole = true) (wb : b.isWhole = true) (plainA : a.Plain) (plainB : b.Plain)
    (same : a.whole = b.whole) : a = b := by
  -- the unsigned kind begins where the signed one ends
  apply eq_of_height wa wb
  cases a with
  | integer i =>
      have small : i.toInt < 2 ^ 63 := i.toInt_lt
      cases b with
      | integer j => exact same
      | uinteger u =>
          have large : 2 ^ 63 ≤ u.toNat := plainB
          have same : i.toInt = u.toNat := same
          omega
      | _ => cases wb
  | uinteger u =>
      have large : 2 ^ 63 ≤ u.toNat := plainA
      cases b with
      | integer j =>
          have small : j.toInt < 2 ^ 63 := j.toInt_lt
          have same : (u.toNat : Int) = j.toInt := same
          omega
      | uinteger v => exact congrArg (2 ^ 63 + ·) same
      | _ => cases wb
  | _ => cases wa

/-- Whole numbers in their own kinds that one float merges are at least `2 ^ 53` from zero. -/
theorem two_pow_le_of_merges (merges : Merges x a b) (plainA : a.Plain) (plainB : b.Plain) :
    2 ^ 53 ≤ a.whole.natAbs ∧ 2 ^ 53 ≤ b.whole.natAbs := by
  obtain ⟨wholeA, wholeB, differ, first, second⟩ := merges
  rw [place_eq_of_isWhole wholeA] at first
  rw [place_eq_of_isWhole wholeB] at second
  exact Binary64.two_pow_le_of_rank_eq (fun same => differ (eq_of_whole_eq wholeA wholeB plainA plainB same))
    (first.trans second.symm)

end Depot.Value
