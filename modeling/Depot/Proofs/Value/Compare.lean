import Depot.Value.Compare

/-!
# Symmetry of equality

Both equalities are symmetric, so it does not matter which of two values is asked. Neither is
reflexive, because of NaN. Among texts and whole numbers both are identity (`looseEqual_iff_eq`).
-/

namespace Depot

namespace Binary64

theorem equal_comm (x y : Binary64) : x.equal y = y.equal x := by
  rw [Bool.eq_iff_iff, equal_eq_true_iff, equal_eq_true_iff]
  constructor
  · intro h
    obtain ⟨hx, hy, rank⟩ := h
    exact ⟨hy, hx, rank.symm⟩
  · intro h
    obtain ⟨hy, hx, rank⟩ := h
    exact ⟨hx, hy, rank.symm⟩

end Binary64

namespace Value

mutual

theorem equal_comm : ∀ a b : Value, a.equal b = b.equal a
  | array as, b => by
      cases b with
      | array bs =>
          rw [equal, equal]
          exact equalItems_comm as bs
      | _ => rfl
  | map as, b => by
      cases b with
      | map bs =>
          rw [equal, equal]
          exact equalMembers_comm as bs
      | _ => rfl
  | float x, b => by
      cases b with
      | float y =>
          rw [equal, equal]
          exact Binary64.equal_comm x y
      | _ => rfl
  | null, b => by cases b <;> rfl
  | bool a, b => by cases b <;> simp [equal, Bool.beq_comm]
  | integer a, b => by cases b <;> simp [equal, BEq.comm]
  | uinteger a, b => by cases b <;> simp [equal, BEq.comm]
  | string a, b => by cases b <;> simp [equal, BEq.comm]
  | bytes a, b => by cases b <;> simp [equal, BEq.comm]

theorem equalItems_comm : ∀ as bs : List Value, equalItems as bs = equalItems bs as
  | [], bs => by cases bs <;> rfl
  | a :: as, bs => by
      cases bs with
      | nil => rfl
      | cons b bs => rw [equalItems, equalItems, equal_comm a b, equalItems_comm as bs]

theorem equalMembers_comm :
    ∀ as bs : List (String × Value), equalMembers as bs = equalMembers bs as
  | [], bs => by cases bs <;> rfl
  | (k, a) :: as, bs => by
      cases bs with
      | nil => rfl
      | cons b bs =>
          obtain ⟨l, b⟩ := b
          rw [equalMembers, equalMembers, equal_comm a b, equalMembers_comm as bs, BEq.comm (a := k)]

end

theorem looseEqual_comm (a b : Value) : a.looseEqual b = b.looseEqual a := by
  cases a <;> cases b <;> first | rfl | exact equal_comm _ _

/-! ### Texts and whole numbers -/

/-- A text or a whole number. -/
def isDiscrete : Value → Bool
  | string _ | integer _ | uinteger _ => true
  | _ => false

theorem equal_iff_eq {a b : Value} (discrete : a.isDiscrete = true) : a.equal b = true ↔ a = b := by
  cases a with
  | string _ | integer _ | uinteger _ => cases b <;> simp [equal]
  | _ => cases discrete

theorem looseEqual_iff_eq {a b : Value} (ha : a.isDiscrete = true) (hb : b.isDiscrete = true) :
    a.looseEqual b = true ↔ a = b := by
  have same : a.looseEqual b = a.equal b := by
    cases a <;> cases b <;>
      first | rfl | exact absurd ha Bool.false_ne_true | exact absurd hb Bool.false_ne_true
  rw [same, equal_iff_eq ha]

end Value

end Depot
