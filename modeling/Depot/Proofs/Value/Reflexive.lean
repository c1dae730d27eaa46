import Depot.Proofs.Value.Compare

/-!
# Values that equal themselves

A NaN differs from itself, and so does everything that it stands in. Otherwise a value equals itself,
exactly or loosely (`equal_self_iff`, `looseEqual_self_iff`). A value that equals any other one has no
NaN in it, so it equals itself too (`looseEqual_self`).
-/

namespace Depot.Value

mutual

/-- Whether a NaN stands anywhere in the value. -/
def hasNaN : Value → Bool
  | float x => x.isNaN
  | array items => itemsHaveNaN items
  | map members => membersHaveNaN members
  | _ => false

def itemsHaveNaN : List Value → Bool
  | [] => false
  | v :: rest => v.hasNaN || itemsHaveNaN rest

def membersHaveNaN : List (String × Value) → Bool
  | [] => false
  | (_, v) :: rest => v.hasNaN || membersHaveNaN rest

end

mutual

theorem equal_self_iff : ∀ v : Value, v.equal v = true ↔ v.hasNaN = false
  | float x => by simp [equal, hasNaN, Binary64.equal_eq_true_iff]
  | array items => equalItems_self_iff items
  | map members => equalMembers_self_iff members
  | null => by simp [equal, hasNaN]
  | bool b => by simp [equal, hasNaN]
  | integer i => by simp [equal, hasNaN]
  | uinteger u => by simp [equal, hasNaN]
  | string s => by simp [equal, hasNaN]
  | bytes b => by simp [equal, hasNaN]

theorem equalItems_self_iff :
    ∀ items : List Value, equalItems items items = true ↔ itemsHaveNaN items = false
  | [] => by simp [equalItems, itemsHaveNaN]
  | v :: rest => by
      rw [equalItems, itemsHaveNaN, Bool.and_eq_true, Bool.or_eq_false_iff, equal_self_iff v,
        equalItems_self_iff rest]

theorem equalMembers_self_iff : ∀ members : List (String × Value),
    equalMembers members members = true ↔ membersHaveNaN members = false
  | [] => by simp [equalMembers, membersHaveNaN]
  | (k, v) :: rest => by
      rw [equalMembers, membersHaveNaN, BEq.rfl, Bool.true_and, Bool.and_eq_true,
        Bool.or_eq_false_iff, equal_self_iff v, equalMembers_self_iff rest]

end

/-- Whole numbers take no part in a comparison of a value with itself. -/
theorem looseEqual_self_eq (v : Value) : v.looseEqual v = v.equal v := by
  cases v <;> rfl

theorem looseEqual_self_iff (v : Value) : v.looseEqual v = true ↔ v.hasNaN = false := by
  rw [looseEqual_self_eq, equal_self_iff]

mutual

theorem equal_self : ∀ {a b : Value}, a.equal b = true → b.equal b = true
  | array as, b, h => by
      cases b with
      | array bs => exact equalItems_self h
      | _ => cases h
  | map as, b, h => by
      cases b with
      | map bs => exact equalMembers_self h
      | _ => cases h
  | float x, b, h => by
      cases b with
      | float y =>
          have number := (Binary64.equal_eq_true_iff.1 h).2.1
          exact Binary64.equal_eq_true_iff.2 ⟨number, number, rfl⟩
      | _ => cases h
  | null, b, h => by cases b <;> first | exact h | cases h
  | bool a, b, h => by cases b <;> first | cases h | simp [equal]
  | integer a, b, h => by cases b <;> first | cases h | simp [equal]
  | uinteger a, b, h => by cases b <;> first | cases h | simp [equal]
  | string a, b, h => by cases b <;> first | cases h | simp [equal]
  | bytes a, b, h => by cases b <;> first | cases h | simp [equal]

theorem equalItems_self :
    ∀ {as bs : List Value}, equalItems as bs = true → equalItems bs bs = true
  | [], [], h => h
  | [], _ :: _, h => by cases h
  | _ :: _, [], h => by cases h
  | a :: as, b :: bs, h => by
      rw [equalItems, Bool.and_eq_true] at h ⊢
      exact ⟨equal_self h.1, equalItems_self h.2⟩

theorem equalMembers_self : ∀ {as bs : List (String × Value)},
    equalMembers as bs = true → equalMembers bs bs = true
  | [], [], h => h
  | [], _ :: _, h => by cases h
  | _ :: _, [], h => by cases h
  | (k, a) :: as, (l, b) :: bs, h => by
      simp only [equalMembers, Bool.and_eq_true] at h ⊢
      exact ⟨⟨BEq.rfl, equal_self h.1.2⟩, equalMembers_self h.2⟩

end

/-- What a value loosely equals equals itself. -/
theorem looseEqual_self {a b : Value} (h : a.looseEqual b = true) : b.looseEqual b = true := by
  rw [looseEqual_self_eq]
  have float {x y : Binary64} (same : x.equal y = true) : (Value.float y).equal (.float y) = true :=
    equal_self (a := .float x) same
  cases a with
  | integer i =>
      cases b with
      | float y => exact float h
      | _ => exact equal_self h
  | uinteger u =>
      cases b with
      | float y => exact float h
      | _ => exact equal_self h
  | float x => cases b <;> first | exact equal_self h | simp [equal]
  | _ => exact equal_self h

end Depot.Value
