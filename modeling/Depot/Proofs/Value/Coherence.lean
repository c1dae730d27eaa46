import Depot.Filter.Basic
import Depot.Proofs.Value.Compare
import Depot.Proofs.Value.Order

/-!
# Equality and order say the same

Loose equality and the order of values are told by different tables of cases; one falls back on equality
of trees and the other on the order of floats. Wherever one of two values is a scalar they agree: the two
compare as equal exactly if they are loosely equal (`compare?_eq_some_eq_iff`). On null, arrays and maps
among themselves they do not, for these equal themselves and are not comparable.
-/

namespace Depot

theorem Binary64.compare?_eq_some_eq_iff {x y : Binary64} :
    x.compare? y = some .eq ↔ x.equal y = true := by
  rw [compare?, equal_eq_true_iff]
  cases x.isNaN <;> cases y.isNaN <;> simp

namespace Value

/-- A value compares as equal with a scalar exactly if it is loosely equal to it. -/
theorem compare?_eq_some_eq_iff {a b : Value} (scalar : Filter.isScalarBound b = true) :
    a.compare? b = some .eq ↔ a.looseEqual b = true := by
  cases b with
  | integer j =>
      cases a with
      | float x =>
          rw [looseEqual, Binary64.equal_comm]
          exact Binary64.compare?_eq_some_eq_iff
      | _ => simp [compare?, looseEqual, equal, asFloat?]
  | uinteger v =>
      cases a with
      | float x =>
          rw [looseEqual, Binary64.equal_comm]
          exact Binary64.compare?_eq_some_eq_iff
      | _ => simp [compare?, looseEqual, equal, asFloat?]
  | float y =>
      cases a with
      | integer i => exact Binary64.compare?_eq_some_eq_iff
      | uinteger u => exact Binary64.compare?_eq_some_eq_iff
      | float x =>
          show _ ↔ (float x).equal (float y) = true
          rw [equal]
          exact Binary64.compare?_eq_some_eq_iff
      | _ => simp [compare?, looseEqual, equal, asFloat?]
  | string t => cases a <;> simp [compare?, looseEqual, equal, asFloat?]
  | bool q => cases a <;> simp [compare?, looseEqual, equal, asFloat?]
  | bytes t => cases a <;> simp [compare?, looseEqual, equal, asFloat?, compareBytes_eq_compare]
  | null => cases scalar
  | array items => cases scalar
  | map members => cases scalar

end Value

end Depot
