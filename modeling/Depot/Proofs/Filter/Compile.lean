import Depot.Filter.Predicate
import Depot.Proofs.Fallible

/-!
# Filters and the tests they stand for

A filter stands for one test (`Filter.test`), whichever kinds of clauses a store offers. What is offered
only decides whether the filter can be compiled: it can if every kind of clause in it is offered, and
then the test is the one it stands for (`FilterSupport.compile_eq_ok_iff`).
-/

namespace Depot

namespace Filter

mutual

/-- The kinds of the clauses in a filter. -/
def operators : Filter → List Operator
  | not inner => .not :: inner.operators
  | and clauses => .and :: operatorsOfAll clauses
  | or clauses => .or :: operatorsOfAll clauses
  | eq .. => [.eq]
  | ne .. => [.ne]
  | isIn .. => [.isIn]
  | notIn .. => [.notIn]
  | range _ op _ => [op.operator]
  | like .. => [.like]
  | contains .. => [.contains]
  | present _ => [.present]

def operatorsOfAll : List Filter → List Operator
  | [] => []
  | f :: rest => f.operators ++ operatorsOfAll rest

end

mutual

/-- The test that a filter stands for. -/
def test : Filter → Test
  | eq field value => Test.isEqual field value
  | ne field value => Test.negate (Test.isEqual field value)
  | isIn field values => Test.isAmong field values
  | notIn field values => Test.negate (Test.isAmong field values)
  | range field op bound => Test.isWithin op field bound
  | like field pattern => Test.isLike field pattern
  | contains field value => Test.doesContain field value
  | present field => Test.isPresent field
  | not inner => Test.negate inner.test
  | and clauses => Test.all (tests clauses)
  | or clauses => Test.any (tests clauses)

def tests : List Filter → List Test
  | [] => []
  | f :: rest => f.test :: tests rest

end

/-- Every kind of clause in a filter is offered. -/
def OfferedBy (f : Filter) (support : FilterSupport) : Prop :=
  ∀ op ∈ f.operators, support.allows op = true

end Filter

namespace FilterSupport

variable {support : FilterSupport} {α : Type}

/-- One kind of clause is translated if it is offered. -/
theorem require_bind_eq_ok_iff {op : Operator} {translation : α} {apply : α → Test} {test : Test} :
    (Visitor.require op (support.ifAllowed op translation) >>= fun f => pure (apply f)) = .ok test ↔
      (∀ o ∈ [op], support.allows o = true) ∧ test = apply translation := by
  cases allowed : support.allows op with
  | false => simp [ifAllowed, allowed, Visitor.require, bind, Except.bind]
  | true =>
      simp [ifAllowed, allowed, Visitor.require, bind, Except.bind, pure, Except.pure,
        eq_comm (a := test)]

/-- A clause around others is translated if they are and its kind is offered. -/
theorem require_around_eq_ok_iff {op : Operator} {translation : α → Test} {within : Except Error α}
    {ops : List Operator} {a : α} (inner : ∀ b, within = .ok b ↔
      (∀ o ∈ ops, support.allows o = true) ∧ b = a) {test : Test} :
    (within >>= fun b =>
        Visitor.require op (support.ifAllowed op translation) >>= fun f => pure (f b)) = .ok test ↔
      (∀ o ∈ op :: ops, support.allows o = true) ∧ test = translation a := by
  rw [Fallible.bind_eq_ok_iff, List.forall_mem_cons]
  constructor
  · intro h
    obtain ⟨b, found, whole⟩ := h
    obtain ⟨offered, rfl⟩ := (inner b).1 found
    obtain ⟨here, same⟩ := require_bind_eq_ok_iff.1 whole
    exact ⟨⟨here op (by simp), offered⟩, same⟩
  · intro h
    obtain ⟨⟨here, offered⟩, same⟩ := h
    exact ⟨a, (inner a).2 ⟨offered, rfl⟩,
      require_bind_eq_ok_iff.2 ⟨by simpa using here, same⟩⟩

mutual

/-- A filter is translated into the test that it stands for, if every kind of clause in it is offered. -/
theorem accept_eq_ok_iff : ∀ (f : Filter) (test : Test),
    f.accept support.visitor = .ok test ↔ f.OfferedBy support ∧ test = f.test
  | .eq .., _ | .ne .., _ | .isIn .., _ | .notIn .., _ | .range .., _ | .like .., _
  | .contains .., _ | .present .., _ => require_bind_eq_ok_iff
  | .not inner, _ => require_around_eq_ok_iff (accept_eq_ok_iff inner)
  | .and clauses, _ | .or clauses, _ => require_around_eq_ok_iff (acceptAll_eq_ok_iff clauses)

theorem acceptAll_eq_ok_iff : ∀ (fs : List Filter) (tests : List Test),
    Filter.acceptAll support.visitor fs = .ok tests ↔
      (∀ op ∈ Filter.operatorsOfAll fs, support.allows op = true) ∧ tests = Filter.tests fs
  | [], _ => by
      rw [Filter.acceptAll, Except.ok.injEq, Filter.operatorsOfAll, Filter.tests]
      constructor
      · intro same
        exact ⟨by simp, same.symm⟩
      · intro h
        exact h.2.symm
  | f :: rest, tests => by
      rw [Filter.acceptAll, Filter.operatorsOfAll, Filter.tests, List.forall_mem_append]
      simp only [Fallible.bind_eq_ok_iff, accept_eq_ok_iff f, acceptAll_eq_ok_iff rest]
      constructor
      · intro h
        obtain ⟨_, ⟨first, rfl⟩, _, ⟨others, rfl⟩, same⟩ := h
        exact ⟨⟨first, others⟩, (Except.ok.inj same).symm⟩
      · intro h
        obtain ⟨⟨first, others⟩, rfl⟩ := h
        exact ⟨_, ⟨first, rfl⟩, _, ⟨others, rfl⟩, rfl⟩

end

/-- A filter can be compiled if every kind of clause in it is offered. -/
theorem compile_eq_ok_iff {f : Filter} {test : Test} :
    support.compile f = .ok test ↔ f.OfferedBy support ∧ test = f.test :=
  accept_eq_ok_iff f test

end FilterSupport

end Depot
