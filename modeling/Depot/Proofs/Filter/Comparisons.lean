import Depot.Proofs.Filter.Agreement
import Depot.Proofs.Value.Coherence

/-!
# Comparisons with one bound

What is at least a bound is above it or equal to it, what is at most a bound is below it or equal to it,
and at most one of below, equal and above holds (`Coherent`). Equality is asked of one relation of values
and the others of another, so this rests on the two agreeing about scalars. It is so of predicates on rows
and of filters, whichever stores compiled them, and whatever is found in the column or in the field
(`comparisons_cohere`).
-/

namespace Depot

namespace CompareOp

/-- The comparisons by order. -/
def orderings : List CompareOp := [lt, le, eq, ge, gt]

/-- Whether an order of a thing to a bound, if there is one, is as a comparison says. -/
def admits (order : Option Ordering) : CompareOp → Bool
  | lt => order == some .lt
  | le => order == some .lt || order == some .eq
  | eq => order == some .eq
  | ge => order == some .gt || order == some .eq
  | gt => order == some .gt
  | _ => false

end CompareOp

/-- The outcomes of the comparisons of one thing with one bound fit together. -/
structure Coherent (holds : CompareOp → Bool) : Prop where
  ge_iff : holds .ge = true ↔ holds .gt = true ∨ holds .eq = true
  le_iff : holds .le = true ↔ holds .lt = true ∨ holds .eq = true
  single : ∀ op ∈ [CompareOp.lt, .eq, .gt], ∀ other ∈ [CompareOp.lt, .eq, .gt],
    holds op = true → holds other = true → op = other

/-- Outcomes that come from one order fit together. -/
theorem coherent_of_admits {holds : CompareOp → Bool} (order : Option Ordering)
    (from_order : ∀ op ∈ CompareOp.orderings, holds op = op.admits order) : Coherent holds := by
  simp only [CompareOp.orderings, List.forall_mem_cons] at from_order
  obtain ⟨lt, le, eq, ge, gt, -⟩ := from_order
  refine ⟨?_, ?_, ?_⟩
  · rw [ge, gt, eq]
    exact Bool.or_eq_true _ _ ▸ Iff.rfl
  · rw [le, lt, eq]
    exact Bool.or_eq_true _ _ ▸ Iff.rfl
  · simp only [List.forall_mem_cons, List.not_mem_nil, false_implies, implies_true, and_true, lt, eq, gt]
    rcases order with _ | _ | _ | _ <;> decide

variable {bound : Value}

/-- A comparison with a scalar is told by the order to it. -/
theorem CompareOp.holds_eq_admits (scalar : Filter.isScalarBound bound = true) (cell : Value) {op : CompareOp}
    (mem : op ∈ orderings) : op.holds cell bound = op.admits (cell.compare? bound) := by
  have equal : cell.looseEqual bound = (cell.compare? bound == some .eq) := by
    rw [Bool.eq_iff_iff, ← Value.compare?_eq_some_eq_iff scalar, beq_iff_eq]
  cases op with
  | eq => exact equal
  | lt | le | ge | gt => rfl
  | ne | like | isIn => exact absurd mem (by decide)

theorem coherent_predicates (scalar : Filter.isScalarBound bound = true) (row : Row) (column : String) :
    Coherent fun op => (Predicate.compare column op bound).holds row := by
  cases null : (Row.cell row column).isNull with
  | true =>
      refine coherent_of_admits none fun op mem => ?_
      rw [Predicate.holds, null]
      cases op <;> rfl
  | false =>
      refine coherent_of_admits ((Row.cell row column).compare? bound) fun op mem => ?_
      rw [← CompareOp.holds_eq_admits scalar _ mem, Predicate.holds, null]
      rfl

/-- Whichever stores compiled the filters that make the comparisons. -/
theorem coherent_filters (scalar : Filter.isScalarBound bound = true) {field : String} {f : CompareOp → Filter}
    {tests : CompareOp → Test}
    (compiled : ∀ op ∈ CompareOp.orderings, op.toFilter? field bound = some (f op) ∧
      ∃ support : FilterSupport, support.compile (f op) = .ok (tests op)) (m : Value) :
    Coherent fun op => tests op m := by
  have same {op : CompareOp} (mem : op ∈ CompareOp.orderings) : tests op = (f op).test := by
    obtain ⟨support, made⟩ := (compiled op mem).2
    exact (FilterSupport.compile_eq_ok_iff.1 made).2
  cases found : Test.lookup? m field with
  | none =>
      refine coherent_of_admits none fun op mem => ?_
      rw [same mem, CompareOp.test_of_null (compiled op mem).1 found]
      cases op <;> rfl
  | some cell =>
      refine coherent_of_admits (cell.compare? bound) fun op mem => ?_
      rw [same mem, CompareOp.test_of_content (compiled op mem).1 found,
        CompareOp.holds_eq_admits scalar _ mem]

/-- **Comparisons cohere.** A value is comparable with a scalar exactly if both have their places on one
scale. It compares as equal exactly if it is loosely equal to it, and the two compare one way round as the
opposite of the other. So the comparisons with one scalar bound fit together: those of a predicate, on
every row and column, and those of the filters that say the same, compiled by whatever stores, on every
value. -/
theorem comparisons_cohere (bound : Value) (scalar : Filter.isScalarBound bound = true) :
    (∀ a : Value, ((a.compare? bound).isSome ↔ ∃ k, a.scale? = some k ∧ bound.scale? = some k) ∧
        (a.compare? bound = some .eq ↔ a.looseEqual bound = true) ∧
        bound.compare? a = (a.compare? bound).map Ordering.swap) ∧
      (∀ (row : Row) (column : String),
        Coherent fun op => (Predicate.compare column op bound).holds row) ∧
      ∀ (field : String) (f : CompareOp → Filter) (tests : CompareOp → Test),
        (∀ op ∈ CompareOp.orderings, op.toFilter? field bound = some (f op) ∧
            ∃ support : FilterSupport, support.compile (f op) = .ok (tests op)) →
          ∀ m, Coherent fun op => tests op m :=
  ⟨fun a => ⟨Value.isSome_compare?_iff, Value.compare?_eq_some_eq_iff scalar, Value.compare?_swap a bound⟩,
    coherent_predicates scalar, fun _ _ _ compiled m => coherent_filters scalar compiled m⟩

/-- A whole number and the float that it is rounded to: the filters take it for equal, and so for at least
and at most as much, but not for more. -/
theorem comparisons_cohere_rounded :
    let bound := Value.float (.ofInt (2 ^ 53))
    let m := Value.map [("total", .integer (2 ^ 53 + 1))]
    Filter.isScalarBound bound = true ∧ ∃ ge eq gt,
      FilterSupport.compile {} (.range "total" .ge bound) = .ok ge ∧
      FilterSupport.compile {} (.eq "total" bound) = .ok eq ∧
      FilterSupport.compile {} (.range "total" .gt bound) = .ok gt ∧
      eq m = true ∧ ge m = true ∧ gt m = false := by
  intro bound m
  let filters : CompareOp → Filter := fun op => (op.toFilter? "total" bound).getD (.present "total")
  obtain ⟨-, -, compiled⟩ := comparisons_cohere bound rfl
  have coherent := compiled "total" filters (fun op => (filters op).test) (by
    simp only [CompareOp.orderings, List.forall_mem_cons]
    exact ⟨⟨rfl, {}, rfl⟩, ⟨rfl, {}, rfl⟩, ⟨rfl, {}, rfl⟩, ⟨rfl, {}, rfl⟩, ⟨rfl, {}, rfl⟩,
      fun _ mem => absurd mem List.not_mem_nil⟩) m
  have equal : (filters .eq).test m = true := by decide +kernel
  refine ⟨rfl, _, _, _, rfl, rfl, rfl, equal, coherent.ge_iff.2 (.inr equal), ?_⟩
  refine eq_false_of_ne_true fun above => ?_
  cases coherent.single .eq (by simp) .gt (by simp) equal above

end Depot
