import Depot.Proofs.Value.Order
import Depot.Relational.Table
import Mathlib.Data.List.Induction

/-!
# Sorting rows

Whatever the comparison of rows comes to, sorting loses no row and doubles none (`perm_sortBy`), and
rows that are equal to each other keep their order (`filter_sortBy`). Where the comparison is a total
preorder on the rows, no later row is below an earlier one (`pairwise_sortBy`); it is one if the cells of
every column to sort by are orderly (`isPreorderOn_compareBy`).

All of this is proved by what putting one more row in does to the rows that are sorted already.
-/

namespace Depot

namespace Row

variable {order : List (String × Direction)} {row : Row} {rows : List Row}

/-! ### Comparing rows -/

theorem compareBy_self (order : List (String × Direction)) (a : Row) : compareBy order a a = .eq := by
  induction order with
  | nil => rfl
  | cons o rest ih =>
      obtain ⟨column, direction⟩ := o
      rw [compareBy, Value.orderCells_self, ih]
      cases direction <;> rfl

theorem compareBy_swap (order : List (String × Direction)) (a b : Row) :
    compareBy order b a = (compareBy order a b).swap := by
  induction order with
  | nil => rfl
  | cons o rest ih =>
      obtain ⟨column, direction⟩ := o
      rw [compareBy, compareBy, Ordering.swap_then, Value.orderCells_swap (cell a column), ih]
      cases direction <;> rfl

/-- Rows are compared by a total preorder if the cells of each column are. -/
theorem isPreorderOn_compareBy
    (orderly : ∀ o ∈ order, Value.Orderly (rows.map fun row => cell row o.1)) :
    IsPreorderOn (compareBy order) rows := by
  induction order with
  | nil => exact ⟨fun _ _ => rfl, fun _ _ _ _ => rfl, fun _ _ _ _ _ _ _ _ => rfl⟩
  | cons o rest ih =>
      obtain ⟨column, direction⟩ := o
      have cells : IsPreorderOn (fun a b => (cell a column).orderCells (cell b column)) rows :=
        IsPreorderOn.map_iff.1 (orderly _ List.mem_cons_self).isPreorderOn
      have directed : IsPreorderOn
          (fun a b => direction.apply ((cell a column).orderCells (cell b column))) rows := by
        cases direction
        · exact cells
        · exact cells.opposite
      exact directed.andThen (ih fun o mem => orderly o (List.mem_cons_of_mem _ mem))

theorem isLE_compareBy_iff {a b : Row} :
    (compareBy order a b).isLE ↔ compareBy order b a ≠ .lt := by
  rw [compareBy_swap order a b]
  cases compareBy order a b <;> decide +revert

/-! ### Putting a row in -/

theorem perm_insertBack (order : List (String × Direction)) (row : Row) (rows : List Row) :
    (insertBack order row rows).Perm (row :: rows) := by
  induction rows with
  | nil => rfl
  | cons last rest ih =>
      rw [insertBack]
      split
      · exact (ih.cons last).trans (.swap row last rest)
      · rfl

/-- The last row goes in behind the others. -/
theorem sortBy_concat (order : List (String × Direction)) (rows : List Row) (row : Row) :
    sortBy order (rows ++ [row]) = (insertBack order row (sortBy order rows).reverse).reverse := by
  rw [sortBy, sortBy, List.foldl_append, List.reverse_reverse]
  rfl

theorem perm_sortBy (order : List (String × Direction)) (rows : List Row) :
    (sortBy order rows).Perm rows := by
  induction rows using List.reverseRecOn with
  | nil => rfl
  | append_singleton rows row ih =>
      rw [sortBy_concat]
      have others : (sortBy order rows).reverse.Perm rows := (List.reverse_perm _).trans ih
      have ending : (row :: rows).Perm (rows ++ [row]) := (List.perm_append_singleton row rows).symm
      exact (List.reverse_perm _).trans
        ((perm_insertBack order row _).trans ((others.cons row).trans ending))

/-- Rows that are equal to each other keep their order. -/
theorem filter_insertBack {p : Row → Bool}
    (level : ∀ a ∈ row :: rows, ∀ b ∈ row :: rows, p a = true → p b = true → compareBy order a b = .eq) :
    (insertBack order row rows).filter p = (row :: rows).filter p := by
  induction rows with
  | nil => rfl
  | cons last rest ih =>
      rw [insertBack]
      split
      · next before =>
          have apart : ¬ (p row = true ∧ p last = true) := by
            rintro ⟨ofRow, ofLast⟩
            rw [isBefore, level row (by simp) last (by simp) ofRow ofLast] at before
            cases before
          rw [List.filter_cons, ih fun a ha b hb => level a (by grind) b (by grind)]
          grind
      · rfl

theorem filter_sortBy {p : Row → Bool}
    (level : ∀ a ∈ rows, ∀ b ∈ rows, p a = true → p b = true → compareBy order a b = .eq) :
    (sortBy order rows).filter p = rows.filter p := by
  induction rows using List.reverseRecOn with
  | nil => rfl
  | append_singleton rows row ih =>
      have others := ih fun a ha b hb => level a (by simp [ha]) b (by simp [hb])
      have among {a : Row} (ha : a ∈ row :: (sortBy order rows).reverse) : a ∈ rows ++ [row] := by
        simpa [(perm_sortBy order rows).mem_iff, or_comm] using ha
      rw [sortBy_concat, List.filter_reverse,
        filter_insertBack fun a ha b hb => level a (among ha) b (among hb), List.filter_append, ← others,
        List.filter_cons, List.filter_reverse]
      split <;> simp [*]

/-- Rows that are listed last to first stay sorted when one more is put in. -/
theorem pairwise_insertBack (preorder : IsPreorderOn (compareBy order) (row :: rows))
    (sorted : rows.Pairwise fun b a => (compareBy order a b).isLE) :
    (insertBack order row rows).Pairwise fun b a => (compareBy order a b).isLE := by
  induction rows with
  | nil => exact List.pairwise_singleton _ _
  | cons last rest ih =>
      obtain ⟨below, sorted⟩ := List.pairwise_cons.1 sorted
      rw [insertBack]
      split
      · next before =>
          refine List.pairwise_cons.2 ⟨fun a mem => ?_, ih (preorder.mono (by grind)) sorted⟩
          rcases List.mem_cons.1 ((perm_insertBack order row rest).mem_iff.1 mem) with rfl | mem
          · rw [isBefore, beq_iff_eq] at before
            rw [before]
            rfl
          · exact below a mem
      · next behind =>
          have above : (compareBy order last row).isLE :=
            isLE_compareBy_iff.2 fun less => behind (by rw [isBefore, less]; rfl)
          refine List.pairwise_cons.2 ⟨fun a mem => ?_, List.pairwise_cons.2 ⟨below, sorted⟩⟩
          rcases List.mem_cons.1 mem with rfl | mem
          · exact above
          · exact preorder.trans a (by simp [mem]) last (by simp) row (by simp) (below a mem) above

/-- Rows on which the comparison is a total preorder are sorted by it. -/
theorem pairwise_sortBy (preorder : IsPreorderOn (compareBy order) rows) :
    (sortBy order rows).Pairwise fun a b => (compareBy order a b).isLE := by
  induction rows using List.reverseRecOn with
  | nil => exact List.Pairwise.nil
  | append_singleton rows row ih =>
      have sorted := ih (preorder.mono fun a mem => by simp [mem])
      rw [sortBy_concat, List.pairwise_reverse]
      refine pairwise_insertBack (preorder.mono fun a mem => ?_) (List.pairwise_reverse.2 sorted)
      simpa [(perm_sortBy order rows).mem_iff, or_comm] using mem

end Row

namespace Relational.Table

variable {t : Table} {q : BoundQuery}

theorem sublist_query (t : Table) (q : BoundQuery) :
    (t.query q).Sublist (Row.sortBy q.order (t.matching q.predicate)) := by
  rw [query]
  split
  · exact (List.take_sublist _ _).trans (List.drop_sublist _ _)
  · exact List.drop_sublist _ _

theorem mem_query {row : Row} (mem : row ∈ t.query q) : row ∈ t.rows :=
  List.mem_of_mem_filter ((Row.perm_sortBy _ _).mem_iff.1 ((t.sublist_query q).subset mem))

theorem isPreorderOn_matching (lawful : IsPreorderOn (Row.compareBy q.order) t.rows) :
    IsPreorderOn (Row.compareBy q.order) (t.matching q.predicate) := by
  refine lawful.mono fun row mem => ?_
  rw [matching] at mem
  exact List.mem_of_mem_filter mem

/-- The rows of an answer are sorted if the comparison is a total preorder on those of the table. -/
theorem pairwise_query (lawful : IsPreorderOn (Row.compareBy q.order) t.rows) :
    (t.query q).Pairwise fun a b => Row.compareBy q.order b a ≠ .lt := by
  have sorted := (Row.pairwise_sortBy (isPreorderOn_matching lawful)).sublist (t.sublist_query q)
  exact sorted.imp Row.isLE_compareBy_iff.1

end Relational.Table

end Depot
