import Depot.Proofs.Relational.Sorting

/-!
# Rows in an order

What it means for rows to be in an order is said without the comparison of rows (`Row.Arranged`): the
same rows, none before one that precedes it, and rows that are level in the order in which they came.
A row precedes another in the first column in which they are not level, where it is below, or above if
the direction is falling. Where the cells of each column are of one kind there is exactly one such
arrangement (`Row.Arranged.unique`), and sorting finds it (`Row.arranged_sortBy`).
-/

namespace Depot

/-- A cell comes before another in a direction: below it if the cells rise, above it if they fall. -/
def Direction.puts : Direction → Value → Value → Bool
  | asc, a, b => a.isBelow b
  | desc, a, b => b.isBelow a

namespace Row

/-- In none of the columns is either of two rows below the other. -/
def isLevel (order : List (String × Direction)) (a b : Row) : Bool :=
  order.all fun o => !(cell a o.1).isBelow (cell b o.1) && !(cell b o.1).isBelow (cell a o.1)

/-- A row comes before another in some column, and in the columns before that they are level. -/
def Precedes (order : List (String × Direction)) (a b : Row) : Prop :=
  ∃ first column direction rest, order = first ++ (column, direction) :: rest ∧
    isLevel first a b = true ∧ direction.puts (cell a column) (cell b column) = true

/-- The same rows in an order, those that are level as they came. -/
structure Arranged (order : List (String × Direction)) (rows arranged : List Row) : Prop where
  once : arranged.Perm rows
  rising : arranged.Pairwise fun a b => ¬ Precedes order b a
  level : ∀ row ∈ rows, arranged.filter (isLevel order row) = rows.filter (isLevel order row)

/-- In each column to order by the cells are of one kind, nulls apart. -/
def Alike (order : List (String × Direction)) (rows : List Row) : Prop :=
  ∀ o ∈ order, Value.OneKind (rows.map fun row => cell row o.1)

variable {order : List (String × Direction)} {rows : List Row} {a b : Row}

theorem Alike.mono {fewer : List Row} (h : Alike order rows) (sub : ∀ row ∈ fewer, row ∈ rows) :
    Alike order fewer := by
  refine fun o mem => (h o mem).mono fun v inside => ?_
  obtain ⟨row, also, rfl⟩ := List.mem_map.1 inside
  exact List.mem_map_of_mem (sub row also)

theorem Alike.isPreorderOn (h : Alike order rows) : IsPreorderOn (compareBy order) rows :=
  isPreorderOn_compareBy fun o mem => (h o mem).orderly

/-! ### The comparison says what precedes -/

theorem isLevel_cons_iff (o : String × Direction) (order : List (String × Direction)) :
    isLevel (o :: order) a b = true ↔ isLevel [o] a b = true ∧ isLevel order a b = true := by
  simp [isLevel]

theorem precedes_nil : ¬ Precedes [] a b := by
  rintro ⟨first, column, direction, rest, whole, -⟩
  simp at whole

theorem precedes_cons_iff {column : String} {direction : Direction} :
    Precedes ((column, direction) :: order) a b ↔
      direction.puts (cell a column) (cell b column) = true ∨
        isLevel [(column, direction)] a b = true ∧ Precedes order a b := by
  constructor
  · rintro ⟨first, own, its, rest, whole, level, puts⟩
    cases first with
    | nil =>
        cases whole
        exact .inl puts
    | cons o others =>
        cases whole
        obtain ⟨here, there⟩ := (isLevel_cons_iff _ others).1 level
        exact .inr ⟨here, others, own, its, rest, rfl, there, puts⟩
  · rintro (puts | ⟨level, first, own, its, rest, rfl, others, puts⟩)
    · exact ⟨[], column, direction, order, rfl, rfl, puts⟩
    · exact ⟨(column, direction) :: first, own, its, rest, rfl, (isLevel_cons_iff _ first).2 ⟨level, others⟩, puts⟩

/-- One column: the comparison of its cells in its direction. -/
theorem apply_orderCells_iff {column : String} (direction : Direction)
    (kind : Value.OneKind [cell a column, cell b column]) :
    (direction.apply ((cell a column).orderCells (cell b column)) = .eq ↔
        isLevel [(column, direction)] a b = true) ∧
      (direction.apply ((cell a column).orderCells (cell b column)) = .lt ↔
        direction.puts (cell a column) (cell b column) = true) := by
  have below := Value.orderCells_eq_lt_iff kind
  have kind' : Value.OneKind [cell b column, cell a column] := kind.mono (by simp)
  have above := Value.orderCells_eq_lt_iff kind'
  rw [Value.orderCells_swap (cell a column)] at above
  have single : isLevel [(column, direction)] a b = true ↔
      (cell a column).isBelow (cell b column) = false ∧
        (cell b column).isBelow (cell a column) = false := by
    simp [isLevel]
  rw [single, ← Bool.not_eq_true, ← Bool.not_eq_true, ← below, ← above]
  cases direction <;> simp only [Direction.apply, Direction.puts, ← below, ← above] <;>
    cases (cell a column).orderCells (cell b column) <;> decide

/-- Rows with cells of one kind in each column compare as equal if they are level, and as less if the
first precedes the second. -/
theorem compareBy_iff (alike : Alike order [a, b]) :
    (compareBy order a b = .eq ↔ isLevel order a b = true) ∧
      (compareBy order a b = .lt ↔ Precedes order a b) := by
  induction order with
  | nil => exact ⟨by simp [compareBy, isLevel], by simp [compareBy, precedes_nil]⟩
  | cons o rest ih =>
      obtain ⟨column, direction⟩ := o
      obtain ⟨equal, less⟩ := ih fun o mem => alike o (List.mem_cons_of_mem _ mem)
      obtain ⟨equal', less'⟩ :=
        apply_orderCells_iff direction (alike (column, direction) List.mem_cons_self)
      constructor
      · rw [compareBy, Ordering.then_eq_eq, equal, equal', isLevel_cons_iff _ rest]
      · rw [compareBy, Ordering.then_eq_lt, equal', less, less', precedes_cons_iff]

/-! ### The one arrangement -/

end Row

/-- Two sortings of the same things that keep the order of equal ones are the same. -/
theorem IsPreorderOn.eq_of_sorted {α : Type} {cmp : α → α → Ordering} {xs ys : List α}
    (preorder : IsPreorderOn cmp xs) (perm : xs.Perm ys)
    (hx : xs.Pairwise fun a b => (cmp a b).isLE) (hy : ys.Pairwise fun a b => (cmp a b).isLE)
    (level : ∀ a ∈ xs, xs.filter (fun b => cmp a b == .eq) = ys.filter fun b => cmp a b == .eq) :
    xs = ys := by
  induction xs generalizing ys with
  | nil => exact (List.nil_perm.1 perm).symm
  | cons x xs ih =>
      obtain ⟨y, ys, rfl⟩ : ∃ y rest, ys = y :: rest :=
        List.exists_cons_of_ne_nil fun none => by simp [none] at perm
      obtain ⟨first, hx⟩ := List.pairwise_cons.1 hx
      obtain ⟨first', sorted⟩ := List.pairwise_cons.1 hy
      have self := preorder.self x List.mem_cons_self
      have inside : y ∈ x :: xs := perm.mem_iff.2 List.mem_cons_self
      -- each of the two heads is not above the other, so the filters of what equals `x` start with them
      have le : (cmp x y).isLE := by
        rcases List.mem_cons.1 inside with rfl | mem
        · rw [self]; rfl
        · exact first y mem
      have ge : (cmp y x).isLE := by
        rcases List.mem_cons.1 (perm.mem_iff.1 List.mem_cons_self : x ∈ y :: ys) with rfl | mem
        · rw [self]; rfl
        · exact first' x mem
      have equal : cmp x y = .eq := preorder.eq_of_isLE List.mem_cons_self inside le ge
      have heads := level x List.mem_cons_self
      rw [List.filter_cons_of_pos (by rw [self]; rfl), List.filter_cons_of_pos (by rw [equal]; rfl)]
        at heads
      obtain rfl : x = y := (List.cons.inj heads).1
      refine congrArg (x :: ·) (ih (preorder.mono fun a mem => List.mem_cons_of_mem x mem)
        perm.cons_inv hx sorted fun a mem => ?_)
      have whole := level a (List.mem_cons_of_mem x mem)
      simp only [List.filter_cons] at whole
      split at whole
      · exact (List.cons.inj whole).2
      · exact whole

namespace Row

variable {order : List (String × Direction)} {rows arranged other : List Row}

/-- An arrangement is a sorting by the comparison of rows that keeps the order of equal rows. -/
theorem arranged_iff (alike : Alike order rows) :
    Arranged order rows arranged ↔ arranged.Perm rows ∧
      (arranged.Pairwise fun a b => (compareBy order a b).isLE) ∧
        ∀ row ∈ rows, arranged.filter (fun other => compareBy order row other == .eq) =
          rows.filter fun other => compareBy order row other == .eq := by
  have pair {a b : Row} (ha : a ∈ rows) (hb : b ∈ rows) :
      (compareBy order a b = .eq ↔ isLevel order a b = true) ∧
        (compareBy order a b = .lt ↔ Precedes order a b) :=
    compareBy_iff (alike.mono (by simp [ha, hb]))
  have same {row : Row} (mem : row ∈ rows) {fewer : List Row} (sub : ∀ a ∈ fewer, a ∈ rows) :
      fewer.filter (isLevel order row) = fewer.filter fun other => compareBy order row other == .eq := by
    refine List.filter_congr fun other inside => ?_
    rw [Bool.eq_iff_iff, beq_iff_eq, (pair mem (sub other inside)).1]
  have sorted (perm : arranged.Perm rows) : (arranged.Pairwise fun a b => ¬ Precedes order b a) ↔
      arranged.Pairwise fun a b => (compareBy order a b).isLE := by
    refine List.Pairwise.iff_of_mem fun {a b} ha hb => ?_
    rw [isLE_compareBy_iff, ne_eq, (pair (perm.mem_iff.1 hb) (perm.mem_iff.1 ha)).2]
  constructor
  · rintro ⟨once, rising, level⟩
    refine ⟨once, (sorted once).1 rising, fun row mem => ?_⟩
    rw [← same mem fun _ => once.mem_iff.1, ← same mem fun _ => id, level row mem]
  · rintro ⟨once, rising, level⟩
    refine ⟨once, (sorted once).2 rising, fun row mem => ?_⟩
    rw [same mem fun _ => once.mem_iff.1, same mem fun _ => id, level row mem]

/-- There is one arrangement of rows with cells of one kind in each column. -/
theorem Arranged.unique (alike : Alike order rows) (h : Arranged order rows arranged)
    (h' : Arranged order rows other) : other = arranged := by
  obtain ⟨once, rising, level⟩ := (arranged_iff alike).1 h
  obtain ⟨once', rising', level'⟩ := (arranged_iff alike).1 h'
  refine (alike.isPreorderOn.mono fun a => once'.mem_iff.1).eq_of_sorted (once'.trans once.symm) rising'
    rising fun a mem => ?_
  rw [level' a (once'.mem_iff.1 mem), level a (once'.mem_iff.1 mem)]

/-- Sorting arranges rows with cells of one kind in each column. -/
theorem arranged_sortBy (alike : Alike order rows) : Arranged order rows (sortBy order rows) := by
  have preorder := alike.isPreorderOn
  refine (arranged_iff alike).2 ⟨perm_sortBy order rows, pairwise_sortBy preorder, fun row mem => ?_⟩
  refine filter_sortBy fun a ha b hb ofA ofB => ?_
  exact preorder.eq_of_eq mem ha hb (beq_iff_eq.1 ofA) (beq_iff_eq.1 ofB)

end Row

end Depot
