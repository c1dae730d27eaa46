import Depot.Proofs.Relational.KeyTexts
import Depot.Proofs.Relational.Sorting
import Depot.Proofs.Statement.Binding

/-!
# What a query sorts by

A query gives the comparison of rows to a sort, which needs a total preorder. The comparison is one, for
every order that a query can be bound to, exactly if the cells of each column are orderly
(`lawful_iff_orderly`), and then no later row of an answer is below an earlier one. A table takes cells
of any kind into any column, so it may also hold columns that are not: two great whole numbers and the
float that both are rounded to are left in the order in which they came
(`straddled_totals_unsorted`).
-/

namespace Depot

/-! ### Orders that are bound -/

/-- A query is ordered by columns of declared fields. -/
theorem Query.exists_field_of_bind {spec : Spec} {params : Params} {q : Query} {bound : BoundQuery}
    (h : q.bind spec params = .ok bound) : ∀ o ∈ bound.order, ∃ f ∈ spec.fields, f.column = o.1 := by
  simp only [bind, Fallible.bind_eq_ok_iff] at h
  obtain ⟨order, ordered, _, _, made⟩ := h
  cases made
  intro o mem
  obtain ⟨asked, _, found⟩ := Fallible.exists_of_mem_of_mapM ordered mem
  rw [Fallible.bind_eq_ok_iff] at found
  obtain ⟨column, known, made⟩ := found
  cases made
  obtain ⟨f, declared, _, same⟩ := Spec.columnOf_eq_ok known
  exact ⟨f, declared, same⟩

theorem Spec.columnOf_of_mem {spec : Spec} {f : FieldSpec} (mem : f ∈ spec.fields) :
    spec.columnOf f.name = .ok f.column := by
  obtain ⟨column, known⟩ :=
    Spec.exists_columnOf_iff.2 (Spec.declares_iff.2 (List.mem_map_of_mem (f := FieldSpec.name) mem))
  obtain ⟨g, also, name, rfl⟩ := Spec.columnOf_eq_ok known
  rw [List.inj_on_of_nodup_map spec.names_nodup also mem name] at known
  exact known

/-- All rows by one field. -/
def Query.by (f : FieldSpec) (direction : Direction) : Query :=
  { orderBy := [(f.name, direction)] }

theorem Query.bind_by {spec : Spec} {f : FieldSpec} (mem : f ∈ spec.fields) (direction : Direction)
    (params : Params) :
    (Query.by f direction).bind spec params =
      .ok { predicate := .all [], order := [(f.column, direction)] } := by
  have ordered : ([(f.name, direction)].mapM fun o => do return (← spec.columnOf o.1, o.2)) =
      (Except.ok [(f.column, direction)] : Except Error _) := by
    simp only [List.mapM_cons, List.mapM_nil, Spec.columnOf_of_mem mem]
    rfl
  rw [Query.bind, Query.by, ordered]
  rfl

namespace Relational

variable {t : Table}

namespace Table

/-- Rows are compared lawfully in every order that a query can be bound to exactly if the cells of each
column are orderly. -/
theorem isPreorderOn_iff_orderly :
    (∀ (q : Query) (params : Params) (bound : BoundQuery), q.bind t.spec params = .ok bound →
        IsPreorderOn (Row.compareBy bound.order) t.rows) ↔
      ∀ f ∈ t.spec.fields, Value.Orderly (t.rows.map fun row => Row.cell row f.column) := by
  constructor
  · intro h f mem
    have one := h (.by f .asc) .empty _ (Query.bind_by mem .asc .empty)
    rw [← Value.isPreorderOn_orderCells_iff, IsPreorderOn.map_iff]
    refine one.congr fun a b => ?_
    rw [Row.compareBy, Row.compareBy, Direction.apply]
    cases (Row.cell a f.column).orderCells (Row.cell b f.column) <;> rfl
  · intro orderly q params bound made
    refine Row.isPreorderOn_compareBy fun o mem => ?_
    obtain ⟨f, declared, same⟩ := Query.exists_field_of_bind made o mem
    rw [← same]
    exact orderly f declared

end Table

namespace Connection

variable {ctx : Context} {table : TableDef} {s : Session Connection}

/-- A query answers from the table that statements see, and leaves it as it is. -/
theorem query_of_seen (live : s.refusal? ctx = none) (seen : RecordTable.seen? table s = some t)
    (q : BoundQuery) :
    ∃ s', query ctx table q s = (.ok (t.query q), s') ∧ RecordTable.seen? table s' = some t ∧
      s'.refusal? ctx = none := by
  obtain ⟨answer, after⟩ := visit_of_seen seen false fun t => (Except.ok (t.query q), t)
  rw [query, Call.check_bind_of_live live, read_apply]
  dsimp only
  rw [answer]
  exact ⟨_, rfl, after, live⟩

/-- A query that is answered was answered from the table that statements see. -/
theorem query_eq_ok (seen : RecordTable.seen? table s = some t) {q : BoundQuery} {rows : List Row}
    (answered : (query ctx table q s).1 = .ok rows) : rows = t.query q := by
  cases live : s.refusal? ctx with
  | some e =>
      rw [query, Call.check_bind_of_refusal live] at answered
      cases answered
  | none =>
      obtain ⟨s', answer, -⟩ := query_of_seen live seen q
      rw [answer] at answered
      cases answered
      rfl

end Connection

/-- The comparison of rows is reflexive and the opposite of itself the other way round, whatever the rows
and the order are. It is transitive on the rows of a table, in every order that a query can be bound to,
exactly if the cells of each column are orderly; and where it is, no later row of an answer is below an
earlier one. -/
theorem lawful_iff_orderly (t : Table) :
    (∀ (order : List (String × Direction)) (a b : Row), Row.compareBy order a a = .eq ∧
        Row.compareBy order b a = (Row.compareBy order a b).swap) ∧
      ((∀ (q : Query) (params : Params) (bound : BoundQuery), q.bind t.spec params = .ok bound →
          IsPreorderOn (Row.compareBy bound.order) t.rows) ↔
        ∀ f ∈ t.spec.fields, Value.Orderly (t.rows.map fun row => Row.cell row f.column)) ∧
      ∀ (ctx : Context) (table : TableDef) (q : BoundQuery) (s : Session Connection) (rows : List Row),
        RecordTable.seen? table s = some t → IsPreorderOn (Row.compareBy q.order) t.rows →
          (Connection.executor.query ctx table q s).1 = .ok rows →
            rows.Pairwise fun a b => Row.compareBy q.order b a ≠ .lt := by
  refine ⟨fun order a b => ⟨Row.compareBy_self order a, Row.compareBy_swap order a b⟩,
    Table.isPreorderOn_iff_orderly, fun ctx table q s rows seen lawful answered => ?_⟩
  rw [Connection.query_eq_ok seen answered]
  exact Table.pairwise_query lawful

end Relational

/-! ### Totals of two kinds -/

namespace Orders

open Relational

/-- An order with a total of any kind. -/
def totalling (id : Int64) (total : Value) : Row :=
  .ofList [("id", .integer id), ("customer_id", .string "c"), ("total", total), ("status", .string "open"),
    ("note", .null)]

/-- A session with the table of orders and rows in it. -/
def holding (rows : List Row) : Session Connection :=
  { backend := ⟨{ tables := .ofList [("orders", { spec, rows, version := rows.length })] }, none⟩ }

/-- All orders by their total. -/
def byTotal : BoundQuery := { predicate := .all [], order := [("total", .asc)] }

theorem bind_byTotal :
    (Query.by (.plain "total" .float) .asc).bind spec .empty = .ok byTotal :=
  Query.bind_by (by simp [spec]) .asc .empty

/-- A whole total and a float. -/
def mixed : List Row := [totalling 1 (.integer 5), totalling 2 (.float (.ofInt 3))]

theorem orderly_mixed : ∀ f ∈ spec.fields, Value.Orderly (mixed.map fun row => Row.cell row f.column) := by
  have numbers : Value.Orderly [.integer 1, .integer 2] :=
    .scaled .number (by decide) fun x mem => by simp at mem
  have totals : Value.Orderly [.integer 5, .float (.ofInt 3)] := by
    refine .scaled .number (by decide +kernel) fun x mem => ?_
    obtain rfl : x = .ofInt 3 := by simpa using mem
    decide +kernel
  have level (v : Value) : Value.Orderly [v, v] :=
    .level (by simp [Value.orderCells_self])
  intro f mem
  simp only [spec, List.mem_cons, List.not_mem_nil, or_false] at mem
  rcases mem with rfl | rfl | rfl | rfl | rfl
  · exact numbers
  · exact level (.string "c")
  · exact totals
  · exact level (.string "open")
  · exact level .null

/-- Two whole totals, and between them the float that both are rounded to. -/
def straddled : List Row :=
  [totalling 1 (.integer (2 ^ 53 + 1)), totalling 2 (.float (.ofInt (2 ^ 53))),
    totalling 3 (.integer (2 ^ 53))]

end Orders

namespace Relational

theorem lawful_iff_orderly_mixed :
    IsPreorderOn (Row.compareBy Orders.byTotal.order) Orders.mixed ∧
      (Connection.executor.query Orders.context Orders.table.table Orders.byTotal
        (Orders.holding Orders.mixed)).1 = .ok Orders.mixed.reverse ∧
      Orders.mixed.reverse.Pairwise fun a b => Row.compareBy Orders.byTotal.order b a ≠ .lt := by
  obtain ⟨-, orderly, sorted⟩ :=
    lawful_iff_orderly { spec := Orders.spec, rows := Orders.mixed, version := Orders.mixed.length }
  have lawful := orderly.2 Orders.orderly_mixed _ _ _ Orders.bind_byTotal
  have answered : (Connection.executor.query Orders.context Orders.table.table Orders.byTotal
      (Orders.holding Orders.mixed)).1 = .ok Orders.mixed.reverse := rfl
  exact ⟨lawful, answered, sorted _ _ _ _ _ rfl lawful answered⟩

/-- Three orders are saved. The total of the first is equal to that of the second, and that of the second
to that of the third, but the third is below the first; and a query by total leaves them as they came. -/
theorem straddled_totals_unsorted :
    (Orders.straddled.forM (Connection.executor.upsert Orders.context Orders.table.table) Orders.opened) =
        (.ok (), Orders.holding Orders.straddled) ∧
      (Query.by (.plain "total" .float) .asc).bind Orders.spec .empty = .ok Orders.byTotal ∧
      ¬ IsPreorderOn (Row.compareBy Orders.byTotal.order) Orders.straddled ∧
      (Connection.executor.query Orders.context Orders.table.table Orders.byTotal
        (Orders.holding Orders.straddled)).1 = .ok Orders.straddled ∧
      ¬ Orders.straddled.Pairwise fun a b => Row.compareBy Orders.byTotal.order b a ≠ .lt := by
  let a := Orders.totalling 1 (.integer (2 ^ 53 + 1))
  let b := Orders.totalling 2 (.float (.ofInt (2 ^ 53)))
  let c := Orders.totalling 3 (.integer (2 ^ 53))
  have level : Row.compareBy Orders.byTotal.order a b = .eq := by decide +kernel
  have level' : Row.compareBy Orders.byTotal.order b c = .eq := by decide +kernel
  have below : Row.compareBy Orders.byTotal.order c a = .lt := by decide +kernel
  have kept : Row.sortBy Orders.byTotal.order [a, b, c] = [a, b, c] := by
    simp [Row.sortBy, Row.insertBack, Row.isBefore, Row.compareBy_swap _ a b, Row.compareBy_swap _ b c,
      level, level']
  have answered : (Connection.executor.query Orders.context Orders.table.table Orders.byTotal
      (Orders.holding Orders.straddled)).1 = .ok (Row.sortBy Orders.byTotal.order [a, b, c]) := by
    have live : (Orders.holding Orders.straddled).refusal? Orders.context = none := rfl
    have seen : RecordTable.seen? Orders.table.table (Orders.holding Orders.straddled) =
        some { spec := Orders.spec, rows := Orders.straddled, version := 3 } := rfl
    obtain ⟨s', answer, -⟩ := Connection.query_of_seen live seen Orders.byTotal
    exact congrArg Prod.fst answer
  rw [kept] at answered
  refine ⟨rfl, Orders.bind_byTotal, fun lawful => ?_, answered, fun sorted => ?_⟩
  · have le := lawful.trans a (by simp [Orders.straddled, a]) b (by simp [Orders.straddled, b])
      c (by simp [Orders.straddled, c]) (by rw [level]; rfl) (by rw [level']; rfl)
    rw [Row.isLE_compareBy_iff] at le
    exact le below
  · have unsorted : Row.compareBy Orders.byTotal.order c a ≠ .lt :=
      (List.pairwise_cons.1 sorted).1 c (by simp [c])
    exact unsorted below

end Relational

end Depot
