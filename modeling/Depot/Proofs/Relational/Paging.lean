import Depot.Proofs.Relational.Arrangement
import Depot.Proofs.Relational.Comparison

/-!
# Pages of a query

An answer is a slice of the rows that satisfy the predicate, arranged in the order of the query
(`answers_arranged`): from the offset on, and of as many rows as the limit says. So pages of any sizes,
asked one after the other, put together are the whole, each row once.

The first row of a query is asked for by way of the query cut to one row, whatever limit the query has
itself. This is the head of the answer unless the limit is zero: then the answer has no rows, and still
there is a first one (`select_is_head_iff`).
-/

namespace Depot

/-- The items of a list from an offset on, at most as many as a limit says. -/
def slice {α : Type} (offset limit : Option Nat) (xs : List α) : List α :=
  match limit with
  | some l => xs.extract (offset.getD 0) (offset.getD 0 + l)
  | none => xs.drop (offset.getD 0)

/-- A query for pages of some sizes, one after the other, the first from an offset on. -/
def BoundQuery.pages (q : BoundQuery) (offset : Nat) : List Nat → List BoundQuery
  | [] => []
  | size :: rest => { q with offset := some offset, limit := some size } :: pages q (offset + size) rest

theorem slice_some {α : Type} (offset size : Nat) (xs : List α) :
    slice (some offset) (some size) xs = (xs.drop offset).take size := by
  simp [slice, List.extract]

theorem slice_append_slice {α : Type} (offset size more : Nat) (xs : List α) :
    slice (some offset) (some size) xs ++ slice (some (offset + size)) (some more) xs =
      slice (some offset) (some (size + more)) xs := by
  rw [slice_some, slice_some, slice_some, List.take_add, List.drop_drop]

namespace Relational

theorem Table.query_eq_slice (t : Table) (q : BoundQuery) :
    t.query q = slice q.offset q.limit (Row.sortBy q.order (t.matching q.predicate)) := by
  rw [query]
  cases q.limit with
  | none => rfl
  | some l => simp [slice, List.extract]

namespace Connection

variable {ctx : Context} {table : TableDef} {t : Table} {s : Session Connection}

/-- Pages put together are the slice that they cover, and asking for them leaves the table as it is. -/
theorem pages_of_seen (live : s.refusal? ctx = none) (seen : RecordTable.seen? table s = some t)
    (q : BoundQuery) (offset : Nat) (sizes : List Nat) :
    ∃ pages s', (q.pages offset sizes).mapM (query ctx table) s = (.ok pages, s') ∧
      RecordTable.seen? table s' = some t ∧
        pages.flatten =
          slice (some offset) (some sizes.sum) (Row.sortBy q.order (t.matching q.predicate)) := by
  induction sizes generalizing s offset with
  | nil => exact ⟨[], s, rfl, seen, by simp [slice]⟩
  | cons size rest ih =>
      obtain ⟨s', first, seen', live'⟩ :=
        query_of_seen live seen { q with offset := some offset, limit := some size }
      obtain ⟨pages, s'', others, seen'', whole⟩ := ih live' seen' (offset + size)
      refine ⟨t.query { q with offset := some offset, limit := some size } :: pages, s'', ?_, seen'', ?_⟩
      · rw [BoundQuery.pages, List.mapM_cons, Call.bind_apply, first]
        dsimp only
        rw [Call.bind_apply, others]
        rfl
      · rw [List.flatten_cons, whole, Table.query_eq_slice, slice_append_slice, List.sum_cons]

end Connection

/-- If in each column of the order the cells are of one kind, nulls apart, there is one arrangement of the
rows that satisfy the predicate in the order of the query. Every answer is its slice from the offset on,
of as many rows as the limit says, and pages of any sizes that cover it are put together the whole of
it. -/
theorem answers_arranged {ctx : Context} {table : TableDef} {t : Table} {s : Session Connection}
    {q : BoundQuery} (live : s.refusal? ctx = none) (seen : RecordTable.seen? table s = some t)
    (alike : Row.Alike q.order t.rows) :
    ∃ all, Row.Arranged q.order (t.rows.filter fun row => q.predicate.holds row) all ∧
      (∀ other, Row.Arranged q.order (t.rows.filter fun row => q.predicate.holds row) other →
        other = all) ∧
      (∀ offset limit, (Connection.executor.query ctx table { q with offset, limit } s).1 =
        .ok (slice offset limit all)) ∧
      ∀ sizes, all.length ≤ sizes.sum →
        ∃ pages, ((q.pages 0 sizes).mapM (Connection.executor.query ctx table) s).1 = .ok pages ∧
          pages.flatten = all := by
  have among : Row.Alike q.order (t.matching q.predicate) :=
    alike.mono fun row mem => List.mem_of_mem_filter mem
  have arranged := Row.arranged_sortBy among
  refine ⟨Row.sortBy q.order (t.matching q.predicate), arranged,
    fun other also => arranged.unique among also, fun offset limit => ?_, fun sizes enough => ?_⟩
  · rw [← Table.query_eq_slice t { q with offset, limit }]
    obtain ⟨s', answer, -⟩ := Connection.query_of_seen live seen { q with offset, limit }
    exact congrArg Prod.fst answer
  · obtain ⟨pages, s', answered, -, whole⟩ := Connection.pages_of_seen live seen q 0 sizes
    refine ⟨pages, congrArg Prod.fst answered, ?_⟩
    rw [whole, slice_some, List.drop_zero, List.take_of_length_le enough]

end Relational

/-- Three orders, two of them with one total. -/
def Orders.priced : List Row :=
  [totalling 1 (.float (.ofInt 3)), totalling 2 (.float (.ofInt 5)), totalling 3 (.float (.ofInt 3))]

namespace Relational

theorem answers_arranged_priced :
    let q : BoundQuery := { predicate := .all [], order := [("total", .desc)] }
    let arranged := [Orders.totalling 2 (.float (.ofInt 5)), Orders.totalling 1 (.float (.ofInt 3)),
      Orders.totalling 3 (.float (.ofInt 3))]
    Row.Alike q.order Orders.priced ∧ Row.Arranged q.order Orders.priced arranged ∧
      (Connection.executor.query Orders.context Orders.table.table
        { q with offset := some 1, limit := some 1 } (Orders.holding Orders.priced)).1 =
          .ok (slice (some 1) (some 1) arranged) := by
  intro q arranged
  have alike : Row.Alike q.order Orders.priced := by
    intro o mem
    cases List.mem_singleton.1 mem
    exact ⟨"float", by decide +kernel⟩
  have live : (Orders.holding Orders.priced).refusal? Orders.context = none := rfl
  have seen : RecordTable.seen? Orders.table.table (Orders.holding Orders.priced) =
      some { spec := Orders.spec, rows := Orders.priced, version := 3 } := rfl
  obtain ⟨all, own, -, answers, -⟩ := answers_arranged live seen alike
  have whole : (Connection.executor.query Orders.context Orders.table.table q
      (Orders.holding Orders.priced)).1 = .ok arranged := rfl
  obtain rfl : arranged = all := Except.ok.inj (whole.symm.trans (answers none none))
  exact ⟨alike, own, answers (some 1) (some 1)⟩

/-! ### The first row -/

/-- The limit is the last thing that a query does. -/
theorem Table.query_eq_take (t : Table) (q : BoundQuery) :
    t.query q = (t.query { q with limit := none }).take (q.limit.getD (t.query { q with limit := none }).length) := by
  obtain ⟨predicate, order, limit, offset⟩ := q
  cases limit with
  | none => exact List.take_length.symm
  | some l => rfl

/-- Whether a query fails, with what, and from which table it answers otherwise, is the same for all
queries. -/
theorem Connection.query_cases (ctx : Context) (table : TableDef) (s : Session Connection) :
    (∃ t : Table, ∃ s', ∀ q, query ctx table q s = (.ok (t.query q), s')) ∨
      ∃ e, ∀ q, query ctx table q s = (.error e, s) := by
  cases live : s.refusal? ctx with
  | some e => exact .inr ⟨e, fun q => Call.check_bind_of_refusal live _⟩
  | none =>
      rcases visit_cases s.backend table.name false with ⟨t, put, visited⟩ | ⟨e, visited⟩
      · refine .inl ⟨t, s.withBackend (put false t), fun q => ?_⟩
        rw [query, Call.check_bind_of_live live, read_apply]
        simp only [visited]
        rfl
      · refine .inr ⟨e, fun q => ?_⟩
        rw [query, Call.check_bind_of_live live, read_apply]
        simp only [visited]
        rfl

/-- The first of the rows that were answered; no row is no match, and an error stays one. -/
def headOf (name : String) (answer : Except Error (List Row)) : Except Error Row :=
  match answer with
  | .ok (row :: _) => .ok row
  | .ok [] => .error (.notFound (name ++ ": no matching row"))
  | .error e => .error e

theorem selectFirst_eq_headOf {σ : Type} (query : Context → TableDef → BoundQuery → Call σ (List Row))
    (ctx : Context) (table : TableDef) (q : BoundQuery) (s : Session σ) :
    selectFirst query ctx table q s =
      (headOf table.name (query ctx table { q with limit := some 1 } s).1,
        (query ctx table { q with limit := some 1 } s).2) := by
  rw [selectFirst, Call.bind_apply]
  rcases query ctx table { q with limit := some 1 } s with ⟨_ | _ | _, s'⟩ <;> rfl

/-- A select answers with the head of the query without its limit. So it is the head of the query itself
unless the limit is zero and there is a row all the same. -/
theorem select_is_head_iff (ctx : Context) (table : TableDef) (q : BoundQuery) (s : Session Connection) :
    let asked := Connection.executor.query ctx table q s
    let unlimited := Connection.executor.query ctx table { q with limit := none } s
    let selected := Connection.executor.select ctx table q s
    selected = (headOf table.name unlimited.1, unlimited.2) ∧
      (selected = (headOf table.name asked.1, asked.2) ↔
        (q.limit = some 0 → ∀ row rest, unlimited.1 ≠ .ok (row :: rest))) := by
  dsimp only [Connection.executor]
  rw [selectFirst_eq_headOf]
  rcases Connection.query_cases ctx table s with ⟨t, s', answered⟩ | ⟨e, failed⟩
  · simp only [answered]
    rw [t.query_eq_take q, t.query_eq_take { q with limit := some 1 }]
    dsimp only
    cases t.query { q with limit := none } with
    | nil => simp
    | cons row rest =>
        rcases q.limit with _ | _ | l <;> simp [headOf]
  · simp [failed]

/-- Asked for no rows a query has none, and a select has one. -/
theorem select_under_limit_zero :
    let q : BoundQuery := { Orders.byTotal with limit := some 0 }
    (Connection.executor.query Orders.context Orders.table.table q (Orders.holding Orders.mixed)).1 =
        .ok [] ∧
      (Connection.executor.select Orders.context Orders.table.table q (Orders.holding Orders.mixed)).1 =
        .ok (Orders.totalling 2 (.float (.ofInt 3))) :=
  ⟨rfl, rfl⟩

end Relational

end Depot
