import Depot.Proofs.Filter.Compile
import Depot.Proofs.Record.Standard
import Depot.Proofs.Statement.Binding
import Depot.Record.Catalog
import Depot.Relational.Database

/-!
# Conditions and filters agree

A condition with its parameters can be said as a filter (`Condition.toFilter?`). The two are evaluated
by different code on different data: the predicate on the row of a record, which has all its columns
and nulls in them, the filter on metadata, decoded from what a codec made of the record, in which a
field may be missing. They come to the same on every record (`predicate_agrees_with_filter`).
-/

namespace Depot

/-! ### Conditions as filters -/

/-- The filter that compares a field in a way; a pattern has to be a text, and a choice an array. -/
def CompareOp.toFilter? (field : String) : CompareOp → Value → Option Filter
  | eq, v => some (.eq field v)
  | ne, v => some (.and [.present field, .ne field v])
  | gt, v => some (.range field .gt v)
  | ge, v => some (.range field .ge v)
  | lt, v => some (.range field .lt v)
  | le, v => some (.range field .le v)
  | like, .string pattern => some (.like field pattern)
  | isIn, .array values => some (.isIn field values)
  | like, _ | isIn, _ => none

namespace Condition

mutual

/-- The filter that says what a condition says, with its parameters filled in. -/
def toFilter? (params : Params) : Condition → Option Filter
  | compare field op param => (params.get? param).bind (op.toFilter? field)
  | isNull field => some (.not (.present field))
  | isNotNull field => some (.present field)
  | all conditions => (toFilters? params conditions).map .and
  | any conditions => (toFilters? params conditions).map .or

def toFilters? (params : Params) : List Condition → Option (List Filter)
  | [] => some []
  | c :: rest => do
    let first ← toFilter? params c
    let others ← toFilters? params rest
    return first :: others

end

end Condition

/-! ### One comparison -/

/-- A field is looked up if what it holds is not null. -/
theorem Test.lookup?_eq (v : Value) (field : String) :
    lookup? v field = if (v.content field).isNull then none else some (v.content field) := by
  rw [lookup?, Value.content]
  cases v.field? field <;> rfl

theorem Test.isSome_lookup? (v : Value) (field : String) :
    (lookup? v field).isSome = !(v.content field).isNull := by
  rw [lookup?_eq]
  split <;> simp_all

namespace CompareOp

variable {op : CompareOp} {field : String} {value : Value} {f : Filter}

/-- No comparison holds of null, nor does the filter of one. -/
theorem test_of_null (translated : op.toFilter? field value = some f) {v : Value}
    (unfound : Test.lookup? v field = none) : f.test v = false := by
  rw [toFilter?.eq_def] at translated
  split at translated <;> cases translated <;>
    simp [Filter.test, Filter.tests, Test.isEqual, Test.isPresent, Test.negate, Test.all, Test.isWithin,
      Test.isLike, Test.isAmong, unfound]

/-- On what is not null a comparison and its filter come to the same. -/
theorem test_of_content (translated : op.toFilter? field value = some f) {v cell : Value}
    (found : Test.lookup? v field = some cell) : f.test v = op.holds cell value := by
  cases op with
  | eq =>
      cases translated
      simp [Filter.test, Test.isEqual, found, holds]
  | ne =>
      cases translated
      simp [Filter.test, Filter.tests, Test.all, Test.isPresent, Test.negate, Test.isEqual, found, holds]
  | gt | ge | lt | le =>
      cases translated
      simp only [Filter.test, Test.isWithin, found, holds]
      cases cell.compare? value with
      | none => rfl
      | some order => cases order <;> rfl
  | like =>
      cases value with
      | string pattern =>
          cases translated
          simp only [Filter.test, Test.isLike, found, holds, Option.bind_some]
          cases cell.asString? <;> rfl
      | _ => cases translated
  | isIn =>
      cases value with
      | array values =>
          cases translated
          simp [Filter.test, Test.isAmong, found, holds]
      | _ => cases translated

end CompareOp

/-! ### Conditions -/

/-- A comparison with an accepted value can be said as a filter. -/
theorem CompareOp.exists_toFilter? {op : CompareOp} {value : Value} (accepts : op.accepts value = true)
    (field : String) : ∃ f, op.toFilter? field value = some f := by
  cases op with
  | like | isIn => cases value <;> first | exact ⟨_, rfl⟩ | cases accepts
  | _ => exact ⟨_, rfl⟩

namespace Condition

variable {spec : Spec} {params : Params} {v : Value} {row : Row}

mutual

/-- A condition that is bound can be said as a filter, and both come to the same. -/
theorem holds_eq_test (same : RowOf spec v row) : ∀ (c : Condition) {p : Predicate},
    c.bind spec params = .ok p →
      ∃ f, c.toFilter? params = some f ∧ p.holds row = f.test v
  | compare field op param, p, h => by
      rw [bind] at h
      simp only [Fallible.bind_eq_ok_iff] at h
      obtain ⟨column, known, value, given, h⟩ := h
      split at h
      · next accepts =>
          cases h
          obtain ⟨f, mem, rfl, rfl⟩ := Spec.columnOf_eq_ok known
          obtain ⟨filter, translated⟩ := CompareOp.exists_toFilter? accepts f.name
          refine ⟨filter, ?_, ?_⟩
          · rw [toFilter?, Params.value_eq_ok given, Option.bind_some, translated]
          · have found := Test.lookup?_eq v f.name
            rw [Predicate.holds, same f mem]
            cases null : (v.content f.name).isNull with
            | true =>
                rw [null, if_pos rfl] at found
                rw [CompareOp.test_of_null translated found]
                rfl
            | false =>
                rw [null, if_neg Bool.false_ne_true] at found
                rw [CompareOp.test_of_content translated found]
                rfl
      · cases h
  | isNull field, p, h => by
      rw [bind, Fallible.bind_eq_ok_iff] at h
      obtain ⟨column, known, h⟩ := h
      cases h
      obtain ⟨f, mem, rfl, rfl⟩ := Spec.columnOf_eq_ok known
      refine ⟨_, rfl, ?_⟩
      rw [Predicate.holds, same f mem]
      show _ = !(Test.lookup? v f.name).isSome
      rw [Test.isSome_lookup?, Bool.not_not]
  | isNotNull field, p, h => by
      rw [bind, Fallible.bind_eq_ok_iff] at h
      obtain ⟨column, known, h⟩ := h
      cases h
      obtain ⟨f, mem, rfl, rfl⟩ := Spec.columnOf_eq_ok known
      refine ⟨_, rfl, ?_⟩
      rw [Predicate.holds, same f mem]
      exact (Test.isSome_lookup? v f.name).symm
  | all conditions, p, h => by
      rw [bind, Fallible.bind_eq_ok_iff] at h
      obtain ⟨ps, bound, h⟩ := h
      cases h
      obtain ⟨fs, translated, agree, _⟩ := holdAll_eq_tests same conditions bound
      refine ⟨.and fs, ?_, ?_⟩
      · rw [toFilter?, translated, Option.map_some]
      · rw [Predicate.holds, agree, Filter.test, Test.all]
  | any conditions, p, h => by
      rw [bind] at h
      split at h
      · cases h
      · rw [Fallible.bind_eq_ok_iff] at h
        obtain ⟨ps, bound, h⟩ := h
        cases h
        obtain ⟨fs, translated, _, agree⟩ := holdAll_eq_tests same conditions bound
        refine ⟨.or fs, ?_, ?_⟩
        · rw [toFilter?, translated, Option.map_some]
        · rw [Predicate.holds, agree, Filter.test, Test.any]

theorem holdAll_eq_tests (same : RowOf spec v row) : ∀ (cs : List Condition) {ps : List Predicate},
    bindAll spec params cs = .ok ps →
      ∃ fs, toFilters? params cs = some fs ∧
        Predicate.holdAll row ps = (Filter.tests fs).all (fun test => test v) ∧
        Predicate.holdAny row ps = (Filter.tests fs).any (fun test => test v)
  | [], ps, h => by
      cases h
      exact ⟨[], rfl, rfl, rfl⟩
  | c :: rest, ps, h => by
      rw [bindAll] at h
      simp only [Fallible.bind_eq_ok_iff] at h
      obtain ⟨first, boundFirst, others, boundOthers, h⟩ := h
      cases h
      obtain ⟨f, translated, agree⟩ := holds_eq_test same c boundFirst
      obtain ⟨fs, translated', all, any⟩ := holdAll_eq_tests same rest boundOthers
      refine ⟨f :: fs, ?_, ?_, ?_⟩
      · rw [toFilters?, translated, translated']
        rfl
      · rw [Predicate.holdAll, agree, all, Filter.tests, List.all_cons]
      · rw [Predicate.holdAny, agree, any, Filter.tests, List.any_cons]

end

end Condition

/-! ### Records, in a row and behind a codec -/

/-- **Conditions and filters agree.** For any spec, and whatever columns it names, take a record of
declared fields, written in the interchange form as records are, and a condition that can be bound with
its parameters. The record has a row, the condition can be said as a filter, and if every kind of clause
in the filter is offered, the filter is compiled into a test. With either standard codec, if it carries the
record, the bytes of the record are decoded, and the test holds on what comes out exactly if the predicate
holds on the row. It does not matter whether the filter would pass validation. -/
theorem predicate_agrees_with_filter {ρ σ : Type} (t : RecordTable ρ σ) (record : ρ) (c : Condition)
    (params : Params) (p : Predicate) (written : (t.model.toValue record).IsWritten)
    (declared : DeclaredBy t.spec (t.model.toValue record))
    (bound : c.bind t.spec params = .ok p) :
    ∃ row f, t.toRow record = .ok row ∧ c.toFilter? params = some f ∧
      ∀ support : FilterSupport, f.OfferedBy support →
        ∃ test, support.compile f = .ok test ∧
          ∀ standard : StandardCodec, standard.Carries (t.model.toValue record) →
            ∃ bytes metadata, standard.codec.encode (t.model.toValue record) = .ok bytes ∧
              standard.codec.decode bytes = .ok metadata ∧ p.holds row = test metadata := by
  obtain ⟨row, made, same⟩ := RecordTable.exists_toRow declared
  obtain ⟨f, translated, agree⟩ := Condition.holds_eq_test same c bound
  refine ⟨row, f, made, translated, fun support offered => ?_⟩
  refine ⟨f.test, FilterSupport.compile_eq_ok_iff.2 ⟨offered, rfl⟩, fun standard within => ?_⟩
  obtain ⟨bytes, encoded, decoded⟩ := standard.decode_encode written within
  exact ⟨bytes, _, encoded, decoded, agree⟩

/-- A table of orders, which keeps customers in a column of another name. -/
def orderTable : RecordTable (Dict Cell) Relational.Connection where
  model := Catalog.order
  table := {
    name := "orders"
    spec := {
      typeName := "Order"
      package := Catalog.package
      fields := Catalog.order.declaration.fields
      key := (FieldSpec.plain "id" .integer).asKey
      names_ne := by decide
      names_nodup := by decide
      columns_nodup := by decide
      keys_eq := rfl
      key_nullable := rfl } }
  executor := Relational.Connection.executor

/-- An order of whose note nothing is said. -/
def plainOrder : Dict Cell :=
  .ofList [("id", .int 7), ("customer", .text "acme"), ("total", .real (.ofInt 10)),
    ("status", .text "open"), ("note", .absent)]

/-- Orders of other customers that have no note or are worth something. -/
def othersOrders : Condition :=
  .all [.compare "customer" .ne "c", .any [.isNull "note", .compare "total" .ge "t"]]

theorem predicate_agrees_with_filter_order :
    let params := .ofList [("c", .string "globex"), ("t", .integer 10)]
    ∃ p row f, othersOrders.bind orderTable.spec params = .ok p ∧ p.holds row = true ∧
      orderTable.toRow plainOrder = .ok row ∧ othersOrders.toFilter? params = some f ∧
      f.validate = .ok () ∧
      ∀ support : FilterSupport, f.OfferedBy support →
        ∃ test, support.compile f = .ok test ∧
          ∀ standard : StandardCodec, standard.Carries (orderTable.model.toValue plainOrder) →
            ∃ bytes metadata,
              standard.codec.encode (orderTable.model.toValue plainOrder) = .ok bytes ∧
                standard.codec.decode bytes = .ok metadata ∧ p.holds row = test metadata := by
  intro params
  obtain ⟨row, f, made, translated, agree⟩ := predicate_agrees_with_filter orderTable plainOrder
    othersOrders params _ (Layout.isWritten_write plainOrder) ⟨_, rfl, by decide⟩ rfl
  cases made
  cases translated
  exact ⟨_, _, _, rfl, by decide, rfl, rfl, rfl, agree⟩

end Depot
