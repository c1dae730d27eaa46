import Depot.Proofs.Record.Row
import Depot.Record.Catalog
import Depot.Relational.Database
import Mathlib.Data.List.Nodup

/-!
# What bound statements mean

A statement is written with the names of fields and parameters, and evaluated with columns and values
in their place. Binding replaces the one by the other. It does so exactly if everything named is there
and fits (`Condition.Bindable`), and what is bound says of the row of a record what was written of the
record (`Predicate.Renders`): evaluated on the row, the predicate comes to what the condition comes to
on the fields of the record themselves (`Condition.holdsOf`). Fields are looked up by name and cells by
column, so it does not matter if the columns of a spec are its names in another order.
-/

namespace Depot

/-! ### Names and parameters -/

theorem Spec.columnOf_eq_ok {spec : Spec} {field column : String}
    (h : spec.columnOf field = .ok column) :
    ∃ f ∈ spec.fields, f.name = field ∧ f.column = column := by
  rw [columnOf] at h
  cases found : spec.field? field with
  | none =>
      rw [found] at h
      cases h
  | some f =>
      rw [found] at h
      cases h
      obtain ⟨name, mem⟩ := Spec.name_of_field? found
      exact ⟨f, mem, name, rfl⟩

theorem Params.value_eq_ok {params : Params} {param : String} {value : Value}
    (h : Params.value params param = .ok value) : params.get? param = some value := by
  rw [Params.value] at h
  cases found : params.get? param with
  | none =>
      rw [found] at h
      cases h
  | some v =>
      rw [found] at h
      cases h
      rfl

/-- A field has a column exactly if it is declared. -/
theorem Spec.exists_columnOf_iff {spec : Spec} {field : String} :
    (∃ column, spec.columnOf field = .ok column) ↔ spec.declares field = true := by
  rw [columnOf, declares]
  cases spec.field? field <;> simp

theorem Params.exists_value_iff {params : Params} {param : String} :
    (∃ value, Params.value params param = .ok value) ↔ params.contains param = true := by
  rw [Params.value, Dict.contains]
  cases params.get? param <;> simp

/-- Membership is asked of an array and likeness to a text; every other comparison takes any value. -/
theorem CompareOp.accepts_eq_true_iff {op : CompareOp} {value : Value} :
    op.accepts value = true ↔
      (op = .isIn → ∃ items, value = .array items) ∧ (op = .like → ∃ text, value = .string text) := by
  cases op <;> cases value <;> simp [accepts]

/-! ### Conditions as they are written -/

namespace Condition

mutual

/-- Everything the condition names is there and fits: its fields are declared, its parameters given, an
array for a membership and a text for a likeness, and no choice in it is empty. -/
def Bindable (spec : Spec) (params : Params) : Condition → Prop
  | compare field op param =>
    spec.declares field = true ∧
      ∃ value, params.get? param = some value ∧
        (op = .isIn → ∃ items, value = .array items) ∧ (op = .like → ∃ text, value = .string text)
  | isNull field => spec.declares field = true
  | isNotNull field => spec.declares field = true
  | all conditions => BindableAll spec params conditions
  | any conditions => conditions ≠ [] ∧ BindableAll spec params conditions

def BindableAll (spec : Spec) (params : Params) : List Condition → Prop
  | [] => True
  | c :: rest => Bindable spec params c ∧ BindableAll spec params rest

end

mutual

/-- Whether a condition holds of a value, each field being what the value holds in it and each
parameter what is given for it. Null satisfies no comparison. -/
def holdsOf (params : Params) (v : Value) : Condition → Bool
  | compare field op param =>
    match params.get? param with
    | some value => !(v.content field).isNull && op.holds (v.content field) value
    | none => false
  | isNull field => (v.content field).isNull
  | isNotNull field => !(v.content field).isNull
  | all conditions => holdAllOf params v conditions
  | any conditions => holdAnyOf params v conditions

def holdAllOf (params : Params) (v : Value) : List Condition → Bool
  | [] => true
  | c :: rest => holdsOf params v c && holdAllOf params v rest

def holdAnyOf (params : Params) (v : Value) : List Condition → Bool
  | [] => false
  | c :: rest => holdsOf params v c || holdAnyOf params v rest

end

variable {spec : Spec} {params : Params} {v : Value} {row : Row}

/-! ### When binding succeeds -/

theorem exists_bind_compare_iff {field : String} {op : CompareOp} {param : String} :
    (∃ p, (compare field op param).bind spec params = .ok p) ↔
      (compare field op param).Bindable spec params := by
  rw [bind, Bindable]
  simp only [Fallible.bind_eq_ok_iff]
  constructor
  · intro h
    obtain ⟨p, column, known, value, given, made⟩ := h
    refine ⟨Spec.exists_columnOf_iff.1 ⟨column, known⟩, value, Params.value_eq_ok given, ?_⟩
    split at made
    · next accepts => exact CompareOp.accepts_eq_true_iff.1 accepts
    · cases made
  · intro h
    obtain ⟨declared, value, given, fits⟩ := h
    obtain ⟨column, known⟩ := Spec.exists_columnOf_iff.2 declared
    refine ⟨.compare column op value, column, known, value, by rw [Params.value, given], ?_⟩
    rw [if_pos (CompareOp.accepts_eq_true_iff.2 fits)]
    rfl

mutual

/-- Binding succeeds exactly if everything that is named is there and fits. -/
theorem exists_bind_iff : ∀ c : Condition,
    (∃ p, c.bind spec params = .ok p) ↔ c.Bindable spec params
  | compare _ _ _ => exists_bind_compare_iff
  | isNull field => by
      rw [bind, Bindable, ← Spec.exists_columnOf_iff]
      simp only [Fallible.bind_eq_ok_iff]
      exact ⟨fun ⟨_, column, known, _⟩ => ⟨column, known⟩, fun ⟨column, known⟩ => ⟨_, column, known, rfl⟩⟩
  | isNotNull field => by
      rw [bind, Bindable, ← Spec.exists_columnOf_iff]
      simp only [Fallible.bind_eq_ok_iff]
      exact ⟨fun ⟨_, column, known, _⟩ => ⟨column, known⟩, fun ⟨column, known⟩ => ⟨_, column, known, rfl⟩⟩
  | all conditions => by
      rw [bind, Bindable, ← exists_bindAll_iff conditions]
      simp only [Fallible.bind_eq_ok_iff]
      exact ⟨fun ⟨_, ps, bound, _⟩ => ⟨ps, bound⟩, fun ⟨ps, bound⟩ => ⟨_, ps, bound, rfl⟩⟩
  | any conditions => by
      rw [bind, Bindable, ← exists_bindAll_iff conditions]
      cases conditions with
      | nil => simp
      | cons c rest =>
          simp only [Fallible.bind_eq_ok_iff, List.isEmpty_cons, Bool.false_eq_true, if_false]
          constructor
          · intro h
            obtain ⟨_, ps, bound, _⟩ := h
            exact ⟨List.cons_ne_nil c rest, ps, bound⟩
          · intro h
            obtain ⟨_, ps, bound⟩ := h
            exact ⟨_, ps, bound, rfl⟩

theorem exists_bindAll_iff : ∀ cs : List Condition,
    (∃ ps, bindAll spec params cs = .ok ps) ↔ BindableAll spec params cs
  | [] => ⟨fun _ => trivial, fun _ => ⟨[], rfl⟩⟩
  | c :: rest => by
      rw [bindAll, BindableAll, ← exists_bind_iff c, ← exists_bindAll_iff rest]
      simp only [Fallible.bind_eq_ok_iff]
      constructor
      · intro h
        obtain ⟨_, p, first, ps, others, _⟩ := h
        exact ⟨⟨p, first⟩, ps, others⟩
      · intro h
        obtain ⟨⟨p, first⟩, ps, others⟩ := h
        exact ⟨_, p, first, ps, others, rfl⟩

end

/-! ### What is bound -/

mutual

/-- On a row that says what a value says, the bound condition comes to what the condition comes to on
the value. -/
theorem holds_of_bind (same : RowOf spec v row) : ∀ (c : Condition) {p : Predicate},
    c.bind spec params = .ok p → p.holds row = c.holdsOf params v
  | compare field op param, p, h => by
      rw [bind] at h
      simp only [Fallible.bind_eq_ok_iff] at h
      obtain ⟨column, known, value, given, h⟩ := h
      split at h
      · cases h
        obtain ⟨f, mem, rfl, rfl⟩ := Spec.columnOf_eq_ok known
        rw [Predicate.holds, same f mem, holdsOf, Params.value_eq_ok given]
      · cases h
  | isNull field, p, h => by
      rw [bind, Fallible.bind_eq_ok_iff] at h
      obtain ⟨column, known, h⟩ := h
      cases h
      obtain ⟨f, mem, rfl, rfl⟩ := Spec.columnOf_eq_ok known
      rw [Predicate.holds, same f mem, holdsOf]
  | isNotNull field, p, h => by
      rw [bind, Fallible.bind_eq_ok_iff] at h
      obtain ⟨column, known, h⟩ := h
      cases h
      obtain ⟨f, mem, rfl, rfl⟩ := Spec.columnOf_eq_ok known
      rw [Predicate.holds, same f mem, holdsOf]
  | all conditions, p, h => by
      rw [bind, Fallible.bind_eq_ok_iff] at h
      obtain ⟨ps, bound, h⟩ := h
      cases h
      rw [Predicate.holds, holdsOf, (holdAll_of_bindAll same conditions bound).1]
  | any conditions, p, h => by
      rw [bind] at h
      split at h
      · cases h
      · rw [Fallible.bind_eq_ok_iff] at h
        obtain ⟨ps, bound, h⟩ := h
        cases h
        rw [Predicate.holds, holdsOf, (holdAll_of_bindAll same conditions bound).2]

theorem holdAll_of_bindAll (same : RowOf spec v row) : ∀ (cs : List Condition) {ps : List Predicate},
    bindAll spec params cs = .ok ps →
      Predicate.holdAll row ps = holdAllOf params v cs ∧ Predicate.holdAny row ps = holdAnyOf params v cs
  | [], ps, h => by
      cases h
      exact ⟨rfl, rfl⟩
  | c :: rest, ps, h => by
      rw [bindAll] at h
      simp only [Fallible.bind_eq_ok_iff] at h
      obtain ⟨first, boundFirst, others, boundOthers, h⟩ := h
      cases h
      have agree := holds_of_bind same c boundFirst
      obtain ⟨every, some⟩ := holdAll_of_bindAll same rest boundOthers
      constructor
      · rw [Predicate.holdAll, holdAllOf, agree, every]
      · rw [Predicate.holdAny, holdAnyOf, agree, some]

end

/-- Conditions that all have to hold are bound as one. -/
theorem bindGroup_eq_bind (spec : Spec) (params : Params) (cs : List Condition) :
    bindGroup spec params cs = (all cs).bind spec params := by
  rw [bindGroup, bind]

end Condition

/-! ### Statements -/

section Statements

variable {spec : Spec} {params : Params}

/-- Fields to order by have columns exactly if they are declared. -/
theorem Query.exists_order_iff {orderBy : List (String × Direction)} :
    (∃ order, (orderBy.mapM fun o => do return (← spec.columnOf o.1, o.2)) = .ok order) ↔
      ∀ o ∈ orderBy, spec.declares o.1 = true := by
  rw [Fallible.exists_mapM_iff]
  simp only [← Spec.exists_columnOf_iff, Fallible.bind_eq_ok_iff]
  constructor
  · intro h o mem
    obtain ⟨_, column, known, _⟩ := h o mem
    exact ⟨column, known⟩
  · intro h o mem
    obtain ⟨column, known⟩ := h o mem
    exact ⟨_, column, known, rfl⟩

/-- A query is bound as its conditions are, all of them together, and its order. -/
theorem Query.exists_bind_iff {q : Query} :
    (∃ b, q.bind spec params = .ok b) ↔
      (∀ o ∈ q.orderBy, spec.declares o.1 = true) ∧
        (Condition.all q.conditions).Bindable spec params := by
  rw [← Condition.exists_bind_iff, ← Query.exists_order_iff, bind]
  simp only [Fallible.bind_eq_ok_iff, Condition.bindGroup_eq_bind]
  constructor
  · intro h
    obtain ⟨_, order, ordered, p, bound, _⟩ := h
    exact ⟨⟨order, ordered⟩, p, bound⟩
  · intro h
    obtain ⟨⟨order, ordered⟩, p, bound⟩ := h
    exact ⟨_, order, ordered, p, bound, rfl⟩

theorem Query.predicate_of_bind {q : Query} {b : BoundQuery} (h : q.bind spec params = .ok b) :
    (Condition.all q.conditions).bind spec params = .ok b.predicate := by
  rw [bind] at h
  simp only [Fallible.bind_eq_ok_iff, Condition.bindGroup_eq_bind] at h
  obtain ⟨_, _, _, bound, made⟩ := h
  cases made
  exact bound

namespace Update

theorem bindAssignment_eq_ok_iff {assignment : String × String} {bound : String × Value} :
    bindAssignment spec params assignment = .ok bound ↔
      assignment.1 ≠ spec.key.name ∧ spec.columnOf assignment.1 = .ok bound.1 ∧
        Params.value params assignment.2 = .ok bound.2 := by
  obtain ⟨field, param⟩ := assignment
  obtain ⟨column, value⟩ := bound
  rw [bindAssignment]
  dsimp only
  split
  · next key => simp [key]
  · next free =>
      simp only [Fallible.bind_eq_ok_iff]
      constructor
      · intro h
        obtain ⟨_, given, _, known, made⟩ := h
        cases made
        exact ⟨free, known, given⟩
      · intro h
        exact ⟨value, h.2.2, column, h.2.1, rfl⟩

/-- An update is bound if it assigns something, what it assigns to are declared fields other than the
key, from parameters that are given, and its conditions are bound. -/
theorem exists_bind_iff {u : Update} :
    (∃ b, u.bind spec params = .ok b) ↔
      u.assignments ≠ [] ∧
        (∀ a ∈ u.assignments, a.1 ≠ spec.key.name ∧ spec.declares a.1 = true ∧
          params.contains a.2 = true) ∧
        (Condition.all u.conditions).Bindable spec params := by
  have assigned (a : String × String) :
      (∃ bound, bindAssignment spec params a = .ok bound) ↔
        a.1 ≠ spec.key.name ∧ spec.declares a.1 = true ∧ params.contains a.2 = true := by
    rw [← Spec.exists_columnOf_iff, ← Params.exists_value_iff]
    simp only [bindAssignment_eq_ok_iff]
    constructor
    · intro h
      obtain ⟨bound, free, known, given⟩ := h
      exact ⟨free, ⟨_, known⟩, _, given⟩
    · intro h
      obtain ⟨free, ⟨column, known⟩, value, given⟩ := h
      exact ⟨(column, value), free, known, given⟩
  rw [← Condition.exists_bind_iff, bind]
  simp only [← assigned]
  rw [← Fallible.exists_mapM_iff]
  cases empty : u.assignments with
  | nil => simp
  | cons a rest =>
      simp only [List.isEmpty_cons, Bool.false_eq_true, if_false, Fallible.bind_eq_ok_iff,
        Condition.bindGroup_eq_bind]
      constructor
      · intro h
        obtain ⟨_, assignments, made, p, bound, _⟩ := h
        exact ⟨List.cons_ne_nil a rest, ⟨assignments, made⟩, p, bound⟩
      · intro h
        obtain ⟨_, ⟨assignments, made⟩, p, bound⟩ := h
        exact ⟨_, assignments, made, p, bound, rfl⟩

theorem parts_of_bind {u : Update} {b : BoundUpdate} (h : u.bind spec params = .ok b) :
    u.assignments.mapM (bindAssignment spec params) = .ok b.assignments ∧
      (Condition.all u.conditions).bind spec params = .ok b.predicate := by
  rw [bind] at h
  split at h
  · cases h
  · simp only [Fallible.bind_eq_ok_iff, Condition.bindGroup_eq_bind] at h
    obtain ⟨_, made, _, bound, whole⟩ := h
    cases whole
    exact ⟨made, bound⟩

/-- An update assigns to declared columns. -/
theorem mem_columns_of_bind {u : Update} {b : BoundUpdate} (h : u.bind spec params = .ok b) :
    ∀ a ∈ b.assignments, a.1 ∈ spec.columns := by
  intro a mem
  obtain ⟨assignment, _, bound⟩ := Fallible.exists_of_mem_of_mapM (parts_of_bind h).1 mem
  obtain ⟨_, known, _⟩ := bindAssignment_eq_ok_iff.1 bound
  obtain ⟨f, declared, _, column⟩ := Spec.columnOf_eq_ok known
  exact column ▸ List.mem_map_of_mem declared

/-- No field but the key has the key's column, so an update never assigns to it. -/
theorem ne_keyColumn_of_bind {u : Update} {b : BoundUpdate} (h : u.bind spec params = .ok b) :
    ∀ a ∈ b.assignments, a.1 ≠ spec.key.column := by
  intro a mem keyed
  obtain ⟨assignment, _, bound⟩ := Fallible.exists_of_mem_of_mapM (parts_of_bind h).1 mem
  obtain ⟨free, known, _⟩ := bindAssignment_eq_ok_iff.1 bound
  obtain ⟨f, declared, name, column⟩ := Spec.columnOf_eq_ok known
  have same : f = spec.key :=
    List.inj_on_of_nodup_map spec.columns_nodup declared spec.key_mem (column.trans keyed)
  exact free (by rw [← name, same])

end Update

namespace Aggregate

/-- The aggregate works on a declared field, a numeric one unless it counts; a count may name none. -/
def Computable (spec : Spec) (a : Aggregate) : Prop :=
  match a.field with
  | none => a.func = .count
  | some field => ∃ f, spec.field? field = some f ∧ (a.func = .count ∨ f.kind.isNumeric = true)

theorem exists_bindColumn_iff {a : Aggregate} :
    (∃ column, a.bindColumn spec = .ok column) ↔ a.Computable spec := by
  rw [bindColumn, Computable]
  cases a.field with
  | none => by_cases counts : a.func = .count <;> simp [counts]
  | some field =>
      dsimp only
      cases spec.field? field with
      | none => simp
      | some f => by_cases counts : a.func = .count <;> cases numeric : f.kind.isNumeric <;> simp [*]

/-- An aggregate is bound as its conditions are, if it can be computed. -/
theorem exists_bind_iff {a : Aggregate} :
    (∃ b, a.bind spec params = .ok b) ↔
      a.Computable spec ∧ (Condition.all a.conditions).Bindable spec params := by
  rw [← Condition.exists_bind_iff, ← exists_bindColumn_iff, bind]
  simp only [Fallible.bind_eq_ok_iff, Condition.bindGroup_eq_bind]
  constructor
  · intro h
    obtain ⟨_, column, known, p, bound, _⟩ := h
    exact ⟨⟨column, known⟩, p, bound⟩
  · intro h
    obtain ⟨⟨column, known⟩, p, bound⟩ := h
    exact ⟨_, column, known, p, bound, rfl⟩

theorem predicate_of_bind {a : Aggregate} {b : BoundAggregate} (h : a.bind spec params = .ok b) :
    (Condition.all a.conditions).bind spec params = .ok b.predicate := by
  rw [bind] at h
  simp only [Fallible.bind_eq_ok_iff, Condition.bindGroup_eq_bind] at h
  obtain ⟨_, _, _, bound, made⟩ := h
  cases made
  exact bound

end Aggregate

end Statements

/-! ### Meaning -/

section Meaning

variable {ρ σ : Type}

/-- On the row of any record the predicate comes to what the condition comes to on the record. -/
def Predicate.Renders (t : RecordTable ρ σ) (params : Params) (p : Predicate) (c : Condition) : Prop :=
  ∀ record row, t.toRow record = .ok row → p.holds row = c.holdsOf params (t.model.toValue record)

theorem Predicate.renders_of_bind {t : RecordTable ρ σ} {params : Params} {c : Condition} {p : Predicate}
    (bound : c.bind t.spec params = .ok p) : p.Renders t params c := fun _ _ made =>
  Condition.holds_of_bind (RecordTable.of_toRow_eq_ok made).2 c bound

/-- **Binding preserves meaning.** For any table of records, whatever columns its spec names, and any
parameters. A condition is bound exactly if every field in it is declared, every parameter given, one
for a membership an array and one for a likeness a text, and no choice at any depth is empty; and then,
on the row of any record, the predicate comes to what the condition comes to on the record's own fields.
The same holds of the conditions of a query, an update and an aggregate, which need besides that the
fields to order by are declared, that something and never the key is assigned, from parameters that are
given, and that the field to compute with is declared and fits. No bound update assigns to the column
of the key. -/
theorem bind_preserves_meaning (t : RecordTable ρ σ) (params : Params) :
    (∀ c : Condition,
      ((∃ p, c.bind t.spec params = .ok p) ↔ c.Bindable t.spec params) ∧
        ∀ p, c.bind t.spec params = .ok p → p.Renders t params c) ∧
    (∀ q : Query,
      ((∃ b, q.bind t.spec params = .ok b) ↔
        (∀ o ∈ q.orderBy, t.spec.declares o.1 = true) ∧
          (Condition.all q.conditions).Bindable t.spec params) ∧
        ∀ b, q.bind t.spec params = .ok b → b.predicate.Renders t params (.all q.conditions)) ∧
    (∀ u : Update,
      ((∃ b, u.bind t.spec params = .ok b) ↔
        u.assignments ≠ [] ∧
          (∀ a ∈ u.assignments, a.1 ≠ t.spec.key.name ∧ t.spec.declares a.1 = true ∧
            params.contains a.2 = true) ∧
          (Condition.all u.conditions).Bindable t.spec params) ∧
        ∀ b, u.bind t.spec params = .ok b →
          b.predicate.Renders t params (.all u.conditions) ∧
            ∀ a ∈ b.assignments, a.1 ≠ t.spec.key.column) ∧
    (∀ a : Aggregate,
      ((∃ b, a.bind t.spec params = .ok b) ↔
        a.Computable t.spec ∧ (Condition.all a.conditions).Bindable t.spec params) ∧
        ∀ b, a.bind t.spec params = .ok b → b.predicate.Renders t params (.all a.conditions)) := by
  refine ⟨fun c => ⟨Condition.exists_bind_iff c, fun p bound => ?_⟩,
    fun q => ⟨Query.exists_bind_iff, fun b bound => ?_⟩,
    fun u => ⟨Update.exists_bind_iff, fun b bound => ⟨?_, Update.ne_keyColumn_of_bind bound⟩⟩,
    fun a => ⟨Aggregate.exists_bind_iff, fun b bound => ?_⟩⟩
  · exact Predicate.renders_of_bind bound
  · exact Predicate.renders_of_bind (Query.predicate_of_bind bound)
  · exact Predicate.renders_of_bind (Update.parts_of_bind bound).2
  · exact Predicate.renders_of_bind (Aggregate.predicate_of_bind bound)

end Meaning

/-- A table of pairs, which keeps each of its two numbers in the column named after the other one. -/
def swappedTable : RecordTable (Dict Cell) Relational.Connection where
  model := Layout.model [("id", .text), ("low", .int), ("high", .int)]
    (Catalog.declare "Pair"
      [Catalog.idKey, (FieldSpec.plain "low" .integer).inColumn "high",
        (FieldSpec.plain "high" .integer).inColumn "low"]) [] {}
  table := {
    name := "pairs"
    spec := {
      typeName := "Pair"
      package := Catalog.package
      fields := [Catalog.idKey, (FieldSpec.plain "low" .integer).inColumn "high",
        (FieldSpec.plain "high" .integer).inColumn "low"]
      key := Catalog.idKey
      names_ne := by decide
      names_nodup := by decide
      columns_nodup := by decide
      keys_eq := rfl
      key_nullable := rfl } }
  executor := Relational.Connection.executor

/-- Pairs whose low number is below a bound and whose high number is one of some. -/
def lowUnderBound : Condition :=
  .all [.compare "low" .lt "bound", .any [.isNull "high", .compare "high" .isIn "some"]]

theorem bind_preserves_meaning_swapped :
    let params := .ofList [("bound", .integer 2), ("some", .array [.integer 7, .integer 8])]
    let pair := .ofList [("id", .text "p"), ("low", .int 1), ("high", .int 8)]
    ∃ p row, lowUnderBound.bind swappedTable.spec params = .ok p ∧
      swappedTable.toRow pair = .ok row ∧ lowUnderBound.Bindable swappedTable.spec params ∧
      p.holds row = lowUnderBound.holdsOf params (swappedTable.model.toValue pair) ∧
      p.holds row = true ∧
      ∃ b, (Update.mk [("high", "bound")] [lowUnderBound]).bind swappedTable.spec params = .ok b ∧
        (∀ a ∈ b.assignments, a.1 ≠ swappedTable.spec.key.column) ∧
        b.predicate.holds row = (Condition.all [lowUnderBound]).holdsOf params
          (swappedTable.model.toValue pair) := by
  intro params pair
  obtain ⟨conditions, -, updates, -⟩ := bind_preserves_meaning swappedTable params
  obtain ⟨bindable, agree⟩ := conditions lowUnderBound
  obtain ⟨update, spared⟩ := (updates ⟨[("high", "bound")], [lowUnderBound]⟩).2 _ rfl
  exact ⟨_, _, rfl, rfl, bindable.1 ⟨_, rfl⟩, agree _ rfl pair _ rfl, by decide, _, rfl, spared,
    update pair _ rfl⟩

end Depot
