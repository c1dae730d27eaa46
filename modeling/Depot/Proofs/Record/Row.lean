import Depot.Proofs.Dict.Lookup
import Depot.Proofs.Fallible
import Depot.Relational.RecordTable

/-!
# Records as rows

A record is written as a map of its fields, under their names, and becomes a row with a cell for every
declared field, under its column. Since both names and columns are distinct, the cell of a column is
what the record holds in the field of that column (`RowOf`), even where the column of one field is the
name of another.
-/

namespace Depot

/-- What a value holds in a field, null for a missing one. -/
def Value.content (v : Value) (field : String) : Value := (v.field? field).getD .null

theorem Value.content_map (members : List (String × Value)) (field : String) :
    (map members).content field = (members.lookup field).getD .null := rfl

/-- The map of a record by the values of its declared fields. -/
def Spec.recordOf (spec : Spec) (content : FieldSpec → Value) : Value :=
  .ofDict (.ofList (spec.fields.map fun f => (f.name, content f)))

theorem Spec.names_recordOf (spec : Spec) (content : FieldSpec → Value) :
    (spec.fields.map fun f => (f.name, content f)).map Prod.fst = spec.fields.map FieldSpec.name := by
  rw [List.map_map]
  rfl

theorem Spec.field?_recordOf (spec : Spec) (content : FieldSpec → Value) (name : String) :
    (spec.recordOf content).field? name =
      (spec.fields.map fun f => (f.name, content f)).lookup name := by
  have nodup := spec.names_nodup
  rw [← spec.names_recordOf content] at nodup
  exact Dict.get?_ofList nodup name

theorem Spec.lookup_recordOf {spec : Spec} (content : FieldSpec → Value) {f : FieldSpec}
    (mem : f ∈ spec.fields) :
    (Dict.ofList (spec.fields.map fun f => (f.name, content f))).entries.lookup f.name =
      some (content f) := by
  have nodup := spec.names_nodup
  rw [← spec.names_recordOf content] at nodup
  exact (spec.field?_recordOf content f.name).trans
    (Entries.lookup_of_mem_of_nodup nodup (List.mem_map.2 ⟨f, mem, rfl⟩))

/-- The row says of every declared field what the value says of it. -/
def RowOf (spec : Spec) (v : Value) (row : Row) : Prop :=
  ∀ f ∈ spec.fields, Row.cell row f.column = v.content f.name

/-- The value is a map of declared fields. -/
def DeclaredBy (spec : Spec) (v : Value) : Prop :=
  ∃ members, v = .map members ∧ ∀ m ∈ members, spec.declares m.1 = true

theorem Atom.recordMembers_eq_ok_iff {spec : Spec} {v : Value} {members : List (String × Value)} :
    recordMembers spec v = .ok members ↔
      v = .map members ∧ ∀ m ∈ members, spec.declares m.1 = true := by
  cases v with
  | map own =>
      rw [recordMembers]
      cases undeclared : own.find? fun m => !spec.declares m.1 with
      | none =>
          have declared : ∀ m ∈ own, spec.declares m.1 = true := by
            simpa [List.find?_eq_none] using undeclared
          constructor
          · intro h
            cases h
            exact ⟨rfl, declared⟩
          · intro h
            cases h.1
            rfl
      | some m =>
          obtain ⟨name, held⟩ := m
          constructor
          · intro h
            cases h
          · intro h
            cases h.1
            have stray := List.find?_some undeclared
            have known := h.2 _ (List.mem_of_find?_eq_some undeclared)
            simp [known] at stray
  | _ => simp [recordMembers]

namespace RecordTable

variable {ρ σ : Type} {t : RecordTable ρ σ} {record : ρ} {row : Row}

/-- What members say, written into the columns of a table. -/
theorem rowOf_ofList (t : RecordTable ρ σ) (members : List (String × Value)) :
    RowOf t.spec (.map members)
      (.ofList (t.spec.fields.map fun f => (f.column, (members.lookup f.name).getD .null))) := by
  intro f mem
  have nodup : ((t.spec.fields.map fun f =>
      (f.column, (members.lookup f.name).getD .null)).map Prod.fst).Nodup := by
    rw [List.map_map]
    exact t.spec.columns_nodup
  rw [Row.cell, Dict.get?_ofList nodup,
    Entries.lookup_of_mem_of_nodup nodup (List.mem_map.2 ⟨f, mem, rfl⟩)]
  rfl

/-- The row of a record says what the record says, and only records of declared fields have one. -/
theorem of_toRow_eq_ok (made : t.toRow record = .ok row) :
    DeclaredBy t.spec (t.model.toValue record) ∧ RowOf t.spec (t.model.toValue record) row := by
  rw [toRow, Fallible.bind_eq_ok_iff] at made
  obtain ⟨members, passed, filled⟩ := made
  obtain ⟨whole, known⟩ := Atom.recordMembers_eq_ok_iff.1 passed
  cases filled
  rw [whole]
  exact ⟨⟨members, rfl, known⟩, t.rowOf_ofList members⟩

/-- A record of declared fields has a row. -/
theorem exists_toRow (declared : DeclaredBy t.spec (t.model.toValue record)) :
    ∃ row, t.toRow record = .ok row ∧ RowOf t.spec (t.model.toValue record) row := by
  obtain ⟨members, whole, known⟩ := declared
  rw [toRow, whole, Atom.recordMembers_eq_ok_iff.2 ⟨rfl, known⟩]
  exact ⟨_, rfl, t.rowOf_ofList members⟩

end RecordTable

end Depot
