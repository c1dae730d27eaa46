import Depot.Proofs.Relational.Serializability

/-!
# Tables apart from their versions

No statement reads the version of a table. On two tables that hold the same an action has the same
answer, and it leaves two tables that hold the same (`Action.onTable_withVersion`,
`Action.onTable_of_content`).
-/

namespace Depot.Relational

namespace Table

/-- The table at another version. -/
def withVersion (t : Table) (version : Nat) : Table := { t with version }

/-- Two tables that hold the same differ in their versions at most. -/
theorem eq_withVersion_of_content {t t' : Table} (same : t'.content = t.content) :
    t' = t.withVersion t'.version := by
  obtain ⟨spec, rows⟩ := Prod.mk.inj same
  rw [withVersion, ← spec, ← rows]

variable {t : Table} (version : Nat)

@[simp] theorem rows_withVersion : (t.withVersion version).rows = t.rows := rfl

@[simp] theorem position?_withVersion (key : Value) :
    (t.withVersion version).position? key = t.position? key := rfl

theorem find?_withVersion (key : Value) : (t.withVersion version).find? key = t.find? key := rfl

theorem query_withVersion (q : BoundQuery) : (t.withVersion version).query q = t.query q := rfl

@[simp] theorem normalize_withVersion (row : Row) :
    (t.withVersion version).normalize row = t.normalize row := rfl

@[simp] theorem checkRow_withVersion (row : Row) (slot : Option Nat) :
    (t.withVersion version).checkRow row slot = t.checkRow row slot := rfl

@[simp] theorem keyColumn_withVersion : (t.withVersion version).keyColumn = t.keyColumn := rfl

theorem upsert_withVersion (row : Row) :
    (t.withVersion version).upsert row =
      (t.upsert row).map fun after => after.withVersion (version + 1) := by
  simp only [upsert, normalize_withVersion, keyColumn_withVersion, position?_withVersion,
    checkRow_withVersion]
  cases t.normalize row with
  | error e => rfl
  | ok normal =>
      dsimp only [bind, Except.bind]
      cases t.checkRow normal (t.position? (Row.cell normal t.keyColumn)) <;> rfl

theorem delete?_withVersion (key : Value) :
    (t.withVersion version).delete? key =
      (t.delete? key).map fun after => after.withVersion (version + 1) := by
  rw [delete?, delete?, Option.map_map]
  rfl

theorem updateAt_withVersion (assignments : List (String × Value)) (i : Nat) :
    updateAt assignments (t.withVersion version) i =
      (updateAt assignments t i).map fun after => after.withVersion version := by
  simp only [updateAt, rows_withVersion, normalize_withVersion, checkRow_withVersion]
  cases t.rows[i]? with
  | none => rfl
  | some row =>
      dsimp only
      cases t.normalize (assign assignments row) with
      | error e => rfl
      | ok normal =>
          dsimp only [bind, Except.bind]
          cases t.checkRow normal (some i) <;> rfl

theorem foldlM_updateAt_withVersion (assignments : List (String × Value)) (places : List Nat) :
    places.foldlM (updateAt assignments) (t.withVersion version) =
      (places.foldlM (updateAt assignments) t).map fun after => after.withVersion version := by
  induction places generalizing t with
  | nil => rfl
  | cons i rest ih =>
      rw [List.foldlM_cons, List.foldlM_cons, updateAt_withVersion]
      cases updateAt assignments t i with
      | error e => rfl
      | ok after => exact ih

theorem update_withVersion (u : BoundUpdate) :
    (t.withVersion version).update u =
      (t.update u).map fun r =>
        (r.1, r.2.withVersion (if r.1 = 0 then version else version + 1)) := by
  simp only [update, rows_withVersion, foldlM_updateAt_withVersion]
  cases ((t.rows.zipIdx.filter fun e => u.predicate.holds e.1).map Prod.snd).foldlM
      (updateAt u.assignments) t with
  | error e => rfl
  | ok walked =>
      simp only [bind, Except.bind, pure, Except.pure, Except.map, List.isEmpty_iff,
        ← List.length_eq_zero_iff]
      split <;> rfl

end Table

namespace Action

/-- An action does the same to a table at another version. -/
theorem onTable_withVersion (action : Action) (name : String) (t : Table) (version : Nat) :
    ∃ version', action.onTable name (t.withVersion version) =
      ((action.onTable name t).1, (action.onTable name t).2.withVersion version') := by
  cases action with
  | get key =>
      refine ⟨version, ?_⟩
      rw [onTable, onTable, Table.find?_withVersion]
      cases t.find? key <;> rfl
  | select q =>
      refine ⟨version, ?_⟩
      rw [onTable, onTable, Table.query_withVersion]
      cases t.query { q with limit := some 1 } <;> rfl
  | upsert row =>
      rw [onTable, onTable, Table.upsert_withVersion]
      cases t.upsert row with
      | error e => exact ⟨version, rfl⟩
      | ok after => exact ⟨version + 1, rfl⟩
  | delete key =>
      rw [onTable, onTable, Table.delete?_withVersion]
      cases t.delete? key with
      | none => exact ⟨version, rfl⟩
      | some after => exact ⟨version + 1, rfl⟩
  | update u =>
      rw [onTable, onTable, Table.update_withVersion]
      cases t.update u with
      | error e => exact ⟨version, rfl⟩
      | ok r => exact ⟨_, rfl⟩
  | _ => exact ⟨version, rfl⟩

/-- On tables that hold the same an action answers the same. -/
theorem onTable_of_content {t t' : Table} (same : t'.content = t.content) (action : Action)
    (name : String) :
    (action.onTable name t').1 = (action.onTable name t).1 ∧
      (action.onTable name t').2.content = (action.onTable name t).2.content := by
  obtain ⟨version', whole⟩ := action.onTable_withVersion name t t'.version
  rw [Table.eq_withVersion_of_content same, whole]
  exact ⟨rfl, rfl⟩

end Action

end Depot.Relational
