import Depot.Proofs.Fallible
import Depot.Relational.Table

/-!
# Changes of a table

What a successful upsert, delete or update makes of a table, said once for each of them: which row
was written where, that it was normalized and checked against the table as it was by then, and that
the version counts the change.
-/

namespace Depot.Relational.Table

/-- The table with a row at a place, behind all others if no place is given. -/
def place (t : Table) (slot : Option Nat) (row : Row) : Table :=
  match slot with
  | some i => { t with rows := t.rows.set i row }
  | none => { t with rows := t.rows ++ [row] }

@[simp] theorem spec_place (t : Table) (slot : Option Nat) (row : Row) :
    (t.place slot row).spec = t.spec := by
  cases slot <;> rfl

@[simp] theorem version_place (t : Table) (slot : Option Nat) (row : Row) :
    (t.place slot row).version = t.version := by
  cases slot <;> rfl

/-- The table one version later. -/
def bump (t : Table) : Table := { t with version := t.version + 1 }

/-- An upsert writes the normalized row in place of the row with its key, or behind all others. -/
theorem upsert_eq_ok_iff {t after : Table} {row : Row} :
    t.upsert row = .ok after ↔
      ∃ normal, t.normalize row = .ok normal ∧
        let slot := t.position? (Row.cell normal t.keyColumn)
        t.checkRow normal slot = .ok () ∧ after = (t.place slot normal).bump := by
  simp only [upsert, Fallible.bind_eq_ok_iff]
  constructor
  · intro h
    obtain ⟨normal, normalized, _, checked, same⟩ := h
    cases same
    refine ⟨normal, normalized, checked, ?_⟩
    cases t.position? (Row.cell normal t.keyColumn) <;> rfl
  · intro h
    obtain ⟨normal, normalized, checked, rfl⟩ := h
    refine ⟨normal, normalized, (), checked, ?_⟩
    cases t.position? (Row.cell normal t.keyColumn) <;> rfl

theorem delete?_eq_some_iff {t after : Table} {key : Value} :
    t.delete? key = some after ↔
      ∃ i, t.position? key = some i ∧ after = ({ t with rows := t.rows.eraseIdx i } : Table).bump := by
  rw [delete?, Option.map_eq_some_iff]
  constructor
  · intro h
    obtain ⟨i, found, rfl⟩ := h
    exact ⟨i, found, rfl⟩
  · intro h
    obtain ⟨i, found, rfl⟩ := h
    exact ⟨i, found, rfl⟩

/-- One step of an update writes the normalized row back to its place. -/
theorem updateAt_eq_ok {assignments : List (String × Value)} {t after : Table} {i : Nat}
    (h : t.updateAt assignments i = .ok after) :
    after = t ∨ ∃ row normal, t.rows[i]? = some row ∧
      t.normalize (assign assignments row) = .ok normal ∧
      t.checkRow normal (some i) = .ok () ∧ after = t.place (some i) normal := by
  rw [updateAt] at h
  cases found : t.rows[i]? with
  | none =>
      rw [found] at h
      cases h
      exact .inl rfl
  | some row =>
      simp only [found, Fallible.bind_eq_ok_iff] at h
      obtain ⟨normal, normalized, _, checked, same⟩ := h
      cases same
      exact .inr ⟨row, normal, rfl, normalized, checked, rfl⟩

theorem version_updateAt {assignments : List (String × Value)} {t after : Table} {i : Nat}
    (h : t.updateAt assignments i = .ok after) : after.version = t.version := by
  rcases updateAt_eq_ok h with rfl | ⟨_, normal, _, _, _, rfl⟩
  · rfl
  · rw [version_place]

/-- An update walks over rows; if it meets none the table stays as it is, and otherwise the change is
counted once. -/
theorem update_eq_ok {t after : Table} {u : BoundUpdate} {n : Nat}
    (h : t.update u = .ok (n, after)) :
    ∃ (places : List Nat) (walked : Table), places.foldlM (updateAt u.assignments) t = .ok walked ∧
      n = places.length ∧ after = if n = 0 then walked else walked.bump := by
  simp only [update, Fallible.bind_eq_ok_iff] at h
  obtain ⟨walked, run, same⟩ := h
  cases same
  refine ⟨_, walked, run, rfl, ?_⟩
  simp only [List.isEmpty_iff, List.length_eq_zero_iff]
  rfl

/-- An update that meets no row leaves the table as it is; any other counts up its version. -/
theorem version_update {t after : Table} {u : BoundUpdate} {n : Nat}
    (h : t.update u = .ok (n, after)) :
    if n = 0 then after = t else after.version = t.version + 1 := by
  obtain ⟨places, walked, run, count, same⟩ := update_eq_ok h
  split
  · next none =>
      rw [count, List.length_eq_zero_iff] at none
      subst none
      cases run
      rw [same, if_pos (by simpa using count)]
  · next some =>
      have version : walked.version = t.version :=
        Fallible.foldlM_induction (P := fun w => w.version = t.version) rfl
          (fun _ _ _ kept step => (version_updateAt step).trans kept) run
      rw [same, if_neg some, bump, version]

/-! ### Failures -/

/-- Whether an error is one that a table finds in its rows or in a statement, and not one of a
store, a context or a hook. -/
def isFault : Error → Bool
  | .notFound _ | .duplicate _ | .constraint _ | .invalidQuery _ => true
  | _ => false

/-- Whether an error says that a row breaks a rule of its table. -/
def isBreach : Error → Bool
  | .duplicate _ | .constraint _ => true
  | _ => false

theorem isFault_of_isBreach {e : Error} (h : isBreach e = true) : isFault e = true := by
  cases e <;> first | rfl | cases h

theorem isBreach_of_normalize {t : Table} {row : Row} {e : Error} (h : t.normalize row = .error e) :
    isBreach e = true := by
  rw [normalize] at h
  split at h
  · cases h
    rfl
  · cases h

theorem isBreach_of_checkField {t : Table} {row : Row} {slot : Option Nat} {f : FieldSpec} {e : Error}
    (h : t.checkField row slot f = .error e) : isBreach e = true := by
  simp only [checkField] at h
  split at h
  · split at h <;> cases h
    rfl
  · split at h <;> cases h
    rfl

theorem isBreach_of_checkRow {t : Table} {row : Row} {slot : Option Nat} {e : Error}
    (h : t.checkRow row slot = .error e) : isBreach e = true := by
  obtain ⟨f, _, failed⟩ := Fallible.exists_of_forM_eq_error h
  exact isBreach_of_checkField failed

theorem isBreach_of_upsert {t : Table} {row : Row} {e : Error} (h : t.upsert row = .error e) :
    isBreach e = true := by
  simp only [upsert, Fallible.bind_eq_error_iff] at h
  rcases h with failed | ⟨normal, _, failed | ⟨_, _, failed⟩⟩
  · exact isBreach_of_normalize failed
  · exact isBreach_of_checkRow failed
  · cases failed

theorem isBreach_of_update {t : Table} {u : BoundUpdate} {e : Error} (h : t.update u = .error e) :
    isBreach e = true := by
  simp only [update, Fallible.bind_eq_error_iff] at h
  rcases h with failed | ⟨_, _, failed⟩
  · obtain ⟨t', i, _, failed⟩ := Fallible.exists_of_foldlM_eq_error failed
    rw [updateAt] at failed
    split at failed
    · cases failed
    · simp only [Fallible.bind_eq_error_iff] at failed
      rcases failed with failed | ⟨normal, _, failed | ⟨_, _, failed⟩⟩
      · exact isBreach_of_normalize failed
      · exact isBreach_of_checkRow failed
      · cases failed
  · cases failed

theorem isFault_of_upsert {t : Table} {row : Row} {e : Error} (h : t.upsert row = .error e) :
    isFault e = true := isFault_of_isBreach (isBreach_of_upsert h)

theorem isFault_of_update {t : Table} {u : BoundUpdate} {e : Error} (h : t.update u = .error e) :
    isFault e = true := isFault_of_isBreach (isBreach_of_update h)

theorem isFault_of_aggregate {t : Table} {a : BoundAggregate} {e : Error}
    (h : t.aggregate a = .error e) : isFault e = true := by
  simp only [aggregate] at h
  split at h
  · split at h <;> cases h
    rfl
  · split at h
    · cases h
    · rw [Fallible.bind_eq_error_iff] at h
      rcases h with failed | ⟨_, _, failed⟩
      · obtain ⟨v, _, failed⟩ := Fallible.exists_of_mapM_eq_error failed
        rw [numberOf] at failed
        split at failed <;> cases failed
        rfl
      · cases failed

end Depot.Relational.Table
