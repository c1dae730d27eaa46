import Depot.Proofs.Relational.Snapshot
import Depot.Proofs.Value.Compare

/-!
# Table constraints

A valid table has only rows with exactly its columns and without null where a value is required, and
no two of its rows hold the same value in its key or in a unique column (`Table.Valid`). Rows are
checked one at a time against the table as it is by then, so the validity is kept row by row:
`Valid.place` puts one checked row in place, and upserts, updates and commits are made of that.

Sameness of values is not reflexive, but it is symmetric: a row that was checked against all others
is one that all others could have been checked against.
-/

namespace Depot.Relational

/-- A row that is right by itself: it has exactly the columns of the spec, and a value where one is
required. -/
structure Admits (spec : Spec) (row : Row) : Prop where
  columns : ∀ column, row.contains column = true ↔ column ∈ spec.columns
  filled : ∀ f ∈ spec.fields, f.isKey = true ∨ f.notNull = true ∨ f.nullable = false →
    (Row.cell row f.column).isNull = false

/-- Two rows do not hold the same value in a column. -/
def Apart (column : String) (a b : Row) : Prop :=
  (Row.cell a column).isNull = false → (Row.cell b column).isNull = false →
    (Row.cell a column).looseEqual (Row.cell b column) = false

theorem Apart.symm {column : String} {a b : Row} (h : Apart column a b) : Apart column b a := by
  intro hb ha
  rw [Value.looseEqual_comm]
  exact h ha hb

/-- A field whose values tell rows apart. -/
def Distinguishes (f : FieldSpec) : Prop :=
  f.isKey = true ∨ f.unique = true

/-- A table in which all constraints hold. -/
structure Table.Valid (t : Table) : Prop where
  admits : ∀ row ∈ t.rows, Admits t.spec row
  apart : ∀ f ∈ t.spec.fields, Distinguishes f → ∀ (i j : Nat) (a b : Row), i ≠ j →
    t.rows[i]? = some a → t.rows[j]? = some b → Apart f.column a b

namespace Table

variable {t after : Table} {row normal : Row} {slot : Option Nat}

/-! ### What the checks say -/

theorem normalize_eq_ok (h : t.normalize row = .ok normal) (column : String) :
    normal.contains column = true ↔ column ∈ t.spec.columns := by
  rw [normalize] at h
  split at h
  · cases h
  · cases h
    have keys : (t.spec.fields.map fun f => (f.column, Row.cell row f.column)).map Prod.fst =
        t.spec.columns := by
      rw [List.map_map]
      rfl
    have nodup := t.spec.columns_nodup
    rw [Dict.contains, Dict.get?_ofList (by rw [keys]; exact nodup), List.lookup_isSome_iff, ← keys,
      List.mem_map]
    simp only [beq_iff_eq, eq_comm (a := column)]

theorem isTaken_eq_false_iff {column : String} {v : Value} :
    t.isTaken column v slot = false ↔ ∀ i other, t.rows[i]? = some other → slot ≠ some i →
      ∀ w, other.get? column = some w → w.looseEqual v = false := by
  rw [isTaken, List.any_eq_false]
  constructor
  · intro free i other found notSlot w held
    have := free (other, i) (List.mk_mem_zipIdx_iff_getElem?.2 found)
    simpa [held, Ne.symm notSlot] using this
  · rintro free ⟨other, i⟩ mem
    have found := List.mk_mem_zipIdx_iff_getElem?.1 mem
    cases held : other.get? column with
    | none => simp [held]
    | some w =>
        by_cases same : slot = some i
        · simp [same]
        · simp [held, free i other found same w held]

theorem checkField_eq_ok_iff {f : FieldSpec} : t.checkField row slot f = .ok () ↔
    (f.isKey = true ∨ f.notNull = true ∨ f.nullable = false →
        (Row.cell row f.column).isNull = false) ∧
      (Distinguishes f → (Row.cell row f.column).isNull = false →
        t.isTaken f.column (Row.cell row f.column) slot = false) := by
  simp only [checkField, Distinguishes]
  cases null : (Row.cell row f.column).isNull with
  | true =>
      cases key : f.isKey <;> cases notNull : f.notNull <;> cases nullable : f.nullable <;> simp
  | false =>
      cases t.isTaken f.column (Row.cell row f.column) slot <;> cases f.isKey <;> cases f.unique <;> simp

theorem admits_of_checkRow (normalized : t.normalize row = .ok normal)
    (checked : t.checkRow normal slot = .ok ()) : Admits t.spec normal where
  columns := normalize_eq_ok normalized
  filled f mem := (checkField_eq_ok_iff.1 (Fallible.forM_eq_ok_iff.1 checked f mem)).1

/-- A checked row is apart from all rows of the table but the one at its place. -/
theorem apart_of_checkRow (checked : t.checkRow row slot = .ok ()) {f : FieldSpec}
    (mem : f ∈ t.spec.fields) (distinguishes : Distinguishes f) {i : Nat} {other : Row}
    (found : t.rows[i]? = some other) (notSlot : slot ≠ some i) : Apart f.column other row := by
  intro hother hrow
  have free := (checkField_eq_ok_iff.1 (Fallible.forM_eq_ok_iff.1 checked f mem)).2 distinguishes hrow
  rw [Row.cell] at hother ⊢
  cases held : other.get? f.column with
  | none =>
      rw [held] at hother
      cases hother
  | some w => exact isTaken_eq_false_iff.1 free i other found notSlot w held

/-! ### Changes keep a table valid -/

/-- A row of the table after one was put in place is that one, at its place, or it was there before,
at another place. -/
theorem getElem?_place {i : Nat} {found : Row} (h : (t.place slot row).rows[i]? = some found) :
    (found = row ∧ i = slot.getD t.rows.length) ∨ (t.rows[i]? = some found ∧ slot ≠ some i) := by
  cases slot with
  | none =>
      rw [place, List.getElem?_append] at h
      split at h
      · exact .inr ⟨h, by simp⟩
      · next past =>
          rw [List.getElem?_singleton] at h
          split at h
          · cases h
            exact .inl ⟨rfl, by rw [Option.getD_none]; omega⟩
          · cases h
  | some k =>
      rw [place, List.getElem?_set] at h
      split at h
      · next same =>
          split at h
          · cases h
            exact .inl ⟨rfl, same.symm⟩
          · cases h
      · next other => exact .inr ⟨h, by simpa using other⟩

namespace Valid

/-- Putting a checked row in its place keeps a table valid. -/
theorem place (h : t.Valid) (normalized : t.normalize row = .ok normal)
    (checked : t.checkRow normal slot = .ok ()) : (t.place slot normal).Valid := by
  constructor
  · intro r mem
    rw [spec_place]
    obtain ⟨i, found⟩ := List.mem_iff_getElem?.1 mem
    rcases getElem?_place found with ⟨rfl, _⟩ | ⟨before, _⟩
    · exact admits_of_checkRow normalized checked
    · exact h.admits r (List.mem_iff_getElem?.2 ⟨i, before⟩)
  · intro f mem distinguishes i j a b ne ha hb
    rw [spec_place] at mem
    rcases getElem?_place ha with ⟨rfl, hi⟩ | ⟨oldA, hi⟩
    · rcases getElem?_place hb with ⟨rfl, hj⟩ | ⟨oldB, hj⟩
      · exact absurd (hi.trans hj.symm) ne
      · exact (apart_of_checkRow checked mem distinguishes oldB hj).symm
    · rcases getElem?_place hb with ⟨rfl, _⟩ | ⟨oldB, _⟩
      · exact apart_of_checkRow checked mem distinguishes oldA hi
      · exact h.apart f mem distinguishes i j a b ne oldA oldB

/-- Constraints are about the spec and the rows of a table only. -/
theorem congr (h : t.Valid) (spec : after.spec = t.spec) (rows : after.rows = t.rows) :
    after.Valid := by
  constructor
  · rw [spec, rows]
    exact h.admits
  · rw [spec, rows]
    exact h.apart

theorem upsert (h : t.Valid) (put : t.upsert row = .ok after) : after.Valid := by
  obtain ⟨normal, normalized, checked, rfl⟩ := upsert_eq_ok_iff.1 put
  exact (h.place normalized checked).congr rfl rfl

theorem delete? {key : Value} (h : t.Valid) (deleted : t.delete? key = some after) :
    after.Valid := by
  obtain ⟨k, _, rfl⟩ := delete?_eq_some_iff.1 deleted
  constructor
  · intro row mem
    exact h.admits row (List.mem_of_mem_eraseIdx mem)
  · intro f mem distinguishes i j a b ne ha hb
    have before (i : Nat) (row : Row) (found : (t.rows.eraseIdx k)[i]? = some row) :
        t.rows[if i < k then i else i + 1]? = some row := by
      rw [List.getElem?_eraseIdx] at found
      split at found
      · next lt => rwa [if_pos lt]
      · next ge => rwa [if_neg ge]
    -- Rows behind the deleted one have moved up, so different places were different before.
    have apart : (if i < k then i else i + 1) ≠ if j < k then j else j + 1 := by
      split <;> split <;> omega
    exact h.apart f mem distinguishes _ _ a b apart (before i a ha) (before j b hb)

theorem updateAt {assignments : List (String × Value)} {i : Nat} (h : t.Valid)
    (updated : t.updateAt assignments i = .ok after) : after.Valid := by
  rcases updateAt_eq_ok updated with rfl | ⟨row, normal, _, normalized, checked, rfl⟩
  · exact h
  · exact h.place normalized checked

theorem update {u : BoundUpdate} {n : Nat} (h : t.Valid) (updated : t.update u = .ok (n, after)) :
    after.Valid := by
  obtain ⟨places, walked, run, _, rfl⟩ := update_eq_ok updated
  have valid : walked.Valid := Fallible.foldlM_induction h (fun _ _ _ => updateAt) run
  split
  · exact valid
  · exact valid.congr rfl rfl

theorem onTable (h : t.Valid) (action : Action) (name : String) :
    (action.onTable name t).2.Valid := by
  cases action with
  | upsert row =>
      cases put : t.upsert row with
      | error e => simpa [Action.onTable, put, Except.map, settle] using h
      | ok changed => simpa [Action.onTable, put, Except.map, settle] using h.upsert put
  | delete key =>
      cases deleted : t.delete? key with
      | none => simpa [Action.onTable, deleted] using h
      | some changed => simpa [Action.onTable, deleted] using h.delete? deleted
  | update u =>
      cases updated : t.update u with
      | error e => simpa [Action.onTable, updated, Except.map, settle] using h
      | ok r => simpa [Action.onTable, updated, Except.map, settle] using h.update updated
  | _ => rwa [Action.onTable_of_read rfl]

/-- A new table is valid. -/
theorem empty (spec : Spec) : ({ spec } : Table).Valid where
  admits row mem := by cases mem
  apart f _ _ i j a b _ found := by simp at found

end Valid

end Table

/-! ### Systems -/

/-- All committed tables are valid. -/
def Database.Valid (db : Database) : Prop :=
  ∀ name t, db.tables.get? name = some t → t.Valid

/-- All copies of a transaction are valid. -/
def Transaction.Valid (tx : Transaction) : Prop :=
  ∀ name copy, tx.copies.get? name = some copy → copy.table.Valid

/-- All constraints hold in all tables and in all copies of them. -/
structure System.Valid (sys : System) : Prop where
  database : sys.database.Valid
  transactions : ∀ name tx, sys.transactions.get? name = some tx → tx.Valid

namespace Database.Valid

variable {db : Database} {tx : Transaction}

theorem perform (h : db.Valid) (st : Statement) : (db.perform st).2.Valid := by
  intro name t found
  rw [Database.get?_tables_perform] at found
  split at found
  · obtain ⟨t, before, rfl⟩ := Option.map_eq_some_iff.1 found
    exact (h name t before).onTable st.action st.table.name
  · exact h name t found

theorem commit {after : Database} (h : db.Valid) (valid : tx.Valid)
    (committed : db.commit tx = .ok after) : after.Valid := by
  intro name t found
  rw [Database.get?_tables_commit committed] at found
  split at found
  · obtain ⟨copy, copied, rfl⟩ := Option.map_eq_some_iff.1 found
    exact (valid name copy copied).congr rfl rfl
  · exact h name t found

theorem createTable {after : Database} {table : TableDef} (h : db.Valid)
    (created : db.createTable table = .ok after) : after.Valid := by
  rw [Database.createTable] at created
  split at created
  · cases created
  · cases created
    intro name t found
    rw [Dict.get?_insert] at found
    split at found
    · cases found
      exact .empty table.spec
    · exact h name t found

theorem dropTable {after : Database} {table : String} (h : db.Valid)
    (dropped : db.dropTable table = .ok after) : after.Valid := by
  rw [Database.dropTable] at dropped
  split at dropped
  · cases dropped
    intro name t found
    rw [Dict.get?_erase] at found
    split at found
    · cases found
    · exact h name t found
  · cases dropped

/-- A statement in a transaction leaves valid copies: the one it worked on was valid or was taken of a
valid table. -/
theorem performIn (h : db.Valid) (valid : tx.Valid) (st : Statement) :
    (tx.perform db st).2.Valid := by
  intro name copy found
  rw [Transaction.get?_copies_perform] at found
  split at found
  · obtain ⟨worked, source, rfl⟩ := Option.map_eq_some_iff.1 found
    apply Table.Valid.onTable
    rcases Transaction.working?_eq_some_iff.1 source with copied | ⟨_, t, stands, rfl⟩
    · exact valid name worked copied
    · exact h name t stands
  · exact valid name copy found

end Database.Valid

namespace System.Valid

variable {sys : System}

/-- A change of the database that is valid if it takes place. -/
theorem change {result : Except Error Database} (h : sys.Valid)
    (valid : ∀ db, result = .ok db → db.Valid) : (sys.change result).2.Valid := by
  cases result with
  | ok db => exact ⟨valid db rfl, h.transactions⟩
  | error e => exact h

theorem close (h : sys.Valid) (name : String) : (sys.close name).Valid := by
  constructor
  · exact h.database
  · intro other tx held
    rw [System.close, Dict.get?_erase] at held
    split at held
    · cases held
    · exact h.transactions other tx held

theorem withTransaction {tx : Transaction} (h : sys.Valid) (name : String) (valid : tx.Valid) :
    (sys.withTransaction name tx).Valid := by
  constructor
  · exact h.database
  · intro other tx' held
    rw [System.withTransaction, Dict.get?_insert] at held
    split at held
    · cases held
      exact valid
    · exact h.transactions other tx' held

/-- Every step keeps a system valid, whether it succeeds or fails. -/
theorem after {s : Session System} (h : s.backend.Valid) (step : Step) :
    (step.after s).backend.Valid := by
  cases step with
  | direct ctx st =>
      cases refused : s.refusal? ctx with
      | some e => rwa [Step.after, Step.perform_direct_of_refusal refused]
      | none =>
          rw [Step.after, Step.perform_direct_of_live refused]
          exact ⟨h.database.perform st, h.transactions⟩
  | within name ctx st =>
      cases held : s.backend.transactions.get? name with
      | none => rwa [Step.after, Step.perform_within_of_closed held]
      | some tx =>
          cases refused : s.refusal? ctx with
          | some e => rwa [Step.after, Step.perform_within_of_refusal held refused]
          | none =>
              rw [Step.after, Step.perform_within_of_live held refused]
              exact h.withTransaction name (h.database.performIn (h.transactions name tx held) st)
  | begin name =>
      have begun : (s.backend.withDatabase s.backend.database.begin.2).Valid :=
        ⟨h.database, h.transactions⟩
      exact begun.withTransaction name fun _ _ copied => by cases copied
  | commit name =>
      cases held : s.backend.transactions.get? name with
      | none =>
          simp only [Step.after, Step.perform, held]
          exact h
      | some tx =>
          rw [Step.after, Step.perform_commit held]
          have valid := h.transactions name tx held
          exact (h.change fun db committed => h.database.commit valid committed).close name
  | rollback name =>
      simp only [Step.after, Step.perform]
      cases s.backend.transactions.get? name with
      | none => exact h
      | some tx => exact h.close name
  | createTable table => exact h.change fun db created => h.database.createTable created
  | dropTable table => exact h.change fun db dropped => h.database.dropTable dropped
  | wait span => exact h
  | cancel ctx => rwa [Step.backend_after_cancel]

end System.Valid

/-- Whatever happens to a system that starts without tables, in every committed table and in every
copy of an open transaction all constraints hold. -/
theorem valid_after_start (steps : List Step) (s : Session System) :
    (after steps (s.withBackend {})).backend.Valid := by
  have start : ({} : System).Valid := by
    constructor
    · intro name t found
      cases found
    · intro name tx held
      cases held
  exact after_induction (P := fun s => s.backend.Valid) start fun step _ _ valid => valid.after step

end Depot.Relational
