import Depot.Proofs.Record.Keeping
import Depot.Proofs.Relational.Constraints

/-!
# What all rows of a table have in common

A write changes no rows but those that it writes, so what all rows of a table have in common
(`Table.AllRows`) stays with them as soon as the new rows have it. A connection works on the committed
table or on a copy of it, and each of its statements keeps what is said of both
(`Connection.All`) if the change of the table does.
-/

namespace Depot.Relational

/-! ### Tables -/

/-- A row as a table of the spec takes it in: with all columns, and filled where it must be. -/
structure TakenIn (spec : Spec) (row normal : Row) : Prop where
  admits : Admits spec normal
  cells : ∀ f ∈ spec.fields, Row.cell normal f.column = Row.cell row f.column

/-- A table of the spec all of whose rows have a property. -/
structure Table.AllRows (spec : Spec) (Q : Row → Prop) (t : Table) : Prop where
  isOf : t.spec = spec
  rows : ∀ row ∈ t.rows, Q row

namespace Table

variable {spec : Spec} {Q : Row → Prop} {t after : Table} {row normal : Row} {slot : Option Nat}

theorem cell_normalize (h : t.normalize row = .ok normal) {f : FieldSpec} (mem : f ∈ t.spec.fields) :
    Row.cell normal f.column = Row.cell row f.column := by
  rw [normalize] at h
  split at h
  · cases h
  · cases h
    have nodup : ((t.spec.fields.map fun f => (f.column, Row.cell row f.column)).map Prod.fst).Nodup := by
      rw [List.map_map]
      exact t.spec.columns_nodup
    rw [Row.cell, Dict.get?_ofList nodup,
      Entries.lookup_of_mem_of_nodup nodup (List.mem_map.2 ⟨f, mem, rfl⟩)]
    rfl

theorem takenIn (isOf : t.spec = spec) (normalized : t.normalize row = .ok normal)
    (checked : t.checkRow normal slot = .ok ()) : TakenIn spec row normal := by
  subst isOf
  exact ⟨admits_of_checkRow normalized checked, fun f mem => cell_normalize normalized mem⟩

namespace AllRows

theorem place (h : t.AllRows spec Q) (new : Q row) (slot : Option Nat) :
    (t.place slot row).AllRows spec Q where
  isOf := by rw [spec_place, h.isOf]
  rows r mem := by
    obtain ⟨i, found⟩ := List.mem_iff_getElem?.1 mem
    rcases getElem?_place found with ⟨rfl, _⟩ | ⟨before, _⟩
    · exact new
    · exact h.rows r (List.mem_of_getElem? before)

theorem withVersion (h : t.AllRows spec Q) (version : Nat) :
    ({ t with version } : Table).AllRows spec Q := ⟨h.isOf, h.rows⟩

theorem upsert (h : t.AllRows spec Q) (put : t.upsert row = .ok after)
    (new : ∀ normal, TakenIn spec row normal → Q normal) : after.AllRows spec Q := by
  obtain ⟨normal, normalized, checked, rfl⟩ := upsert_eq_ok_iff.1 put
  exact (h.place (new normal (takenIn h.isOf normalized checked)) _).withVersion _

theorem delete? {key : Value} (h : t.AllRows spec Q) (deleted : t.delete? key = some after) :
    after.AllRows spec Q := by
  obtain ⟨i, _, rfl⟩ := delete?_eq_some_iff.1 deleted
  exact ⟨h.isOf, fun row mem => h.rows row (List.mem_of_mem_eraseIdx mem)⟩

theorem updateAt {assignments : List (String × Value)} {i : Nat} (h : t.AllRows spec Q)
    (new : ∀ row normal, Q row → TakenIn spec (assign assignments row) normal → Q normal)
    (updated : t.updateAt assignments i = .ok after) : after.AllRows spec Q := by
  rcases updateAt_eq_ok updated with rfl | ⟨row, normal, held, normalized, checked, rfl⟩
  · exact h
  · have had := h.rows row (List.mem_of_getElem? held)
    exact h.place (new row normal had (takenIn h.isOf normalized checked)) _

theorem update {u : BoundUpdate} {n : Nat} (h : t.AllRows spec Q)
    (new : ∀ row normal, Q row → TakenIn spec (assign u.assignments row) normal → Q normal)
    (updated : t.update u = .ok (n, after)) : after.AllRows spec Q := by
  obtain ⟨places, walked, run, _, rfl⟩ := update_eq_ok updated
  have kept : walked.AllRows spec Q :=
    Fallible.foldlM_induction h (fun _ _ _ before step => before.updateAt new step) run
  split
  · exact kept
  · exact kept.withVersion _

end AllRows

end Table

/-! ### Connections -/

/-- The committed table of a name, if there is one, has a property. -/
def Database.All (name : String) (P : Table → Prop) (db : Database) : Prop :=
  ∀ t, db.tables.get? name = some t → P t

/-- The copy of a table in a transaction, if there is one, has a property. -/
def Transaction.All (name : String) (P : Table → Prop) (tx : Transaction) : Prop :=
  ∀ copy, tx.copies.get? name = some copy → P copy.table

/-- A table has a property, and so has its copy in the transaction. -/
structure Connection.All (name : String) (P : Table → Prop) (c : Connection) : Prop where
  database : c.database.All name P
  transaction : ∀ tx, c.transaction = some tx → tx.All name P

section

variable {α : Type} {name : String} {P : Table → Prop} {ctx : Context}

theorem Database.All.insert {db : Database} (h : db.All name P) {other : String} {t : Table}
    (own : other = name → P t) : Database.All name P { db with tables := db.tables.insert other t } := by
  intro u found
  rw [Dict.get?_insert] at found
  split at found
  · next same =>
      cases found
      exact own same.symm
  · exact h u found

theorem Transaction.All.insert {tx : Transaction} (h : tx.All name P) {other : String} {copy : Copy}
    (own : other = name → P copy.table) :
    Transaction.All name P { tx with copies := tx.copies.insert other copy } := by
  intro kept found
  rw [Dict.get?_insert] at found
  split at found
  · next same =>
      cases found
      exact own same.symm
  · exact h kept found

namespace Connection

/-- What a visit does to the table that it finds it does to what there is of the table. -/
theorem All.visit {c : Connection} (h : c.All name P) (table : String) (isWrite : Bool)
    {f : Table → Except Error α × Table} (keeps : table = name → ∀ t, P t → P (f t).2) :
    (c.visit table isWrite f).2.All name P := by
  obtain ⟨db, tx⟩ := c
  obtain ⟨inTables, inCopies⟩ := h
  cases tx with
  | none =>
      refine ⟨?_, fun _ absent => by cases absent⟩
      cases found : db.tables.get? table with
      | none =>
          simp only [Connection.visit, Database.visit, found]
          exact inTables
      | some t =>
          simp only [Connection.visit, Database.visit, found]
          exact inTables.insert fun same => keeps same t (inTables t (same ▸ found))
  | some tx =>
      have copies : tx.All name P := inCopies tx rfl
      cases worked : tx.working? db table with
      | none =>
          simp only [Connection.visit, Transaction.visit, Transaction.copyOf_eq, worked]
          exact ⟨inTables, inCopies⟩
      | some copy =>
          simp only [Connection.visit, Transaction.visit, Transaction.copyOf_eq, worked]
          refine ⟨inTables, fun _ same => ?_⟩
          cases same
          refine copies.insert fun same => keeps same copy.table ?_
          subst same
          rcases Transaction.working?_eq_some_iff.1 worked with copied | ⟨_, t, found, rfl⟩
          · exact copies copy copied
          · exact inTables t found

/-- A visit answers from a table of which the same is said, if there is one. -/
theorem All.visit_answer {c : Connection} (h : c.All name P) (isWrite : Bool)
    (f : Table → Except Error α × Table) :
    (c.visit name isWrite f).1 = .error (.tableNotFound name) ∨
      ∃ t, P t ∧ (c.visit name isWrite f).1 = (f t).1 := by
  obtain ⟨db, tx⟩ := c
  obtain ⟨inTables, inCopies⟩ := h
  cases tx with
  | none =>
      cases found : db.tables.get? name with
      | none => exact .inl (by simp only [Connection.visit, Database.visit, found])
      | some t => exact .inr ⟨t, inTables t found, by simp only [Connection.visit, Database.visit, found]⟩
  | some tx =>
      cases worked : tx.working? db name with
      | none =>
          exact .inl (by simp only [Connection.visit, Transaction.visit, Transaction.copyOf_eq, worked])
      | some copy =>
          refine .inr ⟨copy.table, ?_, by
            simp only [Connection.visit, Transaction.visit, Transaction.copyOf_eq, worked]⟩
          rcases Transaction.working?_eq_some_iff.1 worked with copied | ⟨_, t, found, rfl⟩
          · exact inCopies tx rfl copy copied
          · exact inTables t found

theorem keeps_read (table : String) (f : Table → Except Error α) :
    (read table f).Keeps (All name P) := by
  intro s h
  rw [read_apply]
  exact h.visit table false fun _ _ had => had

theorem keeps_write {table : String} {f : Table → Except Error (α × Table)}
    (keeps : table = name → ∀ t a after, P t → f t = .ok (a, after) → P after) :
    (write table f).Keeps (All name P) := by
  intro s h
  rw [write_apply]
  refine h.visit table true fun same t had => ?_
  cases changed : f t with
  | error e => exact had
  | ok r => exact keeps same t r.1 r.2 had changed

variable {table : TableDef}

theorem keeps_get (key : Value) : (get ctx table key).Keeps (All name P) :=
  (Call.keeps_check ctx).bind fun _ => keeps_read table.name _

theorem keeps_has (key : Value) : (has ctx table key).Keeps (All name P) :=
  (Call.keeps_check ctx).bind fun _ => keeps_read table.name _

theorem keeps_query (q : BoundQuery) : (query ctx table q).Keeps (All name P) :=
  (Call.keeps_check ctx).bind fun _ => keeps_read table.name _

theorem keeps_select (q : BoundQuery) : (selectFirst query ctx table q).Keeps (All name P) := by
  refine (keeps_query _).bind fun rows => ?_
  cases rows with
  | nil => exact Call.keeps_fail _
  | cons row rest => exact Call.keeps_pure row

theorem keeps_aggregate (a : BoundAggregate) : (aggregate ctx table a).Keeps (All name P) :=
  (Call.keeps_check ctx).bind fun _ => keeps_read table.name _

theorem keeps_upsert {row : Row}
    (keeps : table.name = name → ∀ t after, P t → t.upsert row = .ok after → P after) :
    (upsert ctx table row).Keeps (All name P) := by
  refine (Call.keeps_check ctx).bind fun _ => keeps_write fun same t a after had put => ?_
  cases inserted : t.upsert row with
  | error e =>
      rw [inserted] at put
      cases put
  | ok changed =>
      rw [inserted] at put
      cases put
      exact keeps same t _ had inserted

theorem keeps_delete {key : Value}
    (keeps : table.name = name → ∀ t after, P t → t.delete? key = some after → P after) :
    (delete ctx table key).Keeps (All name P) := by
  refine (Call.keeps_check ctx).bind fun _ => keeps_write fun same t a after had gone => ?_
  cases deleted : t.delete? key with
  | none =>
      rw [deleted] at gone
      cases gone
  | some changed =>
      rw [deleted] at gone
      cases gone
      exact keeps same t _ had deleted

theorem keeps_update {u : BoundUpdate}
    (keeps : table.name = name → ∀ t n after, P t → t.update u = .ok (n, after) → P after) :
    (update ctx table u).Keeps (All name P) :=
  (Call.keeps_check ctx).bind fun _ => keeps_write keeps

end Connection

/-- A statement that does not write the table keeps what is said of it. -/
theorem Statement.keeps_call {st : Statement} (spares : st.table.name = name → st.action.isWrite = false) :
    (st.call ctx).Keeps (Connection.All name P) := by
  intro s h
  cases refused : s.refusal? ctx with
  | some e => rwa [Statement.call_of_refusal refused]
  | none =>
      rw [Statement.call_of_live refused]
      refine h.visit st.table.name st.action.isWrite fun same t had => ?_
      rwa [Action.onTable_of_read (spares same)]

end

end Depot.Relational
