import Depot.Proofs.Relational.RecordTable
import Depot.Proofs.Relational.Snapshot

/-!
# Writes on a connection

Statements on a connection hold three things: the committed tables, the tables they see, and the
copies that a commit would put in place. A write that fails keeps all of them. In a transaction it may
leave behind a copy of its table, but that copy is what the transaction saw before, and it is not
written.
-/

namespace Depot.Relational

namespace Connection

/-- What is held on a connection. -/
structure Contents where
  database : Database
  /-- The transaction that statements run in. -/
  transaction : Option Nat
  /-- The tables that statements see. -/
  table? : String → Option Table
  /-- The copies that a commit would put in place. -/
  written? : String → Option Copy

def contents (_ : Time) (c : Connection) : Contents where
  database := c.database
  transaction := c.transaction.map Transaction.id
  table? :=
    match c.transaction with
    | none => c.database.tables.get?
    | some tx => tx.view c.database
  written? :=
    match c.transaction with
    | none => fun _ => none
    | some tx => fun name => (tx.copies.get? name).filter Copy.isWritten

variable {α : Type}

/-- Keeping the copy that a statement works on does not change what is held. -/
theorem contents_keep {db : Database} {tx : Transaction} {name : String} {copy : Copy} (now : Time)
    (worked : tx.working? db name = some copy) :
    contents now ⟨db, some { tx with copies := tx.copies.insert name copy }⟩ =
      contents now ⟨db, some tx⟩ := by
  rcases Transaction.working?_eq_some_iff.1 worked with copied | ⟨copied, t, found, rfl⟩
  · rw [Dict.insert_of_get? copied]
  · rw [contents, contents, Contents.mk.injEq]
    refine ⟨rfl, rfl, funext fun other => ?_, funext fun other => ?_⟩
    · by_cases same : other = name
      · subst same
        simp [Transaction.view, copied, found]
      · simp [Transaction.view, Dict.get?_insert_of_ne _ same]
    · by_cases same : other = name
      · subst same
        simp [copied]
      · simp [Dict.get?_insert_of_ne _ same]

theorem early_of_isFault {e : Error} (h : Table.isFault e = true) : e.isPostCommit = false := by
  cases e <;> first | rfl | cases h

/-- A write does all or nothing, whatever the change that it tries on its table. -/
theorem allOrNothing_write (name : String) {f : Table → Except Error (α × Table)}
    (early : ∀ t, Early (f t)) :
    Call.AllOrNothing contents fun _ c => visit c name true fun t => t.settle (f t) := by
  rintro now ⟨db, tx⟩ e failed
  cases tx with
  | none =>
      cases found : db.tables.get? name with
      | none =>
          simp only [visit, Database.visit, found, Except.error.injEq] at failed ⊢
          subst failed
          exact ⟨rfl, trivial⟩
      | some t =>
          cases change : f t with
          | ok r => simp [visit, Database.visit, found, change, Table.settle] at failed
          | error e' =>
              simp only [visit, Database.visit, found, change, Table.settle, Except.error.injEq]
                at failed ⊢
              subst failed
              rw [Dict.insert_of_get? found]
              exact ⟨early t e' change, rfl⟩
  | some tx =>
      cases worked : tx.working? db name with
      | none =>
          simp only [visit, Transaction.visit, Transaction.copyOf_eq, worked, Except.error.injEq]
            at failed ⊢
          subst failed
          exact ⟨rfl, trivial⟩
      | some copy =>
          cases change : f copy.table with
          | ok r =>
              simp [visit, Transaction.visit, Transaction.copyOf_eq, worked, change, Table.settle]
                at failed
          | error e' =>
              simp only [visit, Transaction.visit, Transaction.copyOf_eq, worked, change,
                Table.settle, Except.error.injEq] at failed ⊢
              subst failed
              refine ⟨early copy.table e' change, ?_⟩
              have unwritten : (copy.isWritten || true && (.error e' : Except Error α).isOk) =
                  copy.isWritten := by
                simp [Except.isOk, Except.toBool]
              rw [unwritten]
              exact contents_keep now worked

variable {ctx : Context}

theorem upsert_eq (table : TableDef) (row : Row) :
    upsert ctx table row = Call.under ctx fun _ c =>
      visit c table.name true fun t => t.settle ((t.upsert row).map fun t => ((), t)) :=
  Call.check_bind_eq_under fun s => write_apply table.name _ s

theorem delete_eq (table : TableDef) (key : Value) :
    delete ctx table key = Call.under ctx fun _ c =>
      visit c table.name true fun t => t.settle (match t.delete? key with
        | some t => .ok ((), t)
        | none => .error (rowNotFound table.name key)) :=
  Call.check_bind_eq_under fun s => write_apply table.name _ s

theorem update_eq (table : TableDef) (u : BoundUpdate) :
    update ctx table u = Call.under ctx fun _ c =>
      visit c table.name true fun t => t.settle (t.update u) :=
  Call.check_bind_eq_under fun s => write_apply table.name _ s

theorem early_upsert (row : Row) (t : Table) : Early ((t.upsert row).map fun t => ((), t)) :=
  Early.map (fun _ failed => early_of_isFault (Table.isFault_of_upsert failed)) _

theorem early_delete (table : TableDef) (key : Value) (t : Table) : Early (match t.delete? key with
    | some t => .ok ((), t)
    | none => .error (rowNotFound table.name key)) := by
  split
  · exact .ok _
  · exact .error rfl

theorem early_update (u : BoundUpdate) (t : Table) : Early (t.update u) :=
  fun _ failed => early_of_isFault (Table.isFault_of_update failed)

/-- The writes on a connection do all or nothing. -/
theorem sound : executor.Sound contents where
  upsert _ table row := ⟨_, upsert_eq table row, allOrNothing_write table.name (early_upsert row)⟩
  delete _ table key := ⟨_, delete_eq table key, allOrNothing_write table.name (early_delete table key)⟩
  update _ table u := ⟨_, update_eq table u, allOrNothing_write table.name (early_update u)⟩

end Connection

end Depot.Relational
