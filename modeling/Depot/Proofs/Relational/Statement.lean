import Depot.Proofs.Dict.Lookup
import Depot.Proofs.Relational.Table
import Depot.Proofs.Session.Call
import Depot.Relational.Database

/-!
# Statements, evaluated

A statement is an operation of the executor with its arguments. Under a live context it comes down to
a function on one table (`Statement.onTable`), which a connection applies to the table itself or to
the copy in its transaction (`Connection.visit`); under a dead one it does nothing. What is proved
about runs later on uses only this description (`Statement.call_of_live`,
`Statement.call_of_refusal`), never the executor's own calls.
-/

namespace Depot.Relational

/-- What a statement does to its table. -/
inductive Action
  | get (key : Value)
  | has (key : Value)
  | query (q : BoundQuery)
  | select (q : BoundQuery)
  | aggregate (a : BoundAggregate)
  | upsert (row : Row)
  | delete (key : Value)
  | update (u : BoundUpdate)

/-- Whether the action goes through the writing path, which marks a copy as written. -/
def Action.isWrite : Action → Bool
  | upsert _ | delete _ | update _ => true
  | _ => false

structure Statement where
  table : TableDef
  action : Action

/-- What a statement, or another step of a run, answers. -/
inductive Answer
  | row (row : Row)
  | rows (rows : List Row)
  | flag (b : Bool)
  | number (x : Binary64)
  | count (n : Nat)
  | done

/-- The statement as a call of the executor. -/
def Statement.call (ctx : Context) (st : Statement) : Call Connection Answer :=
  let e := Connection.executor
  match st.action with
  | .get key => Answer.row <$> e.get ctx st.table key
  | .has key => Answer.flag <$> e.has ctx st.table key
  | .query q => Answer.rows <$> e.query ctx st.table q
  | .select q => Answer.row <$> e.select ctx st.table q
  | .aggregate a => Answer.number <$> e.aggregate ctx st.table a
  | .upsert row => (fun _ => Answer.done) <$> e.upsert ctx st.table row
  | .delete key => (fun _ => Answer.done) <$> e.delete ctx st.table key
  | .update u => Answer.count <$> e.update ctx st.table u

/-! ### Tables -/

/-- The outcome of a change that was tried on a table: a failing one leaves the table as it was. -/
def Table.settle {α : Type} (t : Table) : Except Error (α × Table) → Except Error α × Table
  | .ok (a, changed) => (.ok a, changed)
  | .error e => (.error e, t)

/-- The answer of an action on a table of a name, and the table after it. -/
def Action.onTable (name : String) (t : Table) : Action → Except Error Answer × Table
  | get key =>
    match t.find? key with
    | some row => (.ok (.row row), t)
    | none => (.error (rowNotFound name key), t)
  | has key => (.ok (.flag (t.position? key).isSome), t)
  | query q => (.ok (.rows (t.query q)), t)
  | select q =>
    match t.query { q with limit := some 1 } with
    | row :: _ => (.ok (.row row), t)
    | [] => (.error (.notFound (name ++ ": no matching row")), t)
  | aggregate a => ((t.aggregate a).map .number, t)
  | upsert row => t.settle ((t.upsert row).map fun t => (.done, t))
  | delete key =>
    match t.delete? key with
    | some changed => (.ok .done, changed)
    | none => (.error (rowNotFound name key), t)
  | update u => t.settle ((t.update u).map fun r => (.count r.1, r.2))

/-- An action that is not a write leaves the table as it is. -/
theorem Action.onTable_of_read {action : Action} (h : action.isWrite = false) (name : String)
    (t : Table) : (action.onTable name t).2 = t := by
  cases action with
  | get key =>
      rw [onTable]
      split <;> rfl
  | select q =>
      rw [onTable]
      split <;> rfl
  | upsert | delete | update => simp [isWrite] at h
  | _ => rfl

/-- An action that fails leaves the table as it is. -/
theorem Action.onTable_of_error {action : Action} {name : String} {t : Table} {e : Error}
    (h : (action.onTable name t).1 = .error e) : (action.onTable name t).2 = t := by
  cases action with
  | upsert row =>
      cases change : t.upsert row <;> simp_all [onTable, Table.settle, Except.map]
  | delete key =>
      cases change : t.delete? key <;> simp_all [onTable]
  | update u =>
      cases change : t.update u <;> simp_all [onTable, Table.settle, Except.map]
  | _ => exact onTable_of_read rfl name t

/-- An action on a table fails with a fault of that table only. -/
theorem Action.isFault_of_onTable {action : Action} {name : String} {t : Table} {e : Error}
    (h : (action.onTable name t).1 = .error e) : Table.isFault e = true := by
  cases action with
  | get key =>
      cases found : t.find? key <;> simp [onTable, found] at h
      subst h
      rfl
  | has key => cases h
  | query q => cases h
  | select q =>
      cases found : t.query { q with limit := some 1 } <;> simp [onTable, found] at h
      subst h
      rfl
  | aggregate a =>
      cases result : t.aggregate a <;> simp [onTable, result, Except.map] at h
      subst h
      exact Table.isFault_of_aggregate result
  | upsert row =>
      cases change : t.upsert row <;> simp [onTable, change, Table.settle, Except.map] at h
      subst h
      exact Table.isFault_of_upsert change
  | delete key =>
      cases found : t.delete? key <;> simp [onTable, found] at h
      subst h
      rfl
  | update u =>
      cases change : t.update u <;> simp [onTable, change, Table.settle, Except.map] at h
      subst h
      exact Table.isFault_of_update change

/-! ### Databases, transactions and connections -/

/-- Applies a function to a table of a database. -/
def Database.visit {α : Type} (db : Database) (name : String)
    (f : Table → Except Error α × Table) : Except Error α × Database :=
  match db.tables.get? name with
  | some t => ((f t).1, { db with tables := db.tables.insert name (f t).2 })
  | none => (.error (.tableNotFound name), db)

/-- Applies a function to the copy of a table in a transaction, which is kept. -/
def Transaction.visit {α : Type} (tx : Transaction) (db : Database) (name : String) (isWrite : Bool)
    (f : Table → Except Error α × Table) : Except Error α × Transaction :=
  match db.copyOf tx name with
  | .ok copy =>
    let (result, table) := f copy.table
    let isWritten := copy.isWritten || isWrite && result.isOk
    (result, { tx with copies := tx.copies.insert name { copy with table, isWritten } })
  | .error e => (.error e, tx)

/-- Applies a function to the table that statements on a connection see. -/
def Connection.visit {α : Type} (c : Connection) (name : String) (isWrite : Bool)
    (f : Table → Except Error α × Table) : Except Error α × Connection :=
  match c.transaction with
  | none =>
    let (result, database) := c.database.visit name f
    (result, { c with database })
  | some tx =>
    let (result, tx) := tx.visit c.database name isWrite f
    (result, { c with transaction := some tx })

namespace Connection

variable {α β : Type}

theorem read_apply (name : String) (f : Table → Except Error α) (s : Session Connection) :
    read name f s =
      let c := s.backend.visit name false fun t => (f t, t)
      (c.1, s.withBackend c.2) := by
  obtain ⟨⟨db, tx⟩, now, raised, events, warnings⟩ := s
  cases tx with
  | none =>
      cases found : db.tables.get? name with
      | none => simp [read, visit, Database.visit, Call.bind_apply, found, Session.withBackend]
      | some t =>
          simp [read, visit, Database.visit, Call.bind_apply, found, Session.withBackend,
            Call.lift_apply, Dict.insert_of_get? found]
  | some tx =>
      cases found : db.copyOf tx name with
      | error e => simp [read, visit, Transaction.visit, Call.bind_apply, found, Session.withBackend]
      | ok copy =>
          simp [read, visit, Transaction.visit, Call.bind_apply, found, Session.withBackend,
            Call.lift_apply]

theorem write_apply (name : String) (f : Table → Except Error (α × Table)) (s : Session Connection) :
    write name f s =
      let c := s.backend.visit name true fun t => t.settle (f t)
      (c.1, s.withBackend c.2) := by
  obtain ⟨⟨db, tx⟩, now, raised, events, warnings⟩ := s
  cases tx with
  | none =>
      cases found : db.tables.get? name with
      | none => simp [write, visit, Database.visit, Call.bind_apply, found, Session.withBackend]
      | some t =>
          cases change : f t with
          | error e =>
              simp [write, visit, Database.visit, Call.bind_apply, found, Session.withBackend, change,
                Table.settle, Dict.insert_of_get? found]
          | ok r =>
              simp [write, visit, Database.visit, Call.bind_apply, found, Session.withBackend, change,
                Table.settle, Call.map_apply, Except.map]
  | some tx =>
      cases found : db.copyOf tx name with
      | error e =>
          simp [write, visit, Transaction.visit, Call.bind_apply, found, Session.withBackend]
      | ok copy =>
          cases change : f copy.table with
          | error e =>
              simp [write, visit, Transaction.visit, Call.bind_apply, found, Session.withBackend,
                change, Table.settle, Except.isOk, Except.toBool]
          | ok r =>
              simp [write, visit, Transaction.visit, Call.bind_apply, found, Session.withBackend,
                change, Table.settle, Except.isOk, Except.toBool, Call.map_apply, Except.map]

/-- A visit finds a table, and then the connection after it depends only on what becomes of the table
and on whether that was a write that succeeded. Or else it fails, and nothing happens. -/
theorem visit_cases (c : Connection) (name : String) (isWrite : Bool) :
    (∃ t, ∃ put : Bool → Table → Connection, ∀ (α : Type) (f : Table → Except Error α × Table),
      c.visit name isWrite f = ((f t).1, put (isWrite && (f t).1.isOk) (f t).2)) ∨
    ∃ e, ∀ (α : Type) (f : Table → Except Error α × Table), c.visit name isWrite f = (.error e, c) := by
  obtain ⟨db, tx⟩ := c
  cases tx with
  | none =>
      cases found : db.tables.get? name with
      | none =>
          right
          refine ⟨.tableNotFound name, fun α f => ?_⟩
          simp [visit, Database.visit, found]
      | some t =>
          left
          let put (_ : Bool) (changed : Table) : Connection :=
            { database := { db with tables := db.tables.insert name changed }, transaction := none }
          refine ⟨t, put, fun α f => ?_⟩
          simp [visit, Database.visit, found, put]
  | some tx =>
      cases found : db.copyOf tx name with
      | error e =>
          right
          refine ⟨e, fun α f => ?_⟩
          simp [visit, Transaction.visit, found]
      | ok copy =>
          left
          let put (wrote : Bool) (table : Table) : Connection :=
            let kept := { copy with table, isWritten := copy.isWritten || wrote }
            { database := db, transaction := some { tx with copies := tx.copies.insert name kept } }
          refine ⟨copy.table, put, fun α f => ?_⟩
          simp [visit, Transaction.visit, found, put]

/-- What becomes of the answer of a read does not touch the connection. -/
theorem visit_read_bind (c : Connection) (name : String) (f : Table → Except Error α)
    (g : α → Except Error β) :
    (c.visit name false fun t => (f t >>= g, t)) =
      let r := c.visit name false fun t => (f t, t)
      (r.1 >>= g, r.2) := by
  rcases c.visit_cases name false with ⟨t, put, visits⟩ | ⟨e, visits⟩
  · rw [visits, visits]
    rfl
  · rw [visits, visits]
    rfl

/-- The answer of a write may be replaced by a function of it. -/
theorem visit_write_map (c : Connection) (name : String) (f : Table → Except Error (α × Table))
    (g : α → β) :
    (c.visit name true fun t => t.settle ((f t).map fun r => (g r.1, r.2))) =
      let r := c.visit name true fun t => t.settle (f t)
      (r.1.map g, r.2) := by
  rcases c.visit_cases name true with ⟨t, put, visits⟩ | ⟨e, visits⟩
  · rw [visits, visits]
    cases f t with
    | ok r => rfl
    | error e => rfl
  · rw [visits, visits]
    rfl

/-- The answer of a statement on a connection, and the connection after it. -/
def perform (c : Connection) (st : Statement) : Except Error Answer × Connection :=
  c.visit st.table.name st.action.isWrite fun t => st.action.onTable st.table.name t

/-- A statement that answers with a function of what it reads. -/
theorem perform_of_read {table : TableDef} {action : Action} {f : Table → Except Error α}
    {g : α → Except Error Answer} (read : action.isWrite = false)
    (h : ∀ t, action.onTable table.name t = (f t >>= g, t)) (c : Connection) :
    c.perform ⟨table, action⟩ =
      let r := c.visit table.name false fun t => (f t, t)
      (r.1 >>= g, r.2) := by
  have same : action.onTable table.name = fun t => (f t >>= g, t) := funext h
  rw [perform, read, same]
  exact visit_read_bind c table.name f g

/-- A statement that changes its table. -/
theorem perform_of_write {table : TableDef} {action : Action} {f : Table → Except Error (α × Table)}
    {g : α → Answer} (write : action.isWrite = true)
    (h : ∀ t, action.onTable table.name t = t.settle ((f t).map fun r => (g r.1, r.2)))
    (c : Connection) :
    c.perform ⟨table, action⟩ =
      let r := c.visit table.name true fun t => t.settle (f t)
      (r.1.map g, r.2) := by
  have same : action.onTable table.name = fun t => t.settle ((f t).map fun r => (g r.1, r.2)) :=
    funext h
  rw [perform, write, same]
  exact visit_write_map c table.name f g

end Connection

namespace Statement

variable {ctx : Context} {s : Session Connection}

/-- Under a dead context a statement does nothing. -/
theorem call_of_refusal {e : Error} (dead : s.refusal? ctx = some e) (st : Statement) :
    st.call ctx s = (.error e, s) := by
  obtain ⟨table, action⟩ := st
  cases action with
  | select q =>
      show (Answer.row <$> selectFirst Connection.query ctx table q) s = _
      rw [Call.map_apply, selectFirst, Call.bind_apply, Connection.query,
        Call.check_bind_of_refusal dead]
      rfl
  | _ =>
      refine (Call.map_apply _ _ _).trans ?_
      simp only [Connection.executor, Connection.get, Connection.has, Connection.query,
        Connection.aggregate, Connection.upsert, Connection.delete, Connection.update,
        Call.check_bind_of_refusal dead, Except.map]

/-- Under a live context a statement is what it does to its table. -/
theorem call_of_live (live : s.refusal? ctx = none) (st : Statement) :
    st.call ctx s = ((s.backend.perform st).1, s.withBackend (s.backend.perform st).2) := by
  obtain ⟨table, action⟩ := st
  cases action with
  | get key =>
      have h (t : Table) : (Action.get key).onTable table.name t =
          ((match t.find? key with
            | some row => .ok row
            | none => .error (rowNotFound table.name key)) >>= fun row => .ok (.row row), t) := by
        rw [Action.onTable]
        cases t.find? key <;> rfl
      show (Answer.row <$> Connection.get ctx table key) s = _
      rw [Call.map_apply, Connection.get, Call.check_bind_of_live live, Connection.read_apply,
        Connection.perform_of_read rfl h]
      rfl
  | has key =>
      have h (t : Table) : (Action.has key).onTable table.name t =
          ((.ok (t.position? key).isSome : Except Error Bool) >>= fun b => .ok (.flag b), t) := rfl
      show (Answer.flag <$> Connection.has ctx table key) s = _
      rw [Call.map_apply, Connection.has, Call.check_bind_of_live live, Connection.read_apply,
        Connection.perform_of_read rfl h]
      rfl
  | query q =>
      have h (t : Table) : (Action.query q).onTable table.name t =
          ((.ok (t.query q) : Except Error (List Row)) >>= fun rows => .ok (.rows rows), t) := rfl
      show (Answer.rows <$> Connection.query ctx table q) s = _
      rw [Call.map_apply, Connection.query, Call.check_bind_of_live live, Connection.read_apply,
        Connection.perform_of_read rfl h]
      rfl
  | select q =>
      have h (t : Table) : (Action.select q).onTable table.name t =
          ((.ok (t.query { q with limit := some 1 }) : Except Error (List Row)) >>= fun rows =>
            match rows with
            | row :: _ => .ok (.row row)
            | [] => .error (.notFound (table.name ++ ": no matching row")), t) := by
        rw [Action.onTable]
        cases found : t.query { q with limit := some 1 } with
        | nil => rfl
        | cons row rest => rfl
      show (Answer.row <$> selectFirst Connection.query ctx table q) s = _
      rw [Call.map_apply, selectFirst, Call.bind_apply, Connection.query,
        Call.check_bind_of_live live, Connection.read_apply, Connection.perform_of_read rfl h]
      dsimp only
      cases (s.backend.visit table.name false fun t =>
          ((.ok (t.query { q with limit := some 1 }) : Except Error (List Row)), t)).1 with
      | error e => rfl
      | ok rows => cases rows <;> rfl
  | aggregate a =>
      have h (t : Table) : (Action.aggregate a).onTable table.name t =
          (t.aggregate a >>= fun x => .ok (.number x), t) := rfl
      show (Answer.number <$> Connection.aggregate ctx table a) s = _
      rw [Call.map_apply, Connection.aggregate, Call.check_bind_of_live live,
        Connection.read_apply, Connection.perform_of_read rfl h]
      rfl
  | upsert row =>
      have h (t : Table) : (Action.upsert row).onTable table.name t =
          t.settle (((t.upsert row).map fun t => ((), t)).map fun r => (.done, r.2)) := by
        rw [Action.onTable]
        cases t.upsert row <;> rfl
      show ((fun _ => Answer.done) <$> Connection.upsert ctx table row) s = _
      rw [Call.map_apply, Connection.upsert, Call.check_bind_of_live live, Connection.write_apply,
        Connection.perform_of_write (g := fun _ => Answer.done) rfl h]
  | delete key =>
      have h (t : Table) : (Action.delete key).onTable table.name t =
          t.settle ((match t.delete? key with
            | some t => Except.ok ((), t)
            | none => Except.error (rowNotFound table.name key)).map fun r : Unit × Table =>
              (.done, r.2)) := by
        rw [Action.onTable]
        cases t.delete? key <;> rfl
      show ((fun _ => Answer.done) <$> Connection.delete ctx table key) s = _
      rw [Call.map_apply, Connection.delete, Call.check_bind_of_live live,
        Connection.perform_of_write (g := fun _ => Answer.done) rfl h]
      exact congrArg
        (fun r : Except Error Unit × Session Connection => (r.1.map fun _ => Answer.done, r.2))
        (Connection.write_apply _ _ s)
  | update u =>
      show (Answer.count <$> Connection.update ctx table u) s = _
      rw [Call.map_apply, Connection.update, Call.check_bind_of_live live, Connection.write_apply,
        Connection.perform_of_write rfl fun t => rfl]

end Statement

end Depot.Relational
