import Depot.Proofs.Relational.Holding
import Depot.Proofs.Relational.Rows

/-!
# Tables of records in use

A table of records in use: any number of operations of both views, directly or in open transactions,
with transactions that begin, commit and roll back in between (`Turn`). Whatever all rows of the table
have in common stays with them in such a run as soon as every write leaves it to the rows that it writes
(`Use.Leaves`, `Turn.allRows_run`): a transaction works on copies of the table, and a commit puts such a
copy in place.
-/

namespace Depot.RecordTable

open Relational

/-! ### Operations -/

variable {ρ σ : Type}

/-- The operations of a table, of both views, with their arguments. -/
inductive Use (ρ : Type)
  | write (w : Write ρ)
  | setAtom (a : Atom)
  | deleteAtom (key : String)
  | has (key : String)
  | get (key : String)
  | getAtom (key : String)
  | query (q : Query) (params : Params)
  | queryAtoms (q : Query) (params : Params)
  | select (q : Query) (params : Params)
  | selectAtom (q : Query) (params : Params)
  | aggregate (a : Aggregate) (params : Params)

namespace Use

/-- The outcome of an operation. -/
def run (t : RecordTable ρ σ) (ctx : Context) : Use ρ → Call σ Unit
  | write w => w.run t ctx
  | setAtom a => t.setAtom ctx a
  | deleteAtom key => t.deleteAtom ctx key
  | has key => (fun _ => ()) <$> t.has ctx key
  | get key => (fun _ => ()) <$> t.get ctx key
  | getAtom key => (fun _ => ()) <$> t.getAtom ctx key
  | query q params => (fun _ => ()) <$> t.query ctx q params
  | queryAtoms q params => (fun _ => ()) <$> t.queryAtoms ctx q params
  | select q params => (fun _ => ()) <$> t.select ctx q params
  | selectAtom q params => (fun _ => ()) <$> t.selectAtom ctx q params
  | aggregate a params => (fun _ => ()) <$> t.aggregate ctx a params

/-- The rows that the operation writes have a property, whatever the occasion, those that it changes if they
had it before. -/
def Leaves (t : RecordTable ρ σ) (Q : Row → Prop) : Use ρ → Prop
  | write (.set record) => ∀ now row normal, t.toRow (t.model.saved now record) = .ok row →
      TakenIn t.spec row normal → Q normal
  | write (.update u params) => ∀ bound row normal, u.bind t.spec params = .ok bound → Q row →
      TakenIn t.spec (Table.assign bound.assignments row) normal → Q normal
  | setAtom a => ∀ row normal, t.rowOfAtom a = .ok row → TakenIn t.spec row normal → Q normal
  | _ => True

end Use

section

variable {name : String} {P : Table → Prop} {ctx : Context} {t : RecordTable ρ Connection}

theorem keeps_underKey {α : Type} {key : String} {call : Value → Call Connection α}
    (keeps : ∀ v, (call v).Keeps (Connection.All name P)) :
    (t.underKey ctx key call).Keeps (Connection.All name P) :=
  (Call.keeps_lift _).bind fun v => (Call.keeps_check ctx).bind fun _ => keeps v

theorem keeps_underBound {α β : Type} {bound : Except Error β} {call : β → Call Connection α}
    (keeps : ∀ b, bound = .ok b → (call b).Keeps (Connection.All name P)) :
    (underBound ctx bound call).Keeps (Connection.All name P) :=
  Call.keeps_lift_bind fun b made => (Call.keeps_check ctx).bind fun _ => keeps b made

theorem keeps_load (row : Row) : (t.load ctx row).Keeps (Connection.All name P) :=
  (Call.keeps_lift _).bind fun _ => Model.keeps_afterLoad _ _ _

theorem keeps_loadAll (rows : List Row) : (t.loadAll ctx rows).Keeps (Connection.All name P) := by
  induction rows with
  | nil => exact Call.keeps_pure []
  | cons row rest ih =>
      exact (keeps_load row).bind fun _ => ih.bind fun _ => Call.keeps_pure _

end

variable {model : Model ρ} {table : TableDef} {Q : Row → Prop} {ctx : Context}

/-- A write keeps what all rows have in common if it leaves that to the rows that it writes. -/
theorem Write.keeps_run {w : Write ρ} (leaves : (Use.write w).Leaves (inMemory model table) Q) :
    (w.run (inMemory model table) ctx).Keeps
      (Connection.All table.name (Table.AllRows table.spec Q)) := by
  cases w with
  | set record =>
      show ((Write.set record).run ((inMemory model table).withAfter model.afterHooks) ctx).Keeps _
      rw [run_set]
      have prepared : ((inMemory model table).saving ctx record).Prepares fun p =>
          ∃ now, (inMemory model table).toRow (model.saved now record) = .ok p.2 :=
        Call.prepares_of_quietly fun s => (saving_quietly record).mono fun _ made => ⟨s.occasion ctx, made⟩
      refine Call.keeps_stages prepared (fun p made => ?_) fun p _ => Model.afterSave_answers _ _ _
      obtain ⟨now, made⟩ := made
      refine Connection.keeps_upsert fun _ t after had put => ?_
      exact had.upsert put fun normal taken => leaves now p.2 normal made taken
  | delete key =>
      show ((Write.delete key).run ((inMemory model table).withAfter model.afterHooks) ctx).Keeps _
      rw [run_delete]
      refine Call.keeps_stages (Q := fun _ => True) ?_ (fun v _ => ?_)
        fun _ _ => Model.afterDelete_answers _ _
      · refine (Call.prepares_lift fun _ _ => trivial).bind fun v _ => ?_
        refine (Call.prepares_check ctx).bind fun _ _ => ?_
        exact (Call.prepares_of_quietly fun _ => Model.beforeDelete_quietly _ key).bind fun _ _ =>
          Call.prepares_pure trivial
      · exact Connection.keeps_delete fun _ t after had gone => had.delete? gone
  | update u params =>
      refine Call.Keeps.map (keeps_underBound fun bound made => ?_) _
      refine Connection.keeps_update fun _ t n after had updated => ?_
      exact had.update (fun row normal passed taken => leaves bound row normal made passed taken) updated

/-- An operation keeps what all rows have in common if it leaves that to the rows that it writes. -/
theorem Use.keeps_run {op : Use ρ} (leaves : op.Leaves (inMemory model table) Q) :
    (op.run (inMemory model table) ctx).Keeps
      (Connection.All table.name (Table.AllRows table.spec Q)) := by
  cases op with
  | write w => exact Write.keeps_run leaves
  | setAtom a =>
      refine (Call.keeps_check ctx).bind fun _ => Call.keeps_lift_bind fun row made => ?_
      refine Connection.keeps_upsert fun _ t after had put => ?_
      exact had.upsert put fun normal taken => leaves row normal made taken
  | deleteAtom key =>
      exact keeps_underKey fun v => Connection.keeps_delete fun _ t after had gone => had.delete? gone
  | has key => exact Call.Keeps.map (keeps_underKey fun v => Connection.keeps_has v) _
  | get key =>
      exact Call.Keeps.map (keeps_underKey fun v =>
        (Connection.keeps_get v).bind fun row => keeps_load row) _
  | getAtom key =>
      exact Call.Keeps.map (keeps_underKey fun v =>
        (Connection.keeps_get v).bind fun row => Call.keeps_lift _) _
  | query q params =>
      exact Call.Keeps.map (keeps_underBound fun bound _ =>
        (Connection.keeps_query bound).bind fun rows => keeps_loadAll rows) _
  | queryAtoms q params =>
      exact Call.Keeps.map (keeps_underBound fun bound _ =>
        (Connection.keeps_query bound).bind fun rows => Call.keeps_lift _) _
  | select q params =>
      exact Call.Keeps.map (keeps_underBound fun bound _ =>
        (Connection.keeps_select bound).bind fun row => keeps_load row) _
  | selectAtom q params =>
      exact Call.Keeps.map (keeps_underBound fun bound _ =>
        (Connection.keeps_select bound).bind fun row => Call.keeps_lift _) _
  | aggregate a params =>
      exact Call.Keeps.map (keeps_underBound fun bound _ => Connection.keeps_aggregate bound) _

end Depot.RecordTable

namespace Depot.Relational

/-! ### Runs -/

/-- A call on the database, or in the open transaction of a name: what comes of it, and the session
after it. Nothing comes of it if no transaction is open under the name. -/
def on {α : Type} (tx : Option String) (call : Call Connection α) (s : Session System) :
    Option (Except Error α) × Session System :=
  match tx with
  | none =>
    let (result, t) := call (s.withBackend { database := s.backend.database })
    (some result, t.withBackend (s.backend.withDatabase t.backend.database))
  | some name =>
    match s.backend.transactions.get? name with
    | none => (none, s)
    | some tx =>
      let c : Connection := { database := s.backend.database, transaction := some tx }
      let (result, t) := call (s.withBackend c)
      let sys := s.backend.withDatabase t.backend.database
      (some result, t.withBackend (sys.withTransaction name (t.backend.transaction.getD tx)))

/-- One thing that happens around a table of records: an operation of it, directly or in the open
transaction of a name, or a step of its database. -/
inductive Turn (ρ : Type)
  | use (tx : Option String) (ctx : Context) (op : RecordTable.Use ρ)
  | other (step : Step)

variable {ρ : Type}

/-- The session after a turn. -/
def Turn.after (t : RecordTable ρ Connection) (s : Session System) : Turn ρ → Session System
  | use tx ctx op => (on tx (op.run t ctx) s).2
  | other step => step.after s

/-- The session after a list of turns. -/
def Turn.run (t : RecordTable ρ Connection) (turns : List (Turn ρ)) (s : Session System) :
    Session System :=
  turns.foldl (after t) s

/-- The step leaves a table to its records: it runs no statement that writes it, and if it creates it
anew, then of the same spec. -/
def Step.Cedes (table : TableDef) : Step → Prop
  | direct _ st | within _ _ st => st.table.name = table.name → st.action.isWrite = false
  | createTable made => made.name = table.name → made.spec = table.spec
  | _ => True

/-- The rows that a turn writes have a property, those that it changes if they had it before. -/
def Turn.Leaves (t : RecordTable ρ Connection) (Q : Row → Prop) : Turn ρ → Prop
  | use _ _ op => op.Leaves t Q
  | other step => step.Cedes t.table

/-- A table has a property, and so have its copies in all open transactions. -/
structure System.All (name : String) (P : Table → Prop) (sys : System) : Prop where
  database : sys.database.All name P
  transactions : ∀ tx opened, sys.transactions.get? tx = some opened → opened.All name P

namespace System.All

/-- A table without rows in a database without transactions. -/
theorem fresh (table : TableDef) (Q : Row → Prop) :
    System.All table.name (Table.AllRows table.spec Q)
      { database := { tables := .ofList [(table.name, { spec := table.spec })] } } := by
  refine ⟨fun t found => ?_, fun tx opened held => by cases held⟩
  have nodup : ([(table.name, ({ spec := table.spec } : Table))].map Prod.fst).Nodup :=
    List.nodup_singleton _
  rw [Dict.get?_ofList nodup, Entries.lookup_cons, if_pos rfl] at found
  cases found
  exact ⟨rfl, fun row mem => by cases mem⟩

variable {name : String} {P : Table → Prop} {sys : System}

theorem withTransaction {tx : Transaction} (h : sys.All name P) (under : String) (all : tx.All name P) :
    (sys.withTransaction under tx).All name P := by
  refine ⟨h.database, fun other opened held => ?_⟩
  rw [System.withTransaction, Dict.get?_insert] at held
  split at held
  · cases held
    exact all
  · exact h.transactions other opened held

theorem close (h : sys.All name P) (under : String) : (sys.close under).All name P := by
  refine ⟨h.database, fun other opened held => ?_⟩
  rw [System.close, Dict.get?_erase] at held
  split at held
  · cases held
  · exact h.transactions other opened held

theorem change {result : Except Error Database} (h : sys.All name P)
    (all : ∀ db, result = .ok db → db.All name P) : (sys.change result).2.All name P := by
  cases result with
  | ok db => exact ⟨all db rfl, h.transactions⟩
  | error e => exact h

/-- A call that keeps what is said of the table and its copy on a connection keeps it of all copies. -/
theorem on {α : Type} {s : Session System} (h : s.backend.All name P) (tx : Option String)
    {call : Call Connection α} (keeps : call.Keeps (Connection.All name P)) :
    (Relational.on tx call s).2.backend.All name P := by
  cases tx with
  | none =>
      have start : Connection.All name P { database := s.backend.database } :=
        ⟨h.database, fun _ absent => by cases absent⟩
      exact ⟨(keeps (s.withBackend _) start).database, h.transactions⟩
  | some under =>
      rw [Relational.on]
      cases held : s.backend.transactions.get? under with
      | none => exact h
      | some tx =>
          have own := h.transactions under tx held
          have start : Connection.All name P
              { database := s.backend.database, transaction := some tx } :=
            ⟨h.database, fun _ same => Option.some.inj same ▸ own⟩
          have kept := keeps (s.withBackend _) start
          have inTables : (s.backend.withDatabase _).All name P := ⟨kept.database, h.transactions⟩
          refine inTables.withTransaction under ?_
          cases left : (call (s.withBackend _)).2.backend.transaction with
          | none => exact own
          | some later => exact kept.transaction later left

/-- A commit puts a copy in place, or leaves the table as it is. -/
theorem commit {after : Database} {tx : Transaction} (h : sys.All name P) (all : tx.All name P)
    (versions : ∀ t version, P t → P { t with version })
    (committed : sys.database.commit tx = .ok after) : after.All name P := by
  intro t found
  rw [Database.get?_tables_commit committed] at found
  split at found
  · obtain ⟨copy, copied, rfl⟩ := Option.map_eq_some_iff.1 found
    exact versions copy.table _ (all copy copied)
  · exact h.database t found

end System.All

variable {model : Model ρ} {table : TableDef} {Q : Row → Prop}

theorem Step.after_within (under : String) (ctx : Context) (st : Statement) (s : Session System) :
    (within under ctx st).after s = (on (some under) (st.call ctx) s).2 := by
  cases held : s.backend.transactions.get? under <;> simp only [Step.after, Step.perform, on, held]

theorem Step.allRows_after {s : Session System} {step : Step}
    (h : s.backend.All table.name (Table.AllRows table.spec Q)) (cedes : step.Cedes table) :
    (step.after s).backend.All table.name (Table.AllRows table.spec Q) := by
  cases step with
  | direct ctx st => exact h.on none (Statement.keeps_call cedes)
  | within under ctx st =>
      rw [after_within]
      exact h.on (some under) (Statement.keeps_call cedes)
  | begin under =>
      have begun : (s.backend.withDatabase s.backend.database.begin.2).All table.name
          (Table.AllRows table.spec Q) := ⟨h.database, h.transactions⟩
      exact begun.withTransaction under fun _ copied => by cases copied
  | commit under =>
      cases held : s.backend.transactions.get? under with
      | none =>
          simp only [Step.after, Step.perform, held]
          exact h
      | some tx =>
          rw [Step.after, Step.perform_commit held]
          have own := h.transactions under tx held
          refine (h.change fun db committed => ?_).close under
          exact h.commit own (fun t version had => had.withVersion version) committed
  | rollback under =>
      simp only [Step.after, Step.perform]
      cases s.backend.transactions.get? under with
      | none => exact h
      | some tx => exact h.close under
  | createTable made =>
      refine h.change fun db created => ?_
      rw [Database.createTable] at created
      split at created
      · cases created
      · cases created
        exact h.database.insert fun same => ⟨cedes same, fun row mem => by cases mem⟩
  | dropTable dropped =>
      refine h.change fun db gone => ?_
      rw [Database.dropTable] at gone
      split at gone
      · cases gone
        intro t found
        rw [Dict.get?_erase] at found
        split at found
        · cases found
        · exact h.database t found
      · cases gone
  | wait span => exact h
  | cancel ctx => rwa [Step.backend_after_cancel]

theorem Turn.allRows_after {s : Session System} {turn : Turn ρ}
    (h : s.backend.All table.name (Table.AllRows table.spec Q))
    (leaves : turn.Leaves (RecordTable.inMemory model table) Q) :
    (turn.after (.inMemory model table) s).backend.All table.name (Table.AllRows table.spec Q) := by
  cases turn with
  | use tx ctx op => exact h.on tx (RecordTable.Use.keeps_run leaves)
  | other step => exact Step.allRows_after h leaves

/-- What all rows of a table and of its copies have in common they still have after a run whose turns
leave it to the rows that they write. -/
theorem Turn.allRows_run {turns : List (Turn ρ)} {s : Session System}
    (h : s.backend.All table.name (Table.AllRows table.spec Q))
    (leaves : ∀ turn ∈ turns, turn.Leaves (RecordTable.inMemory model table) Q) :
    (Turn.run (.inMemory model table) turns s).backend.All table.name
      (Table.AllRows table.spec Q) := by
  induction turns generalizing s with
  | nil => exact h
  | cons turn rest ih =>
      rw [List.forall_mem_cons] at leaves
      exact ih (Turn.allRows_after h leaves.1) leaves.2

end Depot.Relational
