import Depot.Proofs.Relational.Statement

/-!
# Databases in use

A `System` is a database together with the transactions that are open on it, each under a name of
its own. Whatever its users do is a list of steps: statements, directly or in a transaction,
transactions that begin, commit or roll back, tables that are created or dropped, and in between
time that passes and signals that are raised. Any interleaving of any number of transactions is
such a list, so a statement about all interleavings is one about all lists of steps.
-/

namespace Depot.Relational

/-- A database with its open transactions, under their names. -/
structure System where
  database : Database := {}
  transactions : Dict Transaction := .empty

/-- One thing that happens to a system. -/
inductive Step
  /-- A statement on the database. -/
  | direct (ctx : Context) (st : Statement)
  /-- A statement in an open transaction. -/
  | within (tx : String) (ctx : Context) (st : Statement)
  | begin (tx : String)
  | commit (tx : String)
  | rollback (tx : String)
  | createTable (table : TableDef)
  | dropTable (table : String)
  | wait (span : Time)
  | cancel (ctx : Context)

/-- What comes of a step: nothing, if it names a transaction that is not open. -/
abbrev Outcome := Option (Except Error Answer)

namespace System

/-- The system with another database. -/
def withDatabase (sys : System) (database : Database) : System := { sys with database }

/-- The system with a transaction open under a name. -/
def withTransaction (sys : System) (name : String) (tx : Transaction) : System :=
  { sys with transactions := sys.transactions.insert name tx }

/-- The system without the transaction of a name. -/
def close (sys : System) (name : String) : System :=
  { sys with transactions := sys.transactions.erase name }

/-- A change of the database alone: it takes place or fails. -/
def change (sys : System) : Except Error Database → Except Error Answer × System
  | .ok database => (.ok .done, sys.withDatabase database)
  | .error e => (.error e, sys)

end System

/-- What comes of a step, and the session after it. A finished transaction is closed, whether its
commit went through or not. -/
def Step.perform (s : Session System) : Step → Outcome × Session System
  | direct ctx st =>
    let (result, t) := st.call ctx (s.withBackend { database := s.backend.database })
    (some result, t.withBackend (s.backend.withDatabase t.backend.database))
  | within name ctx st =>
    match s.backend.transactions.get? name with
    | none => (none, s)
    | some tx =>
      let c : Connection := { database := s.backend.database, transaction := some tx }
      let (result, t) := st.call ctx (s.withBackend c)
      let sys := s.backend.withDatabase t.backend.database
      (some result, t.withBackend (sys.withTransaction name (t.backend.transaction.getD tx)))
  | begin name =>
    let (tx, database) := s.backend.database.begin
    (some (.ok (.count tx.id)),
      s.withBackend ((s.backend.withDatabase database).withTransaction name tx))
  | commit name =>
    match s.backend.transactions.get? name with
    | none => (none, s)
    | some tx =>
      let (result, sys) := s.backend.change (s.backend.database.commit tx)
      (some result, s.withBackend (sys.close name))
  | rollback name =>
    match s.backend.transactions.get? name with
    | none => (none, s)
    | some _ => (some (.ok .done), s.withBackend (s.backend.close name))
  | createTable table =>
    let (result, sys) := s.backend.change (s.backend.database.createTable table)
    (some result, s.withBackend sys)
  | dropTable name =>
    let (result, sys) := s.backend.change (s.backend.database.dropTable name)
    (some result, s.withBackend sys)
  | wait span => (some (.ok .done), { s with now := s.now + span })
  | cancel ctx => (some (.ok .done), s.cancel ctx)

/-- The session after a step. -/
def Step.after (step : Step) (s : Session System) : Session System := (step.perform s).2

/-- The session after a list of steps. -/
def after (steps : List Step) (s : Session System) : Session System :=
  steps.foldl (fun s step => step.after s) s

/-- What comes of each step of a list. -/
def outcomes : List Step → Session System → List Outcome
  | [], _ => []
  | step :: rest, s => (step.perform s).1 :: outcomes rest (step.after s)

@[simp] theorem after_nil (s : Session System) : after [] s = s := rfl

theorem after_cons (step : Step) (rest : List Step) (s : Session System) :
    after (step :: rest) s = after rest (step.after s) := rfl

theorem after_append (first rest : List Step) (s : Session System) :
    after (first ++ rest) s = after rest (after first s) := by
  rw [after, List.foldl_append]
  rfl

theorem outcomes_cons (step : Step) (rest : List Step) (s : Session System) :
    outcomes (step :: rest) s = (step.perform s).1 :: outcomes rest (step.after s) := rfl

theorem outcomes_append (first rest : List Step) (s : Session System) :
    outcomes (first ++ rest) s = outcomes first s ++ outcomes rest (after first s) := by
  induction first generalizing s with
  | nil => rfl
  | cons step first ih =>
      rw [List.cons_append, outcomes_cons, outcomes_cons, ih, after_cons, List.cons_append]

/-- What every step keeps, a whole run keeps. -/
theorem after_induction {P : Session System → Prop} {steps : List Step} {s : Session System}
    (init : P s) (step : ∀ step ∈ steps, ∀ s, P s → P (step.after s)) : P (after steps s) := by
  induction steps generalizing s with
  | nil => exact init
  | cons first rest ih =>
      rw [after_cons]
      exact ih (step first (by simp) s init) fun later h => step later (by simp [h])

/-! ### A table to try things on -/

/-- A table of notes, each of them no more than its key. -/
def notes : TableDef where
  name := "notes"
  spec := {
    typeName := "Note"
    package := ""
    fields := [(FieldSpec.plain "id" .string).asKey]
    key := (FieldSpec.plain "id" .string).asKey
    names_ne := by decide
    names_nodup := by decide
    columns_nodup := by decide
    keys_eq := rfl
    key_nullable := rfl }

/-- The row of a note. -/
def note (id : String) : Row := .ofList [("id", .string id)]

/-- The upsert of a note. -/
def putNote (id : String) : Statement := ⟨notes, .upsert (note id)⟩

/-- A context without a deadline. -/
def now : Context := { signal := 0 }

end Depot.Relational
