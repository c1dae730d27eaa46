import Depot.Dict
import Depot.Relational.Executor
import Depot.Relational.Table

/-!
# Database in memory

A database holds tables under their names. A transaction works on copies of the tables it touches,
taken when it first touches them. Its commit puts the copies it wrote in place of the tables, unless
one of those has changed since it was copied: then the commit fails and nothing is put in place.

A `Connection` is what statements run on: the database alone, or the database and the transaction
they run in.
-/

namespace Depot.Relational

/-- The copy of a table in a transaction. -/
structure Copy where
  table : Table
  /-- The version of the table when it was copied. -/
  base : Nat
  /-- Whether the transaction wrote the copy. -/
  isWritten : Bool := false

structure Transaction where
  id : Nat
  copies : Dict Copy := .empty

structure Database where
  tables : Dict Table := .empty
  /-- How many transactions were begun. -/
  begun : Nat := 0

structure Connection where
  database : Database
  transaction : Option Transaction := none

namespace Database

def createTable (db : Database) (table : TableDef) : Except Error Database :=
  if db.tables.contains table.name then .error (.tableExists table.name)
  else .ok { db with tables := db.tables.insert table.name { spec := table.spec } }

def dropTable (db : Database) (name : String) : Except Error Database :=
  if db.tables.contains name then .ok { db with tables := db.tables.erase name }
  else .error (.tableNotFound name)

def tableNames (db : Database) : List String := db.tables.keys

/-- Begins a transaction. Transactions are numbered from one. -/
def begin (db : Database) : Transaction × Database :=
  (⟨db.begun + 1, .empty⟩, { db with begun := db.begun + 1 })

/-- The copies that a transaction wrote, by the names of their tables. -/
def written (tx : Transaction) : List (String × Copy) :=
  tx.copies.entries.filter fun c => c.2.isWritten

/-- Whether the table of a written copy is still as it was copied. -/
def checkCopy (db : Database) (tx : Transaction) (c : String × Copy) : Except Error Unit :=
  match db.tables.get? c.1 with
  | none => .error (.tableNotFound c.1)
  | some current =>
    if current.version = c.2.base then .ok ()
    else
      .error (.conflict
        ("table '" ++ c.1 ++ "' changed during transaction " ++ toString tx.id))

/-- Puts a written copy in place, as the next version of its table. -/
def putCopy (tables : Dict Table) (c : String × Copy) : Dict Table :=
  tables.insert c.1 { c.2.table with version := c.2.base + 1 }

/-- Puts in place what a transaction wrote, all of it or nothing. -/
def commit (db : Database) (tx : Transaction) : Except Error Database := do
  (written tx).forM (db.checkCopy tx)
  return { db with tables := (written tx).foldl putCopy db.tables }

/-- The copy of a table in a transaction, taken now if the transaction has none yet. -/
def copyOf (db : Database) (tx : Transaction) (name : String) : Except Error Copy :=
  match tx.copies.get? name with
  | some copy => .ok copy
  | none =>
    match db.tables.get? name with
    | some table => .ok { table, base := table.version }
    | none => .error (.tableNotFound name)

end Database

namespace Connection

/-- Reads a table. A transaction keeps the copy that it reads. -/
def read {α : Type} (name : String) (f : Table → Except Error α) : Call Connection α := do
  let c ← Call.backend
  match c.transaction with
  | none =>
    match c.database.tables.get? name with
    | some table => Call.lift (f table)
    | none => Call.fail (.tableNotFound name)
  | some tx =>
    let copy ← Call.lift (c.database.copyOf tx name)
    Call.setBackend { c with transaction := some { tx with copies := tx.copies.insert name copy } }
    Call.lift (f copy.table)

/-- Writes a table, or leaves it as it is if the change fails. A transaction keeps the copy that it
wrote, or tried to. -/
def write {α : Type} (name : String) (f : Table → Except Error (α × Table)) : Call Connection α := do
  let c ← Call.backend
  match c.transaction with
  | none =>
    match c.database.tables.get? name with
    | some table =>
      let (a, table) ← Call.lift (f table)
      let database := { c.database with tables := c.database.tables.insert name table }
      Call.setBackend { c with database }
      return a
    | none => Call.fail (.tableNotFound name)
  | some tx =>
    let copy ← Call.lift (c.database.copyOf tx name)
    let keep (copy : Copy) : Call Connection Unit :=
      Call.setBackend { c with transaction := some { tx with copies := tx.copies.insert name copy } }
    keep copy
    let (a, table) ← Call.lift (f copy.table)
    keep { copy with table, isWritten := true }
    return a

/-! ### The executor -/

def get (ctx : Context) (table : TableDef) (key : Value) : Call Connection Row := do
  Call.check ctx
  read table.name fun t =>
    match t.find? key with
    | some row => .ok row
    | none => .error (rowNotFound table.name key)

def upsert (ctx : Context) (table : TableDef) (row : Row) : Call Connection Unit := do
  Call.check ctx
  write table.name fun t => (t.upsert row).map fun t => ((), t)

def delete (ctx : Context) (table : TableDef) (key : Value) : Call Connection Unit := do
  Call.check ctx
  write table.name fun t =>
    match t.delete? key with
    | some t => .ok ((), t)
    | none => .error (rowNotFound table.name key)

def has (ctx : Context) (table : TableDef) (key : Value) : Call Connection Bool := do
  Call.check ctx
  read table.name fun t => .ok (t.position? key).isSome

def query (ctx : Context) (table : TableDef) (q : BoundQuery) : Call Connection (List Row) := do
  Call.check ctx
  read table.name fun t => .ok (t.query q)

def update (ctx : Context) (table : TableDef) (u : BoundUpdate) : Call Connection Nat := do
  Call.check ctx
  write table.name fun t => t.update u

def aggregate (ctx : Context) (table : TableDef) (a : BoundAggregate) : Call Connection Binary64 := do
  Call.check ctx
  read table.name fun t => t.aggregate a

def executor : Executor Connection where
  get
  upsert
  delete
  has
  query
  select := selectFirst query
  update
  aggregate

end Connection

end Depot.Relational
