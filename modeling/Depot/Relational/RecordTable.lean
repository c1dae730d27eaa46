import Depot.Relational.Executor
import Depot.Relational.RowKey
import Depot.Statement.Bind
import Depot.Statement.Evaluate

/-!
# Tables of records

A `RecordTable` keeps the records of one type as rows, the field of a record in the column that its
spec names. It has two views on the same rows: the typed view works on records and runs their hooks,
the atom view works on atoms and runs none. Whether it works inside a transaction is up to the
backend it is run on.

A record is saved under the key it holds, so there is no key to pass and the hook before a save may
change it. Key texts are read and statements are bound before the context is checked, and the
context is checked before hooks and executor.
-/

namespace Depot

structure RecordTable (ρ σ : Type) where
  model : Model ρ
  table : TableDef
  executor : Relational.Executor σ

namespace RecordTable

variable {ρ σ : Type}

def spec (t : RecordTable ρ σ) : Spec := t.table.spec

/-! ### Between records and rows -/

/-- The row of a record, null where the record writes nothing. -/
def toRow (t : RecordTable ρ σ) (record : ρ) : Except Error Row := do
  let members ← Atom.recordMembers t.spec (t.model.toValue record)
  return .ofList (t.spec.fields.map fun f => (f.column, (members.lookup f.name).getD .null))

/-- The record of a row. -/
def ofRow (t : RecordTable ρ σ) (row : Row) : Except Error ρ :=
  t.model.ofValue (.ofDict (.ofList (t.spec.fields.map fun f => (f.name, Row.cell row f.column))))

/-- The row of an atom, by way of its record. -/
def rowOfAtom (t : RecordTable ρ σ) (a : Atom) : Except Error Row := do
  t.toRow (← t.model.deatomize t.spec a)

/-- The atom of a row, by way of its record. -/
def atomOfRow (t : RecordTable ρ σ) (row : Row) : Except Error Atom := do
  t.model.atomize t.spec (← t.ofRow row)

/-- The text under which hooks are told of a row. -/
def keyText (t : RecordTable ρ σ) (row : Row) : String :=
  row.keyText t.table.keyColumn

/-! ### Both views -/

/-- A call that addresses a row by a key text. -/
def underKey {α : Type} (t : RecordTable ρ σ) (ctx : Context) (key : String) (call : Value → Call σ α) :
    Call σ α := do
  let key ← Call.lift (t.spec.key.keyOf key)
  Call.check ctx
  call key

def underBound {α β : Type} (ctx : Context) (bound : Except Error β) (call : β → Call σ α) :
    Call σ α := do
  let bound ← Call.lift bound
  Call.check ctx
  call bound

def has (t : RecordTable ρ σ) (ctx : Context) (key : String) : Call σ Bool :=
  t.underKey ctx key fun key => t.executor.has ctx t.table key

/-- Assigns to the rows meant, and counts them. -/
def update (t : RecordTable ρ σ) (ctx : Context) (u : Update) (params : Params) : Call σ Nat :=
  underBound ctx (u.bind t.spec params) fun u => t.executor.update ctx t.table u

def aggregate (t : RecordTable ρ σ) (ctx : Context) (a : Aggregate) (params : Params) :
    Call σ Binary64 :=
  underBound ctx (a.bind t.spec params) fun a => t.executor.aggregate ctx t.table a

/-! ### Records -/

/-- The record of a row, as the hook after a load leaves it. -/
def load (t : RecordTable ρ σ) (ctx : Context) (row : Row) : Call σ ρ := do
  let record ← Call.lift (t.ofRow row)
  t.model.afterLoad ctx (t.keyText row) record

/-- The records of rows, the first one that cannot be loaded ending the call. -/
def loadAll (t : RecordTable ρ σ) (ctx : Context) : List Row → Call σ (List ρ)
  | [] => return []
  | row :: rest => do
    let first ← t.load ctx row
    let others ← t.loadAll ctx rest
    return first :: others

def get (t : RecordTable ρ σ) (ctx : Context) (key : String) : Call σ ρ :=
  t.underKey ctx key fun key => do
    t.load ctx (← t.executor.get ctx t.table key)

/-- Saves a record under the key that it holds. A failing hook before the save ends it before the
executor is called; one after it is reported although the record was saved. -/
def set (t : RecordTable ρ σ) (ctx : Context) (record : ρ) : Call σ (Saved ρ) := do
  match ← Call.attempt (do Call.check ctx; Call.lift (t.toRow record)) with
  | .error e => return ⟨record, .error e⟩
  | .ok row =>
    let (record, ready) ← t.model.beforeSave ctx (t.keyText row) record
    let outcome ← Call.attempt do
      Call.lift ready
      let row ← Call.lift (t.toRow record)
      t.executor.upsert ctx t.table row
      Call.lift (← t.model.afterSave ctx (t.keyText row) record)
    return ⟨record, outcome⟩

/-- Deletes the row of a key. The hooks are told the key text as it was given. -/
def delete (t : RecordTable ρ σ) (ctx : Context) (key : String) : Call σ Unit :=
  t.underKey ctx key fun v => do
    t.model.beforeDelete ctx key
    t.executor.delete ctx t.table v
    Call.lift (← t.model.afterDelete ctx key)

def query (t : RecordTable ρ σ) (ctx : Context) (q : Query) (params : Params) : Call σ (List ρ) :=
  underBound ctx (q.bind t.spec params) fun q => do
    t.loadAll ctx (← t.executor.query ctx t.table q)

/-- The first record of a query. -/
def select (t : RecordTable ρ σ) (ctx : Context) (q : Query) (params : Params) : Call σ ρ :=
  underBound ctx (q.bind t.spec params) fun q => do
    t.load ctx (← t.executor.select ctx t.table q)

/-! ### Atoms -/

def getAtom (t : RecordTable ρ σ) (ctx : Context) (key : String) : Call σ Atom :=
  t.underKey ctx key fun key => do
    Call.lift (t.atomOfRow (← t.executor.get ctx t.table key))

/-- Saves an atom under the key that it holds. -/
def setAtom (t : RecordTable ρ σ) (ctx : Context) (a : Atom) : Call σ Unit := do
  Call.check ctx
  let row ← Call.lift (t.rowOfAtom a)
  t.executor.upsert ctx t.table row

def deleteAtom (t : RecordTable ρ σ) (ctx : Context) (key : String) : Call σ Unit :=
  t.underKey ctx key fun key => t.executor.delete ctx t.table key

def queryAtoms (t : RecordTable ρ σ) (ctx : Context) (q : Query) (params : Params) :
    Call σ (List Atom) :=
  underBound ctx (q.bind t.spec params) fun q => do
    Call.lift ((← t.executor.query ctx t.table q).mapM t.atomOfRow)

def selectAtom (t : RecordTable ρ σ) (ctx : Context) (q : Query) (params : Params) : Call σ Atom :=
  underBound ctx (q.bind t.spec params) fun q => do
    Call.lift (t.atomOfRow (← t.executor.select ctx t.table q))

end RecordTable

end Depot
