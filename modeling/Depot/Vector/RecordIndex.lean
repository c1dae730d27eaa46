import Depot.Codec
import Depot.Record.Model
import Depot.Vector.Provider

/-!
# Vector indexes of records

A `RecordIndex` keeps vectors whose metadata are records of one type, encoded by a codec. Filters
name declared fields and are checked against the spec before the provider sees them. The typed view
runs the hooks of the type, the atom view runs none.

Writing checks the context, the id and the vector before any hook runs. The results of a search are
decoded one after the other, and the first one that cannot be read fails the search.
-/

namespace Depot

structure VectorOf (α : Type) where
  id : String
  vector : Components
  /-- The distance to the query, zero where there was none. -/
  score : Binary32 := .zero
  metadata : α

structure RecordIndex (ρ σ : Type) where
  model : Model ρ
  spec : Spec
  codec : Codec
  provider : Vector.Provider σ

namespace RecordIndex

variable {ρ σ : Type}

def encode (index : RecordIndex ρ σ) (record : ρ) : Except Error (List UInt8) :=
  index.codec.encode (index.model.toValue record)

def decode (index : RecordIndex ρ σ) (bytes : List UInt8) : Except Error ρ := do
  index.model.ofValue (← index.codec.decode bytes)

/-- A call under an id that an index can address. -/
def underId {α : Type} (ctx : Context) (id : String) (call : Call σ α) : Call σ α := do
  Call.lift (checkKey id)
  Call.check ctx
  call

/-- An id that an index can address, and a vector that it can keep. -/
def checkEntry (id : String) (vector : Components) : Except Error Unit := do
  checkKey id
  vector.validate

/-! ### Both views -/

def has (index : RecordIndex ρ σ) (ctx : Context) (id : String) : Call σ Bool :=
  underId ctx id (index.provider.has ctx id)

def list (index : RecordIndex ρ σ) (ctx : Context) (limit : Nat) : Call σ (List String) := do
  Call.check ctx
  index.provider.list ctx limit

/-- The hits of a search, once its vector and filter are checked. -/
def searchHits (index : RecordIndex ρ σ) (ctx : Context) (vector : Components) (k : Nat)
    (filter : Option Filter) : Call σ (List Vector.Hit) := do
  Call.check ctx
  Call.lift vector.validate
  if let some filter := filter then Call.lift (filter.checkFor index.spec)
  index.provider.search ctx vector k filter

def queryHits (index : RecordIndex ρ σ) (ctx : Context) (vector : Components) (k : Nat)
    (filter : Filter) : Call σ (List Vector.Hit) := do
  Call.check ctx
  Call.lift vector.validate
  Call.lift (filter.checkFor index.spec)
  index.provider.query ctx vector k filter

def filterHits (index : RecordIndex ρ σ) (ctx : Context) (filter : Filter) (limit : Nat) :
    Call σ (List Vector.Hit) := do
  Call.check ctx
  Call.lift (filter.checkFor index.spec)
  index.provider.filter ctx filter limit

/-! ### Records -/

/-- A hit with its record, as the hook after a load leaves it. -/
def load (index : RecordIndex ρ σ) (ctx : Context) (hit : Vector.Hit) : Call σ (VectorOf ρ) := do
  let record ← Call.lift (index.decode hit.metadata)
  let record ← index.model.afterLoad ctx hit.id record
  return ⟨hit.id, hit.vector, hit.score, record⟩

def loadAll (index : RecordIndex ρ σ) (ctx : Context) : List Vector.Hit → Call σ (List (VectorOf ρ))
  | [] => return []
  | hit :: rest => do
    let first ← index.load ctx hit
    let others ← index.loadAll ctx rest
    return first :: others

/-- Checks a vector, runs the hook before its save and encodes the record that it leaves. -/
def prepare (index : RecordIndex ρ σ) (ctx : Context) (v : VectorOf ρ) :
    Call σ (VectorOf ρ × Except Error Vector.Entry) :=
  match checkEntry v.id v.vector with
  | .error e => return (v, .error e)
  | .ok () => do
    let (record, ready) ← index.model.beforeSave ctx v.id v.metadata
    let encoded := ready.bind fun _ => index.encode record
    return ({ v with metadata := record }, encoded.map fun bytes => ⟨v.id, v.vector, bytes⟩)

def upsert (index : RecordIndex ρ σ) (ctx : Context) (id : String) (vector : Components) (record : ρ) :
    Call σ (Saved ρ) := do
  match ← Call.attempt (Call.check ctx) with
  | .error e => return ⟨record, .error e⟩
  | .ok () =>
    let (v, prepared) ← index.prepare ctx { id, vector, metadata := record }
    let outcome ← Call.attempt do
      index.provider.upsert ctx (← Call.lift prepared)
      Call.lift (← index.model.afterSave ctx id v.metadata)
    return ⟨v.metadata, outcome⟩

/-- Prepares vectors one after the other up to the first that fails. The records are as their hooks
leave them. -/
def prepareAll (index : RecordIndex ρ σ) (ctx : Context) :
    List (VectorOf ρ) → Call σ (List (VectorOf ρ) × Except Error (List Vector.Entry))
  | [] => return ([], .ok [])
  | v :: rest => do
    let (v, prepared) ← index.prepare ctx v
    match prepared with
    | .error e => return (v :: rest, .error e)
    | .ok entry =>
      let (others, prepared) ← index.prepareAll ctx rest
      return (v :: others, prepared.map fun entries => entry :: entries)

/-- Writes many vectors. Hooks after the save run for all of them. -/
def upsertBatch (index : RecordIndex ρ σ) (ctx : Context) (vectors : List (VectorOf ρ)) :
    Call σ (List (VectorOf ρ) × Except Error Unit) := do
  match ← Call.attempt (Call.check ctx) with
  | .error e => return (vectors, .error e)
  | .ok () =>
    let (vectors, prepared) ← index.prepareAll ctx vectors
    let outcome ← Call.attempt do
      index.provider.upsertBatch ctx (← Call.lift prepared)
      Call.lift (← index.model.afterSaves ctx (vectors.map fun v => (v.id, v.metadata)))
    return (vectors, outcome)

def get (index : RecordIndex ρ σ) (ctx : Context) (id : String) : Call σ (VectorOf ρ) :=
  underId ctx id do
    index.load ctx (← index.provider.get ctx id)

def delete (index : RecordIndex ρ σ) (ctx : Context) (id : String) : Call σ Unit :=
  underId ctx id do
    index.model.beforeDelete ctx id
    index.provider.delete ctx id
    Call.lift (← index.model.afterDelete ctx id)

/-- Checks ids and runs the hooks before their deletes, one after the other. -/
def prepareDeletes (index : RecordIndex ρ σ) (ctx : Context) : List String → Call σ Unit
  | [] => return ()
  | id :: rest => do
    Call.lift (checkKey id)
    index.model.beforeDelete ctx id
    index.prepareDeletes ctx rest

/-- Deletes those ids that are there. Hooks run for all ids. -/
def deleteBatch (index : RecordIndex ρ σ) (ctx : Context) (ids : List String) : Call σ Unit := do
  Call.check ctx
  index.prepareDeletes ctx ids
  index.provider.deleteBatch ctx ids
  Call.lift (← index.model.afterDeletes ctx ids)

/-- The `k` nearest vectors, among those that satisfy a filter if there is one. -/
def search (index : RecordIndex ρ σ) (ctx : Context) (vector : Components) (k : Nat)
    (filter : Option Filter) : Call σ (List (VectorOf ρ)) := do
  index.loadAll ctx (← index.searchHits ctx vector k filter)

def query (index : RecordIndex ρ σ) (ctx : Context) (vector : Components) (k : Nat) (filter : Filter) :
    Call σ (List (VectorOf ρ)) := do
  index.loadAll ctx (← index.queryHits ctx vector k filter)

def filter (index : RecordIndex ρ σ) (ctx : Context) (filter : Filter) (limit : Nat) :
    Call σ (List (VectorOf ρ)) := do
  index.loadAll ctx (← index.filterHits ctx filter limit)

/-! ### Atoms -/

def loadAtom (index : RecordIndex ρ σ) (hit : Vector.Hit) : Except Error (VectorOf Atom) := do
  let record ← index.decode hit.metadata
  return ⟨hit.id, hit.vector, hit.score, ← index.model.atomize index.spec record⟩

/-- Checks a vector and encodes its atom. -/
def prepareAtom (index : RecordIndex ρ σ) (v : VectorOf Atom) : Except Error Vector.Entry := do
  checkEntry v.id v.vector
  return ⟨v.id, v.vector, ← index.encode (← index.model.deatomize index.spec v.metadata)⟩

def upsertAtom (index : RecordIndex ρ σ) (ctx : Context) (v : VectorOf Atom) : Call σ Unit := do
  Call.check ctx
  index.provider.upsert ctx (← Call.lift (index.prepareAtom v))

def upsertAtoms (index : RecordIndex ρ σ) (ctx : Context) (vectors : List (VectorOf Atom)) :
    Call σ Unit := do
  Call.check ctx
  index.provider.upsertBatch ctx (← Call.lift (vectors.mapM index.prepareAtom))

def getAtom (index : RecordIndex ρ σ) (ctx : Context) (id : String) : Call σ (VectorOf Atom) :=
  underId ctx id do
    Call.lift (index.loadAtom (← index.provider.get ctx id))

def deleteAtom (index : RecordIndex ρ σ) (ctx : Context) (id : String) : Call σ Unit :=
  underId ctx id (index.provider.delete ctx id)

def deleteAtoms (index : RecordIndex ρ σ) (ctx : Context) (ids : List String) : Call σ Unit := do
  Call.lift (checkKeys ids)
  Call.check ctx
  index.provider.deleteBatch ctx ids

def searchAtoms (index : RecordIndex ρ σ) (ctx : Context) (vector : Components) (k : Nat)
    (filter : Option Filter) : Call σ (List (VectorOf Atom)) := do
  Call.lift ((← index.searchHits ctx vector k filter).mapM index.loadAtom)

def queryAtoms (index : RecordIndex ρ σ) (ctx : Context) (vector : Components) (k : Nat)
    (filter : Filter) : Call σ (List (VectorOf Atom)) := do
  Call.lift ((← index.queryHits ctx vector k filter).mapM index.loadAtom)

def filterAtoms (index : RecordIndex ρ σ) (ctx : Context) (filter : Filter) (limit : Nat) :
    Call σ (List (VectorOf Atom)) := do
  Call.lift ((← index.filterHits ctx filter limit).mapM index.loadAtom)

end RecordIndex

end Depot
