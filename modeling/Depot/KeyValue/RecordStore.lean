import Depot.Codec
import Depot.KeyValue.Provider
import Depot.Record.Model

/-!
# Key-value stores of records

A `RecordStore` keeps the records of one type in a provider, encoded by a codec. It has two views on
the same entries. The typed view works on records and runs their hooks; the atom view works on atoms
under the spec of the type and runs none. Both pass through the record type, so what does not fit it
is never written.

The key is checked before the context, and the context before hooks and provider. In a batch every
item is encoded before the provider is called, and hooks after it run for every item, the first
failure being reported.
-/

namespace Depot

structure RecordStore (ρ σ : Type) where
  model : Model ρ
  spec : Spec
  codec : Codec
  provider : KeyValue.Provider σ

namespace RecordStore

variable {ρ σ : Type}

def encode (store : RecordStore ρ σ) (record : ρ) : Except Error (List UInt8) :=
  store.codec.encode (store.model.toValue record)

def decode (store : RecordStore ρ σ) (bytes : List UInt8) : Except Error ρ := do
  store.model.ofValue (← store.codec.decode bytes)

def encodeAtom (store : RecordStore ρ σ) (a : Atom) : Except Error (List UInt8) := do
  store.encode (← store.model.deatomize store.spec a)

def decodeAtom (store : RecordStore ρ σ) (bytes : List UInt8) : Except Error Atom := do
  store.model.atomize store.spec (← store.decode bytes)

/-! ### Both views -/

/-- A call under a key that a store can address. -/
def underKey {α : Type} (ctx : Context) (key : String) (call : Call σ α) : Call σ α := do
  Call.lift (checkKey key)
  Call.check ctx
  call

def has (store : RecordStore ρ σ) (ctx : Context) (key : String) : Call σ Bool :=
  underKey ctx key (store.provider.has ctx key)

def count (store : RecordStore ρ σ) (ctx : Context) (start : String) : Call σ Nat := do
  Call.check ctx
  store.provider.count ctx start

def list (store : RecordStore ρ σ) (ctx : Context) (start : String) (limit : Nat) :
    Call σ (List String) := do
  Call.check ctx
  store.provider.list ctx start limit

def scan (store : RecordStore ρ σ) (ctx : Context) (start : String) (cursor : Option String)
    (limit : Nat) : Call σ KeyValue.Page := do
  Call.check ctx
  store.provider.scan ctx start cursor limit

/-! ### Records -/

def get (store : RecordStore ρ σ) (ctx : Context) (key : String) : Call σ ρ :=
  underKey ctx key do
    let bytes ← store.provider.get ctx key
    let record ← Call.lift (store.decode bytes)
    store.model.afterLoad ctx key record

/-- Runs the hook before a save and encodes the record that it leaves. -/
def prepare (store : RecordStore ρ σ) (ctx : Context) (key : String) (record : ρ) :
    Call σ (ρ × Except Error (List UInt8)) := do
  let (record, ready) ← store.model.beforeSave ctx key record
  return (record, ready.bind fun _ => store.encode record)

/-- Writes a record. A failing hook before the save ends it before the provider is called; one after
it is reported although the record was written. -/
def set (store : RecordStore ρ σ) (ctx : Context) (key : String) (record : ρ) (span : Time) :
    Call σ (Saved ρ) := do
  match ← Call.attempt (underKey ctx key (pure ())) with
  | .error e => return ⟨record, .error e⟩
  | .ok () =>
    let (record, encoded) ← store.prepare ctx key record
    let outcome ← Call.attempt do
      let bytes ← Call.lift encoded
      store.provider.set ctx key bytes span
      Call.lift (← store.model.afterSave ctx key record)
    return ⟨record, outcome⟩

/-- Deletes a key. The hook after the delete runs only if there was something to delete. -/
def delete (store : RecordStore ρ σ) (ctx : Context) (key : String) : Call σ Unit :=
  underKey ctx key do
    store.model.beforeDelete ctx key
    store.provider.delete ctx key
    Call.lift (← store.model.afterDelete ctx key)

/-- Decodes entries and runs the hook after a load, in key order. -/
def loadAll (store : RecordStore ρ σ) (ctx : Context) :
    List (String × List UInt8) → Call σ (List (String × ρ))
  | [] => return []
  | (key, bytes) :: rest => do
    let record ← Call.lift (store.decode bytes)
    let record ← store.model.afterLoad ctx key record
    let others ← store.loadAll ctx rest
    return (key, record) :: others

/-- Reads the records of those keys that are there. -/
def getBatch (store : RecordStore ρ σ) (ctx : Context) (keys : List String) :
    Call σ (List (String × ρ)) := do
  Call.lift (checkKeys keys)
  Call.check ctx
  let found ← store.provider.getBatch ctx keys
  store.loadAll ctx found.entries

/-- Prepares items one after the other up to the first that fails. The items are as their hooks
leave them. -/
def prepareAll (store : RecordStore ρ σ) (ctx : Context) :
    List (String × ρ) → Call σ (List (String × ρ) × Except Error (List (String × List UInt8)))
  | [] => return ([], .ok [])
  | (key, record) :: rest =>
    match checkKey key with
    | .error e => return ((key, record) :: rest, .error e)
    | .ok () => do
      let (record, encoded) ← store.prepare ctx key record
      match encoded with
      | .error e => return ((key, record) :: rest, .error e)
      | .ok bytes =>
        let (others, encoded) ← store.prepareAll ctx rest
        return ((key, record) :: others, encoded.map fun items => (key, bytes) :: items)

/-- Writes many records, given in key order. -/
def setBatch (store : RecordStore ρ σ) (ctx : Context) (items : List (String × ρ)) (span : Time) :
    Call σ (List (String × ρ) × Except Error Unit) := do
  match ← Call.attempt (Call.check ctx) with
  | .error e => return (items, .error e)
  | .ok () =>
    let (items, encoded) ← store.prepareAll ctx items
    let outcome ← Call.attempt do
      let encoded ← Call.lift encoded
      store.provider.setBatch ctx (.ofList encoded) span
      Call.lift (← store.model.afterSaves ctx items)
    return (items, outcome)

/-- Checks keys and runs the hooks before their deletes, one after the other. -/
def prepareDeletes (store : RecordStore ρ σ) (ctx : Context) : List String → Call σ Unit
  | [] => return ()
  | key :: rest => do
    Call.lift (checkKey key)
    store.model.beforeDelete ctx key
    store.prepareDeletes ctx rest

/-- Deletes those keys that are there. Hooks run for all keys. -/
def deleteBatch (store : RecordStore ρ σ) (ctx : Context) (keys : List String) : Call σ Unit := do
  Call.check ctx
  store.prepareDeletes ctx keys
  store.provider.deleteBatch ctx keys
  Call.lift (← store.model.afterDeletes ctx keys)

/-! ### Atoms -/

def getAtom (store : RecordStore ρ σ) (ctx : Context) (key : String) : Call σ Atom :=
  underKey ctx key do
    let bytes ← store.provider.get ctx key
    Call.lift (store.decodeAtom bytes)

def setAtom (store : RecordStore ρ σ) (ctx : Context) (key : String) (a : Atom) (span : Time) :
    Call σ Unit :=
  underKey ctx key do
    let bytes ← Call.lift (store.encodeAtom a)
    store.provider.set ctx key bytes span

def deleteAtom (store : RecordStore ρ σ) (ctx : Context) (key : String) : Call σ Unit :=
  underKey ctx key (store.provider.delete ctx key)

/-- Reads the atoms of those keys that are there; the first one that cannot be read fails the call. -/
def getAtoms (store : RecordStore ρ σ) (ctx : Context) (keys : List String) :
    Call σ (List (String × Atom)) := do
  Call.lift (checkKeys keys)
  Call.check ctx
  let found ← store.provider.getBatch ctx keys
  Call.lift (found.entries.mapM fun e => do return (e.1, ← store.decodeAtom e.2))

/-- Writes many atoms, given in key order. -/
def setAtoms (store : RecordStore ρ σ) (ctx : Context) (items : List (String × Atom)) (span : Time) :
    Call σ Unit := do
  Call.check ctx
  let encoded ← Call.lift (items.mapM fun item => do
    checkKey item.1
    return (item.1, ← store.encodeAtom item.2))
  store.provider.setBatch ctx (.ofList encoded) span

def deleteAtoms (store : RecordStore ρ σ) (ctx : Context) (keys : List String) : Call σ Unit := do
  Call.lift (checkKeys keys)
  Call.check ctx
  store.provider.deleteBatch ctx keys

end RecordStore

end Depot
