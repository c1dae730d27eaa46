import Depot.Blob.Provider
import Depot.Codec
import Depot.Record.Model

/-!
# Buckets of records

A `RecordBucket` keeps the records of one type as objects, encoded by a codec. The typed view runs
the hooks of the type, the atom view runs none.

An object without a content type is written with the format of the codec. What the caller knows about
the object is filled in before the backend is called and replaced by what the backend recorded.
-/

namespace Depot

structure ObjectOf (α : Type) where
  info : ObjectInfo
  data : α

/-- An object as an operation leaves it, with the outcome of the operation. -/
structure PutResult (α : Type) where
  object : ObjectOf α
  outcome : Except Error Unit

structure RecordBucket (ρ σ : Type) where
  model : Model ρ
  spec : Spec
  codec : Codec
  provider : Blob.Provider σ

namespace RecordBucket

variable {ρ σ : Type}

/-- A call under a key that a bucket can address. -/
def underKey {α : Type} (ctx : Context) (key : String) (call : Call σ α) : Call σ α := do
  Call.lift (checkKey key)
  Call.check ctx
  call

/-- What the caller knows about an object that is about to be written. -/
def announced (bucket : RecordBucket ρ σ) (info : ObjectInfo) (bytes : List UInt8) : ObjectInfo :=
  { info with
    contentType := if info.contentType = "" then bucket.codec.format.mediaType else info.contentType
    size := bytes.length }

def store (bucket : RecordBucket ρ σ) (ctx : Context) (info : ObjectInfo) (bytes : List UInt8) :
    Call σ (ObjectInfo × Except Error Unit) := do
  let info := bucket.announced info bytes
  match ← Call.attempt (bucket.provider.put ctx info.key bytes info) with
  | .ok recorded => return (recorded, .ok ())
  | .error e => return (info, .error e)

/-! ### Both views -/

def has (bucket : RecordBucket ρ σ) (ctx : Context) (key : String) : Call σ Bool :=
  underKey ctx key (bucket.provider.has ctx key)

def list (bucket : RecordBucket ρ σ) (ctx : Context) (start : String) (limit : Nat) :
    Call σ (List ObjectInfo) := do
  Call.check ctx
  bucket.provider.list ctx start limit

/-! ### Records -/

def get (bucket : RecordBucket ρ σ) (ctx : Context) (key : String) : Call σ (ObjectOf ρ) :=
  underKey ctx key do
    let (bytes, info) ← bucket.provider.get ctx key
    let record ← Call.lift (do bucket.model.ofValue (← bucket.codec.decode bytes))
    return ⟨info, ← bucket.model.afterLoad ctx key record⟩

def put (bucket : RecordBucket ρ σ) (ctx : Context) (object : ObjectOf ρ) : Call σ (PutResult ρ) := do
  let key := object.info.key
  match ← Call.attempt (underKey ctx key (pure ())) with
  | .error e => return ⟨object, .error e⟩
  | .ok () =>
    let (record, ready) ← bucket.model.beforeSave ctx key object.data
    match ready.bind fun _ => bucket.codec.encode (bucket.model.toValue record) with
    | .error e => return ⟨⟨object.info, record⟩, .error e⟩
    | .ok bytes =>
      let (info, outcome) ← bucket.store ctx object.info bytes
      match outcome with
      | .error e => return ⟨⟨info, record⟩, .error e⟩
      | .ok () => return ⟨⟨info, record⟩, ← bucket.model.afterSave ctx key record⟩

def delete (bucket : RecordBucket ρ σ) (ctx : Context) (key : String) : Call σ Unit :=
  underKey ctx key do
    bucket.model.beforeDelete ctx key
    bucket.provider.delete ctx key
    Call.lift (← bucket.model.afterDelete ctx key)

/-! ### Atoms -/

def getAtom (bucket : RecordBucket ρ σ) (ctx : Context) (key : String) : Call σ (ObjectOf Atom) :=
  underKey ctx key do
    let (bytes, info) ← bucket.provider.get ctx key
    let a ← Call.lift do
      bucket.model.atomize bucket.spec (← bucket.model.ofValue (← bucket.codec.decode bytes))
    return ⟨info, a⟩

/-- Writes an object under the key it says, its data given as an atom. -/
def putAtom (bucket : RecordBucket ρ σ) (ctx : Context) (object : ObjectOf Atom) :
    Call σ (PutResult Atom) := do
  match ← Call.attempt (underKey ctx object.info.key (pure ())) with
  | .error e => return ⟨object, .error e⟩
  | .ok () =>
    let encoded : Except Error (List UInt8) := do
      bucket.codec.encode (bucket.model.toValue (← bucket.model.deatomize bucket.spec object.data))
    match encoded with
    | .error e => return ⟨object, .error e⟩
    | .ok bytes =>
      let (info, outcome) ← bucket.store ctx object.info bytes
      return ⟨{ object with info }, outcome⟩

def deleteAtom (bucket : RecordBucket ρ σ) (ctx : Context) (key : String) : Call σ Unit :=
  underKey ctx key (bucket.provider.delete ctx key)

end RecordBucket

end Depot
