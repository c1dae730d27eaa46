import Depot.Blob.Provider
import Depot.Blob.Xxh3

/-!
# Blob store in memory

Objects lie in key order. The tag of an object is the checksum of its bytes between double quotes, so
the same content always has the same tag.
-/

namespace Depot.Blob

structure Memory where
  objects : Dict (List UInt8 × ObjectInfo) := .empty
deriving DecidableEq, Inhabited

def etag (bytes : List UInt8) : String :=
  String.ofList ('"' :: (Text.Hex.padded 16 (Xxh3.hash64 bytes).toNat ++ ['"']))

namespace Memory

/-- What is known about an object once it is written. -/
def recorded (key : String) (bytes : List UInt8) (info : ObjectInfo) (now : Time) : ObjectInfo where
  key
  contentType := info.contentType
  size := bytes.length
  etag := etag bytes
  metadata := info.metadata
  lastModified := some now

def get (ctx : Context) (key : String) : Call Memory (List UInt8 × ObjectInfo) := do
  Call.check ctx
  match (← Call.backend).objects.get? key with
  | some object => return object
  | none => Call.fail (.notFound key)

def put (ctx : Context) (key : String) (bytes : List UInt8) (info : ObjectInfo) :
    Call Memory ObjectInfo := do
  Call.check ctx
  let s ← Call.session
  let info := recorded key bytes info s.now
  Call.setBackend ⟨s.backend.objects.insert key (bytes, info)⟩
  return info

def delete (ctx : Context) (key : String) : Call Memory Unit := do
  Call.check ctx
  let m ← Call.backend
  if m.objects.contains key then Call.setBackend ⟨m.objects.erase key⟩
  else Call.fail (.notFound key)

def has (ctx : Context) (key : String) : Call Memory Bool := do
  Call.check ctx
  return (← Call.backend).objects.contains key

/-- The objects whose keys start with a text: a walk from the first such key to the first one that
starts otherwise. -/
def infosFrom (m : Memory) (start : String) (limit : Nat) : List ObjectInfo :=
  let walked := (m.objects.entries.dropWhile fun e => e.1 < start).takeWhile
    fun e => start.toList.isPrefixOf e.1.toList
  let infos := walked.map fun e => e.2.2
  if limit = 0 then infos else infos.take limit

def list (ctx : Context) (start : String) (limit : Nat) : Call Memory (List ObjectInfo) := do
  Call.check ctx
  return (← Call.backend).infosFrom start limit

def provider : Provider Memory where
  get
  put
  delete
  has
  list

end Memory

end Depot.Blob
