import Depot.Config
import Depot.KeyValue.Provider

/-!
# Key-value store in memory

Entries lie in key order and may have a moment at which they expire. From that moment on an entry
counts as absent; the next write purges it. A batch is applied as a whole.
-/

namespace Depot.KeyValue

/-- Bytes, and from when on they count as absent. -/
structure Entry where
  bytes : List UInt8
  expiresAt : Option Time := none
deriving DecidableEq

/-- Whether an entry is there at a moment. -/
def Entry.isLive (now : Time) (e : Entry) : Bool :=
  match e.expiresAt with
  | none => true
  | some moment => now < moment

structure Memory where
  entries : Dict Entry := .empty
deriving DecidableEq, Inhabited

namespace Memory

def find? (m : Memory) (now : Time) (key : String) : Option Entry :=
  match m.entries.get? key with
  | some e => if e.isLive now then some e else none
  | none => none

/-- The entries that are there at a moment. -/
def purge (m : Memory) (now : Time) : Memory :=
  ⟨m.entries.filter fun _ e => e.isLive now⟩

def insert (m : Memory) (key : String) (e : Entry) : Memory :=
  ⟨m.entries.insert key e⟩

def erase (m : Memory) (key : String) : Memory :=
  ⟨m.entries.erase key⟩

/-- Whether the walk over keys that start with a text, behind a cursor, has yet to begin at a key.
A cursor before all such keys is passed over. -/
def isBefore (start : String) (cursor : Option String) (key : String) : Bool :=
  match cursor with
  | some c => if start ≤ c then key ≤ c else key < start
  | none => key < start

/-- The keys that are there at a moment and start with a text, behind a cursor: a walk from the first
such key to the first one that starts otherwise. -/
def keysFrom (m : Memory) (now : Time) (start : String) (cursor : Option String) (limit : Nat) :
    List String :=
  let walked := (m.entries.entries.dropWhile fun e => isBefore start cursor e.1).takeWhile
    fun e => start.toList.isPrefixOf e.1.toList
  let live := (walked.filter fun e => e.2.isLive now).map Prod.fst
  if limit = 0 then live else live.take limit

/-- When an entry written now expires. Only a store with expiry takes a span that is not zero. -/
def expiry (config : KeyValueConfig) (now span : Time) : Except Error (Option Time) :=
  if span = 0 then .ok none
  else if config.ttl then .ok (Time.after? now span)
  else .error .ttlNotSupported

/-! ### The provider -/

def get (ctx : Context) (key : String) : Call Memory (List UInt8) := do
  Call.check ctx
  let s ← Call.session
  match s.backend.find? s.now key with
  | some e => return e.bytes
  | none => Call.fail (.notFound key)

def set (config : KeyValueConfig) (ctx : Context) (key : String) (bytes : List UInt8) (span : Time) :
    Call Memory Unit := do
  Call.check ctx
  let s ← Call.session
  let expiresAt ← Call.lift (expiry config s.now span)
  Call.setBackend ((s.backend.purge s.now).insert key ⟨bytes, expiresAt⟩)

def delete (ctx : Context) (key : String) : Call Memory Unit := do
  Call.check ctx
  let s ← Call.session
  let m := s.backend.purge s.now
  Call.setBackend (m.erase key)
  if m.entries.contains key then return () else Call.fail (.notFound key)

def has (ctx : Context) (key : String) : Call Memory Bool := do
  Call.check ctx
  let s ← Call.session
  return (s.backend.find? s.now key).isSome

def list (ctx : Context) (start : String) (limit : Nat) : Call Memory (List String) := do
  Call.check ctx
  let s ← Call.session
  return s.backend.keysFrom s.now start none limit

def getBatch (ctx : Context) (keys : List String) : Call Memory (Dict (List UInt8)) := do
  Call.check ctx
  let s ← Call.session
  return .ofList (keys.filterMap fun key => (s.backend.find? s.now key).map fun e => (key, e.bytes))

def setBatch (config : KeyValueConfig) (ctx : Context) (items : Dict (List UInt8)) (span : Time) :
    Call Memory Unit := do
  Call.check ctx
  let s ← Call.session
  let expiresAt ← Call.lift (expiry config s.now span)
  Call.setBackend
    (items.entries.foldl (fun m item => m.insert item.1 ⟨item.2, expiresAt⟩) (s.backend.purge s.now))

def deleteBatch (ctx : Context) (keys : List String) : Call Memory Unit := do
  Call.check ctx
  let s ← Call.session
  Call.setBackend ((keys.foldl erase s.backend).purge s.now)

/-- A page, read with one key more than it holds to see whether another page follows. -/
def scan (ctx : Context) (start : String) (cursor : Option String) (limit : Nat) :
    Call Memory Page := do
  Call.check ctx
  let s ← Call.session
  let fetch := if limit = 0 then 0 else limit + 1
  return .cut limit (s.backend.keysFrom s.now start cursor fetch)

def count (ctx : Context) (start : String) : Call Memory Nat := do
  Call.check ctx
  let s ← Call.session
  return (s.backend.keysFrom s.now start none 0).length

def required (config : KeyValueConfig) : Required Memory where
  get
  set := set config
  delete
  has
  list
  getBatch
  setBatch := setBatch config

def provider (config : KeyValueConfig) : Provider Memory where
  get
  set := set config
  delete
  has
  list
  getBatch
  setBatch := setBatch config
  deleteBatch
  scan
  count

end Memory

end Depot.KeyValue
