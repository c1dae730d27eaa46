import Depot.Codec
import Depot.Config
import Depot.Filter.Predicate
import Depot.Vector.Provider

/-!
# Vector index in memory

Every search looks at every vector. Filters are compiled once and tested on the decoded metadata,
before a distance is taken. Equal distances keep the order in which ids first came in: every id has
a sequence number, which an overwrite keeps.

The length of the vectors is fixed by the settings or by the first vector, and stays even when the
index is emptied.

The codec is given to the index, and decoding with it may do something to the session, so searches look at
the context before each vector. They are written for any such codec (`Access`); the index in memory has
one that only decodes.
-/

namespace Depot.Vector

/-- How an index is set up. -/
structure Settings where
  config : IndexConfig := {}
  /-- The codec in which metadata is written. -/
  codec : Codec

structure Stored where
  sequence : Nat
  vector : Components
  metadata : List UInt8
deriving DecidableEq

structure Memory where
  /-- The length of all vectors, once it is known. -/
  dimension : Option Nat := none
  lastSequence : Nat := 0
  vectors : Dict Stored := .empty
deriving DecidableEq

namespace Memory

def initial (settings : Settings) : Memory :=
  { dimension := settings.config.dimension }

/-- A vector has to have the length of the others. -/
def checkDimension (dimension : Option Nat) (vector : Components) : Except Error Unit :=
  match dimension with
  | some expected =>
    if expected = vector.length then .ok () else .error (.dimensionMismatch expected vector.length)
  | none => .ok ()

def insert (m : Memory) (entry : Entry) : Memory :=
  let dimension := some (m.dimension.getD entry.vector.length)
  match m.vectors.get? entry.id with
  | some stored =>
    { m with
      dimension
      vectors := m.vectors.insert entry.id ⟨stored.sequence, entry.vector, entry.metadata⟩ }
  | none =>
    { m with
      dimension
      lastSequence := m.lastSequence + 1
      vectors := m.vectors.insert entry.id ⟨m.lastSequence + 1, entry.vector, entry.metadata⟩ }

def erase (m : Memory) (id : String) : Memory :=
  { m with vectors := m.vectors.erase id }

/-- A batch is fine if each vector is, and all have the length of the index or else of the first. -/
def checkBatch (dimension : Option Nat) : List Entry → Except Error Unit
  | [] => .ok ()
  | entry :: rest => do
    entry.vector.validate
    checkDimension dimension entry.vector
    checkBatch (some (dimension.getD entry.vector.length)) rest

/-! ### Searching -/

/-- A vector that satisfies the filter, with its distance. -/
structure Scored where
  sequence : Nat
  hit : Hit

/-- The order of results: by distance, and by sequence where distances are equal. -/
def Scored.comesFirst (a b : Scored) : Bool :=
  a.hit.score.totalRank < b.hit.score.totalRank ||
    (a.hit.score.totalRank == b.hit.score.totalRank && a.sequence ≤ b.sequence)

/-- The distance to a query, zero without one. -/
def score (settings : Settings) (query : Option Components) (stored : Stored) :
    Except Error Binary32 :=
  match query with
  | some q => settings.config.metric.distance q stored.vector
  | none => .ok .zero

end Memory

/-- How searches get at an index: where a session keeps it, and what decoding metadata comes to. -/
structure Access (σ : Type) where
  index : σ → Memory
  decode : List UInt8 → Call σ Value

namespace Access

open Memory

variable {σ : Type} (access : Access σ) (settings : Settings) (ctx : Context)

/-- Whether a vector satisfies a test; without a test it does so undecoded. -/
def satisfies (test : Option Test) (stored : Stored) : Call σ Bool :=
  match test with
  | some test => do return test (← access.decode stored.metadata)
  | none => return true

/-- Tests and scores vectors one after the other, under a context that may be cancelled on the
way. -/
def collect (query : Option Components) (test : Option Test) :
    List (String × Stored) → Call σ (List Scored)
  | [] => return []
  | (id, stored) :: rest => do
    Call.check ctx
    if ← access.satisfies test stored then
      let score ← Call.lift (score settings query stored)
      let others ← collect query test rest
      return ⟨stored.sequence, ⟨id, stored.vector, score, stored.metadata⟩⟩ :: others
    else collect query test rest

/-- The vectors that satisfy a test, ranked and cut. -/
def run (query : Option Components) (k : Nat) (test : Option Test) : Call σ (List Hit) := do
  let m := access.index (← Call.backend)
  if let some q := query then
    Call.lift q.validate
    Call.lift (checkDimension m.dimension q)
  let scored ← access.collect settings ctx query test m.vectors.entries
  let ranked := (scored.mergeSort Scored.comesFirst).map Scored.hit
  return if k = 0 then ranked else ranked.take k

def compile (filter : Filter) : Call σ Test :=
  Call.lift (settings.config.filter.compile filter)

def search (vector : Components) (k : Nat) (filter : Option Filter) : Call σ (List Hit) := do
  Call.check ctx
  match filter with
  | some filter => access.run settings ctx (some vector) k (some (← compile settings filter))
  | none => access.run settings ctx (some vector) k none

def query (vector : Components) (k : Nat) (filter : Filter) : Call σ (List Hit) := do
  Call.check ctx
  access.run settings ctx (some vector) k (some (← compile settings filter))

/-- Without a query all distances are zero, so the results keep the order of the sequence. -/
def filter (filter : Filter) (limit : Nat) : Call σ (List Hit) := do
  Call.check ctx
  if settings.config.filter.metadataFilter then
    access.run settings ctx none limit (some (← compile settings filter))
  else Call.fail .filterNotSupported

end Access

namespace Memory

/-! ### The provider -/

def upsert (ctx : Context) (entry : Entry) : Call Memory Unit := do
  Call.check ctx
  Call.lift entry.vector.validate
  let m ← Call.backend
  Call.lift (checkDimension m.dimension entry.vector)
  Call.setBackend (m.insert entry)

/-- Puts entries in one after the other, under a context that may be cancelled on the way. -/
def insertAll (ctx : Context) : List Entry → Call Memory Unit
  | [] => return ()
  | entry :: rest => do
    Call.check ctx
    Call.setBackend ((← Call.backend).insert entry)
    insertAll ctx rest

def upsertBatch (ctx : Context) (entries : List Entry) : Call Memory Unit := do
  Call.check ctx
  let m ← Call.backend
  Call.lift (checkBatch m.dimension entries)
  insertAll ctx entries

def get (ctx : Context) (id : String) : Call Memory Hit := do
  Call.check ctx
  match (← Call.backend).vectors.get? id with
  | some stored => return ⟨id, stored.vector, .zero, stored.metadata⟩
  | none => Call.fail (.notFound id)

def delete (ctx : Context) (id : String) : Call Memory Unit := do
  Call.check ctx
  let m ← Call.backend
  if m.vectors.contains id then Call.setBackend (m.erase id) else Call.fail (.notFound id)

def deleteBatch (ctx : Context) (ids : List String) : Call Memory Unit := do
  Call.check ctx
  Call.setBackend (ids.foldl erase (← Call.backend))

/-- The index is all that the session keeps, and decoding does nothing but decode. -/
def access (settings : Settings) : Access Memory where
  index m := m
  decode bytes := Call.lift (settings.codec.decode bytes)

def search (settings : Settings) (ctx : Context) (vector : Components) (k : Nat)
    (filter : Option Filter) : Call Memory (List Hit) :=
  (access settings).search settings ctx vector k filter

def query (settings : Settings) (ctx : Context) (vector : Components) (k : Nat) (filter : Filter) :
    Call Memory (List Hit) :=
  (access settings).query settings ctx vector k filter

def filter (settings : Settings) (ctx : Context) (filter : Filter) (limit : Nat) :
    Call Memory (List Hit) :=
  (access settings).filter settings ctx filter limit

def ids (m : Memory) : List String :=
  (m.vectors.entries.mergeSort fun a b => decide (a.2.sequence ≤ b.2.sequence)).map Prod.fst

def list (ctx : Context) (limit : Nat) : Call Memory (List String) := do
  Call.check ctx
  let ids := (← Call.backend).ids
  return if limit = 0 then ids else ids.take limit

def has (ctx : Context) (id : String) : Call Memory Bool := do
  Call.check ctx
  return (← Call.backend).vectors.contains id

def provider (settings : Settings) : Provider Memory where
  upsert
  upsertBatch
  get
  delete
  deleteBatch
  search := search settings
  query := query settings
  filter := filter settings
  list
  has

end Memory

end Depot.Vector
