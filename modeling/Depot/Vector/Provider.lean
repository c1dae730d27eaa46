import Depot.Filter.Basic
import Depot.Session
import Depot.Vector.Metric

/-!
# Vector providers

A provider keeps vectors under ids, each with encoded metadata, and finds those that are nearest to a
query. Results rank by rising distance. A count of zero is no limit. Filters name fields of the
decoded metadata.
-/

namespace Depot.Vector

structure Entry where
  id : String
  vector : Components
  metadata : List UInt8
deriving DecidableEq

structure Hit where
  id : String
  vector : Components
  /-- The distance to the query, zero where there was none. -/
  score : Binary32
  metadata : List UInt8
deriving DecidableEq

structure Provider (σ : Type) where
  upsert : Context → Entry → Call σ Unit
  upsertBatch : Context → List Entry → Call σ Unit
  get : Context → String → Call σ Hit
  delete : Context → String → Call σ Unit
  /-- Deletes those ids that are there. -/
  deleteBatch : Context → List String → Call σ Unit
  search : Context → Components → Nat → Option Filter → Call σ (List Hit)
  query : Context → Components → Nat → Filter → Call σ (List Hit)
  /-- The vectors whose metadata satisfy a filter. -/
  filter : Context → Filter → Nat → Call σ (List Hit)
  list : Context → Nat → Call σ (List String)
  has : Context → String → Call σ Bool

end Depot.Vector
