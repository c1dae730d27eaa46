import Depot.Dict
import Depot.Session

/-!
# Blob providers

A provider keeps objects: bytes under a key with what is known about them. The writer of an object
says its content type and metadata; size, tag and time of writing are the backend's to say.
-/

namespace Depot

structure ObjectInfo where
  key : String
  contentType : String := ""
  size : Nat := 0
  /-- A mark of the content, given by the backend. -/
  etag : String := ""
  metadata : Dict String := .empty
  lastModified : Option Time := none
deriving DecidableEq

namespace Blob

/-- A blob backend. A limit of zero is no limit. -/
structure Provider (σ : Type) where
  get : Context → String → Call σ (List UInt8 × ObjectInfo)
  /-- Keeps an object and tells what is known about it now. -/
  put : Context → String → List UInt8 → ObjectInfo → Call σ ObjectInfo
  delete : Context → String → Call σ Unit
  has : Context → String → Call σ Bool
  /-- The objects whose keys start with a text, in key order. -/
  list : Context → String → Nat → Call σ (List ObjectInfo)

end Blob

end Depot
