import Depot.Dict
import Depot.Session

/-!
# Key-value providers

A provider keeps bytes under text keys and works on a backend `σ`. Some operations can be made of
the others: deleting many keys one by one, paging through a listing, counting one. A backend that
offers only the rest (`Required`) gets these from `Required.provider`.

A span of zero means that a key does not expire, and a limit of zero that there is no limit.
-/

namespace Depot.KeyValue

structure Page where
  keys : List String
  /-- Where the next page starts, none at the end of the listing. -/
  next : Option String := none
deriving DecidableEq

structure Provider (σ : Type) where
  get : Context → String → Call σ (List UInt8)
  set : Context → String → List UInt8 → Time → Call σ Unit
  delete : Context → String → Call σ Unit
  has : Context → String → Call σ Bool
  /-- The keys that start with a text, in order. -/
  list : Context → String → Nat → Call σ (List String)
  /-- The entries of those keys that are there. -/
  getBatch : Context → List String → Call σ (Dict (List UInt8))
  setBatch : Context → Dict (List UInt8) → Time → Call σ Unit
  /-- Deletes those keys that are there. -/
  deleteBatch : Context → List String → Call σ Unit
  /-- A page of the keys that start with a text, behind a cursor. -/
  scan : Context → String → Option String → Nat → Call σ Page
  count : Context → String → Call σ Nat

/-- What a backend has to offer by itself. -/
structure Required (σ : Type) where
  get : Context → String → Call σ (List UInt8)
  set : Context → String → List UInt8 → Time → Call σ Unit
  delete : Context → String → Call σ Unit
  has : Context → String → Call σ Bool
  list : Context → String → Nat → Call σ (List String)
  getBatch : Context → List String → Call σ (Dict (List UInt8))
  setBatch : Context → Dict (List UInt8) → Time → Call σ Unit

/-- The first page of a listing. -/
def Page.cut (limit : Nat) (keys : List String) : Page :=
  if limit = 0 ∨ keys.length ≤ limit then ⟨keys, none⟩
  else
    let keys := keys.take limit
    ⟨keys, keys.getLast?⟩

/-- Whether a key lies behind a cursor. -/
def isBehind (cursor : Option String) (key : String) : Bool :=
  match cursor with
  | none => true
  | some c => c < key

/-- Checks a context once for every element of a list. -/
def checkEach {σ α : Type} (ctx : Context) : List α → Call σ Unit
  | [] => return ()
  | _ :: rest => do
    Call.check ctx
    checkEach ctx rest

namespace Required

variable {σ : Type}

/-- Deletes keys one by one; keys that are not there are passed over. -/
def deleteBatch (r : Required σ) (ctx : Context) : List String → Call σ Unit
  | [] => return ()
  | key :: rest => do
    Call.check ctx
    match ← Call.attempt (r.delete ctx key) with
    | .ok () => r.deleteBatch ctx rest
    | .error e => if e.isNotFound then r.deleteBatch ctx rest else Call.fail e

/-- Pages through the whole listing. The cursor is the last key of the page before. -/
def scan (r : Required σ) (ctx : Context) (start : String) (cursor : Option String) (limit : Nat) :
    Call σ Page := do
  let keys ← r.list ctx start 0
  checkEach ctx keys
  return .cut limit (keys.filter (isBehind cursor))

def count (r : Required σ) (ctx : Context) (start : String) : Call σ Nat := do
  return (← r.list ctx start 0).length

/-- The provider that makes of the required operations what they leave open. -/
def provider (r : Required σ) : Provider σ :=
  { r with deleteBatch := r.deleteBatch, scan := r.scan, count := r.count }

end Required

end Depot.KeyValue
