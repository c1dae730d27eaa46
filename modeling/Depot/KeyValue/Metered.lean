import Depot.KeyValue.Provider

/-!
# Metered providers

A metered backend counts the calls it takes. With the last call of its allowance it cancels the
context of the call, whose own answer still stands. An allowance of zero is no limit.
-/

namespace Depot.KeyValue

/-- A backend with the count of calls it took, and how many it may take. -/
structure Metered (σ : Type) where
  inner : σ
  calls : Nat := 0
  allowance : Nat := 0

namespace Metered

variable {σ α : Type}

/-- One call on the metered backend. -/
def meter (ctx : Context) (call : Call σ α) : Call (Metered σ) α :=
  fun s =>
    let (result, t) := call (s.withBackend s.backend.inner)
    let calls := s.backend.calls + 1
    let s := t.withBackend { s.backend with inner := t.backend, calls }
    (result, if calls = s.backend.allowance then s.cancel ctx else s)

/-- The required operations, each of them metered. -/
def required (r : Required σ) : Required (Metered σ) where
  get ctx key := meter ctx (r.get ctx key)
  set ctx key bytes span := meter ctx (r.set ctx key bytes span)
  delete ctx key := meter ctx (r.delete ctx key)
  has ctx key := meter ctx (r.has ctx key)
  list ctx start limit := meter ctx (r.list ctx start limit)
  getBatch ctx keys := meter ctx (r.getBatch ctx keys)
  setBatch ctx items span := meter ctx (r.setBatch ctx items span)

/-- The metered provider: what the required operations leave open is made of metered calls. -/
def provider (r : Required σ) : Provider (Metered σ) :=
  (required r).provider

end Metered

end Depot.KeyValue
