import Depot.Vector.Memory

/-!
# Alarmed indexes

An alarmed index counts the decodes that its searches start. One of them raises a signal as it starts; that
decode itself still runs. An alarm of zero is none.
-/

namespace Depot.Vector

/-- An index with the count of decodes that were started, and the one that raises a signal. -/
structure Alarmed where
  inner : Memory
  decodes : Nat := 0
  alarm : Nat := 0
  signal : Nat

namespace Alarmed

/-- A call on the index itself. -/
def within {α : Type} (call : Call Memory α) : Call Alarmed α :=
  fun s =>
    let (result, t) := call (s.withBackend s.backend.inner)
    (result, t.withBackend { s.backend with inner := t.backend })

def decode (settings : Settings) (bytes : List UInt8) : Call Alarmed Value :=
  fun s =>
    let decodes := s.backend.decodes + 1
    let s := { s with backend := { s.backend with decodes } }
    (settings.codec.decode bytes,
      if decodes = s.backend.alarm then s.cancel ⟨s.backend.signal, none⟩ else s)

def access (settings : Settings) : Access Alarmed where
  index := inner
  decode := decode settings

/-- The provider of an alarmed index: searches go through the index under the alarm. -/
def provider (settings : Settings) : Provider Alarmed where
  upsert ctx entry := within (Memory.upsert ctx entry)
  upsertBatch ctx entries := within (Memory.upsertBatch ctx entries)
  get ctx id := within (Memory.get ctx id)
  delete ctx id := within (Memory.delete ctx id)
  deleteBatch ctx ids := within (Memory.deleteBatch ctx ids)
  search := (access settings).search settings
  query := (access settings).query settings
  filter := (access settings).filter settings
  list ctx limit := within (Memory.list ctx limit)
  has ctx id := within (Memory.has ctx id)

end Alarmed

end Depot.Vector
