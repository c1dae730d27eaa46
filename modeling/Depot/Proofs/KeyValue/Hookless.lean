import Depot.Proofs.KeyValue.RecordStore
import Depot.Proofs.Record.Hookless

/-!
# Stores of records without hooks

Without hooks every operation of a store is its checks, the encoding or decoding of its records, and
one call of the provider.
-/

namespace Depot.RecordStore

variable {ρ σ : Type} {store : RecordStore ρ σ} {ctx : Context}

/-- An item of a batch, encoded under a key that a store can address. -/
def encodeItem (store : RecordStore ρ σ) (item : String × ρ) :
    Except Error (String × List UInt8) := do
  checkKey item.1
  return (item.1, ← store.encode item.2)

def decodeEntry (store : RecordStore ρ σ) (e : String × List UInt8) : Except Error (String × ρ) := do
  return (e.1, ← store.decode e.2)

theorem prepare_of_hookless (h : store.model.Hookless) (key : String) (record : ρ) :
    store.prepare ctx key record = pure (record, store.encode record) := by
  rw [prepare, h.beforeSave, pure_bind]
  rfl

theorem prepareAll_of_hookless (h : store.model.Hookless) (items : List (String × ρ)) :
    store.prepareAll ctx items = pure (items, items.mapM store.encodeItem) := by
  induction items with
  | nil => rfl
  | cons item rest ih =>
      obtain ⟨key, record⟩ := item
      rw [prepareAll, List.mapM_cons, encodeItem]
      cases checkKey key with
      | error e => rfl
      | ok _ =>
          dsimp only
          rw [prepare_of_hookless h, pure_bind, ih]
          dsimp only
          cases store.encode record with
          | error e => rfl
          | ok bytes =>
              dsimp only
              rw [pure_bind]
              cases rest.mapM store.encodeItem <;> rfl

theorem prepareDeletes_of_hookless (h : store.model.Hookless) (keys : List String) :
    store.prepareDeletes ctx keys = Call.lift (checkKeys keys) := by
  induction keys with
  | nil => rfl
  | cons key rest ih =>
      have split : checkKeys (key :: rest) = (do checkKey key; checkKeys rest) := rfl
      rw [prepareDeletes, h.beforeDelete, ih, split, Call.lift_bind]
      rfl

/-! ### Writes -/

theorem run_set_of_hookless (h : store.model.Hookless) (key : String) (record : ρ) (span : Time) :
    (Write.set key record span).run store ctx = underKey ctx key (do
      let bytes ← Call.lift (store.encode record)
      store.provider.set ctx key bytes span) := by
  refine (run_set key record span store.model.afterHooks).trans ?_
  refine (stages_of_done fun _ => h.afterSave key _).trans ?_
  rw [saving, prepare_of_hookless h]
  simp only [underKey, bind_assoc, pure_bind]

theorem run_setBatch_of_hookless (h : store.model.Hookless) (items : List (String × ρ))
    (span : Time) :
    (Write.setBatch items span).run store ctx = (do
      Call.check ctx
      let encoded ← Call.lift (items.mapM store.encodeItem)
      store.provider.setBatch ctx (.ofList encoded) span) := by
  refine (run_setBatch items span store.model.afterHooks).trans ?_
  refine (stages_of_done fun _ => h.afterSaves _).trans ?_
  rw [savingAll, prepareAll_of_hookless h]
  simp only [bind_assoc, pure_bind]

theorem run_delete_of_hookless (h : store.model.Hookless) (key : String) :
    (Write.delete key).run store ctx = underKey ctx key (store.provider.delete ctx key) := by
  refine (run_delete key store.model.afterHooks).trans ?_
  refine (stages_of_done fun _ => h.afterDelete key).trans ?_
  rw [h.beforeDelete]
  simp only [underKey, bind_assoc, pure_bind]

theorem run_deleteBatch_of_hookless (h : store.model.Hookless) (keys : List String) :
    (Write.deleteBatch keys).run store ctx = (do
      Call.check ctx
      Call.lift (checkKeys keys)
      store.provider.deleteBatch ctx keys) := by
  refine (run_deleteBatch keys store.model.afterHooks).trans ?_
  refine (stages_of_done fun _ => h.afterDeletes keys).trans ?_
  rw [prepareDeletes_of_hookless h, bind_assoc]

/-! ### Reads -/

theorem get_of_hookless (h : store.model.Hookless) (key : String) :
    store.get ctx key = underKey ctx key (do
      let bytes ← store.provider.get ctx key
      Call.lift (store.decode bytes)) := by
  simp only [get, h.afterLoad, bind_pure]

theorem loadAll_of_hookless (h : store.model.Hookless) (entries : List (String × List UInt8)) :
    store.loadAll ctx entries = Call.lift (entries.mapM store.decodeEntry) := by
  induction entries with
  | nil => rfl
  | cons e rest ih =>
      obtain ⟨key, bytes⟩ := e
      simp only [loadAll, h.afterLoad, ih, List.mapM_cons, decodeEntry, pure_bind, Call.lift_bind,
        bind_assoc]
      rfl

theorem getBatch_of_hookless (h : store.model.Hookless) (keys : List String) :
    store.getBatch ctx keys = (do
      Call.lift (checkKeys keys)
      Call.check ctx
      let found ← store.provider.getBatch ctx keys
      Call.lift (found.entries.mapM store.decodeEntry)) := by
  simp only [getBatch, loadAll_of_hookless h]

end Depot.RecordStore
