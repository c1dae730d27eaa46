import Depot.Proofs.Record.Hookless
import Depot.Proofs.Vector.RecordIndex

/-!
# Indexes of records without hooks

Without hooks an upsert checks and encodes its vector and hands it to the provider, and every read
decodes the hits that the provider finds.
-/

namespace Depot.RecordIndex

variable {ρ σ : Type} {index : RecordIndex ρ σ} {ctx : Context}

/-- A vector, checked, with its record encoded. -/
def entryFor (index : RecordIndex ρ σ) (v : VectorOf ρ) : Except Error Vector.Entry := do
  checkEntry v.id v.vector
  return ⟨v.id, v.vector, ← index.encode v.metadata⟩

/-- A hit with its record. -/
def loaded (index : RecordIndex ρ σ) (hit : Vector.Hit) : Except Error (VectorOf ρ) := do
  return ⟨hit.id, hit.vector, hit.score, ← index.decode hit.metadata⟩

theorem prepare_of_hookless (h : index.model.Hookless) (v : VectorOf ρ) :
    index.prepare ctx v = pure (v, index.entryFor v) := by
  rw [prepare, entryFor]
  cases checkEntry v.id v.vector with
  | error e => rfl
  | ok _ =>
      dsimp only
      rw [h.beforeSave, pure_bind]
      dsimp only
      show pure (v, (index.encode v.metadata).map _) = _
      cases index.encode v.metadata <;> rfl

theorem prepareAll_of_hookless (h : index.model.Hookless) (vectors : List (VectorOf ρ)) :
    index.prepareAll ctx vectors = pure (vectors, vectors.mapM index.entryFor) := by
  induction vectors with
  | nil => rfl
  | cons v rest ih =>
      rw [prepareAll, prepare_of_hookless h, pure_bind, List.mapM_cons]
      dsimp only
      cases index.entryFor v with
      | error e => rfl
      | ok entry =>
          dsimp only
          rw [ih, pure_bind]
          cases rest.mapM index.entryFor <;> rfl

theorem prepareDeletes_of_hookless (h : index.model.Hookless) (ids : List String) :
    index.prepareDeletes ctx ids = Call.lift (checkKeys ids) := by
  induction ids with
  | nil => rfl
  | cons id rest ih =>
      have split : checkKeys (id :: rest) = (do checkKey id; checkKeys rest) := rfl
      rw [prepareDeletes, h.beforeDelete, ih, split, Call.lift_bind]
      rfl

/-! ### Writes -/

theorem run_upsert_of_hookless (h : index.model.Hookless) (id : String) (vector : Components)
    (record : ρ) :
    (Write.upsert id vector record).run index ctx = (do
      Call.check ctx
      index.provider.upsert ctx (← Call.lift (index.entryFor { id, vector, metadata := record }))) := by
  refine (run_upsert id vector record index.model.afterHooks).trans ?_
  refine (stages_of_done fun _ => h.afterSave id _).trans ?_
  rw [saving, prepare_of_hookless h]
  simp only [bind_assoc, pure_bind]

theorem run_upsertBatch_of_hookless (h : index.model.Hookless) (vectors : List (VectorOf ρ)) :
    (Write.upsertBatch vectors).run index ctx = (do
      Call.check ctx
      index.provider.upsertBatch ctx (← Call.lift (vectors.mapM index.entryFor))) := by
  refine (run_upsertBatch vectors index.model.afterHooks).trans ?_
  refine (stages_of_done fun _ => h.afterSaves _).trans ?_
  rw [savingAll, prepareAll_of_hookless h]
  simp only [bind_assoc, pure_bind]

theorem run_delete_of_hookless (h : index.model.Hookless) (id : String) :
    (Write.delete id).run index ctx = underId ctx id (index.provider.delete ctx id) := by
  refine (run_delete id index.model.afterHooks).trans ?_
  refine (stages_of_done fun _ => h.afterDelete id).trans ?_
  rw [h.beforeDelete]
  simp only [underId, bind_assoc, pure_bind]

theorem run_deleteBatch_of_hookless (h : index.model.Hookless) (ids : List String) :
    (Write.deleteBatch ids).run index ctx = (do
      Call.check ctx
      Call.lift (checkKeys ids)
      index.provider.deleteBatch ctx ids) := by
  refine (run_deleteBatch ids index.model.afterHooks).trans ?_
  refine (stages_of_done fun _ => h.afterDeletes ids).trans ?_
  rw [prepareDeletes_of_hookless h, bind_assoc]

/-! ### Reads -/

theorem load_of_hookless (h : index.model.Hookless) (hit : Vector.Hit) :
    index.load ctx hit = Call.lift (index.loaded hit) := by
  simp only [load, loaded, h.afterLoad, pure_bind, Call.lift_bind]
  rfl

theorem loadAll_of_hookless (h : index.model.Hookless) (hits : List Vector.Hit) :
    index.loadAll ctx hits = Call.lift (hits.mapM index.loaded) := by
  induction hits with
  | nil => rfl
  | cons hit rest ih =>
      rw [loadAll, load_of_hookless h, ih, List.mapM_cons]
      simp only [Call.lift_bind]
      rfl

end Depot.RecordIndex
