import Depot.Proofs.Record.Hookless
import Depot.Proofs.Relational.RecordTable

/-!
# Tables of records without hooks

Without hooks a record is saved as its row, and rows are loaded as their records.
-/

namespace Depot.RecordTable

variable {ρ σ : Type} {t : RecordTable ρ σ} {ctx : Context}

theorem run_set_of_hookless (h : t.model.Hookless) (record : ρ) :
    (Write.set record).run t ctx = (do
      Call.check ctx
      let row ← Call.lift (t.toRow record)
      t.executor.upsert ctx t.table row) := by
  refine (run_set record t.model.afterHooks).trans ?_
  refine (stages_of_done fun _ => h.afterSave _ _).trans ?_
  simp only [saving, announcing, h.beforeSave, bind_assoc, pure_bind, Call.lift_ok]
  cases t.toRow record with
  | error e => rfl
  | ok row => rfl

theorem run_delete_of_hookless (h : t.model.Hookless) (key : String) :
    (Write.delete key).run t ctx = t.underKey ctx key (t.executor.delete ctx t.table) := by
  refine (run_delete key t.model.afterHooks).trans ?_
  refine (stages_of_done fun _ => h.afterDelete key).trans ?_
  simp only [h.beforeDelete, underKey, bind_assoc, pure_bind]

theorem load_of_hookless (h : t.model.Hookless) (row : Row) :
    t.load ctx row = Call.lift (t.ofRow row) := by
  simp only [load, h.afterLoad, bind_pure]

theorem loadAll_of_hookless (h : t.model.Hookless) (rows : List Row) :
    t.loadAll ctx rows = Call.lift (rows.mapM t.ofRow) := by
  induction rows with
  | nil => rfl
  | cons row rest ih =>
      rw [loadAll, load_of_hookless h, ih, List.mapM_cons]
      simp only [Call.lift_bind]
      rfl

end Depot.RecordTable
