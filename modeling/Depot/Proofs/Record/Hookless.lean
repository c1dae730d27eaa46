import Depot.Proofs.Record.Write

/-!
# Record types without hooks

A type that lists no roles runs no hook: every dispatch answers at once with what it was given. So a
write through a store of such records comes down to its checks, the encoding and the call of the
provider, and a read to the call of the provider and the decoding.
-/

namespace Depot

namespace Model

variable {ρ σ α : Type} {m : Model ρ}

/-- The type has no hooks at any role. -/
def Hookless (m : Model ρ) : Prop := m.roles = []

theorem Hookless.provides (h : m.Hookless) (role : Role) : m.provides role = false := by
  rw [Model.provides, show m.roles = [] from h]
  rfl

theorem Hookless.dispatch (h : m.Hookless) (role : Role) (ctx : Context) (key : String) (idle : α)
    (hook : Occasion → HookRun α) :
    (m.dispatch role ctx key idle hook : Call σ (α × Except Error Unit)) = pure (idle, .ok ()) := by
  rw [Model.dispatch, h.provides role]
  rfl

variable {ctx : Context}

theorem Hookless.beforeSave (h : m.Hookless) (key : String) (record : ρ) :
    (m.beforeSave ctx key record : Call σ _) = pure (record, .ok ()) :=
  h.dispatch .beforeSave ctx key record _

theorem Hookless.afterSave (h : m.Hookless) (key : String) (record : ρ) :
    (m.afterSave ctx key record : Call σ _) = pure (.ok ()) := by
  rw [Model.afterSave, h.dispatch]
  rfl

theorem Hookless.afterLoad (h : m.Hookless) (key : String) (record : ρ) :
    (m.afterLoad ctx key record : Call σ ρ) = pure record := by
  rw [Model.afterLoad, h.dispatch]
  rfl

theorem Hookless.beforeDelete (h : m.Hookless) (key : String) :
    (m.beforeDelete ctx key : Call σ Unit) = pure () := by
  rw [Model.beforeDelete, h.dispatch]
  rfl

theorem Hookless.afterDelete (h : m.Hookless) (key : String) :
    (m.afterDelete ctx key : Call σ _) = pure (.ok ()) := by
  rw [Model.afterDelete, h.dispatch]
  rfl

theorem Hookless.afterSaves (h : m.Hookless) (items : List (String × ρ)) :
    (m.afterSaves ctx items : Call σ _) = pure (.ok ()) := by
  induction items with
  | nil => rfl
  | cons item rest ih =>
      obtain ⟨key, record⟩ := item
      rw [Model.afterSaves, h.afterSave, ih]
      rfl

theorem Hookless.afterDeletes (h : m.Hookless) (keys : List String) :
    (m.afterDeletes ctx keys : Call σ _) = pure (.ok ()) := by
  induction keys with
  | nil => rfl
  | cons key rest ih =>
      rw [Model.afterDeletes, h.afterDelete, ih]
      rfl

end Model

/-- A write with nothing to do after the commit. -/
theorem stages_of_done {σ π : Type} {prepare : Call σ π} {commit : π → Call σ Unit}
    {late : π → Call σ (Except Error Unit)} (h : ∀ p, late p = pure (.ok ())) :
    stages prepare commit late = prepare >>= commit := by
  rw [stages]
  refine congrArg _ (funext fun p => ?_)
  rw [h]
  exact bind_pure (commit p)

end Depot
