import Depot.Proofs.Record.Write
import Depot.Proofs.Statement.Refusal
import Depot.Relational.RecordTable

/-!
# Writes through a table of records

Every write of a table goes in stages, whatever the executor is. An update names no record, so it has
no hooks.
-/

namespace Depot

theorem early_recordMembers (spec : Spec) (v : Value) : Early (Atom.recordMembers spec v) := by
  rw [Atom.recordMembers.eq_def]
  split
  · split
    · exact .error rfl
    · exact .ok _
  · exact .error rfl

theorem early_keyOf (f : FieldSpec) (text : String) : Early (f.keyOf text) := by
  rw [FieldSpec.keyOf]
  refine (early_checkKey text).bind fun _ => ?_
  split
  · exact .ok _
  · exact .error rfl

namespace Relational

/-- An executor whose writes do all or nothing. -/
structure Executor.Sound {σ κ : Type} (contents : Time → σ → κ) (e : Executor σ) : Prop where
  upsert : ∀ ctx table row, (e.upsert ctx table row).Sound contents ctx
  delete : ∀ ctx table key, (e.delete ctx table key).Sound contents ctx
  update : ∀ ctx table u, (e.update ctx table u).Sound contents ctx

end Relational

namespace RecordTable

variable {ρ σ κ : Type}

/-- The operations of a table that write, with their arguments. -/
inductive Write (ρ : Type)
  | set (record : ρ)
  | delete (key : String)
  | update (u : Update) (params : Params)

/-- The outcome of a write. -/
def Write.run (t : RecordTable ρ σ) (ctx : Context) : Write ρ → Call σ Unit
  | set record => do Call.lift (← t.set ctx record).outcome
  | delete key => t.delete ctx key
  | update u params => (fun _ => ()) <$> t.update ctx u params

/-- The call of the executor that a write comes to in a session, made of the record as the hook before the
save leaves it there. -/
def Write.bare (t : RecordTable ρ σ) (ctx : Context) (s : Session σ) :
    Write ρ → Except Error (Call σ Unit)
  | set record => do
    return t.executor.upsert ctx t.table (← t.toRow (t.model.saved (s.occasion ctx) record))
  | delete key => do
    return t.executor.delete ctx t.table (← t.spec.key.keyOf key)
  | update u params => do
    return (fun _ => ()) <$> t.executor.update ctx t.table (← u.bind t.spec params)

/-- The table with other hooks after a write. -/
def withAfter (t : RecordTable ρ σ) (after : AfterHooks ρ) : RecordTable ρ σ :=
  { t with model := t.model.withAfter after }

variable {t : RecordTable ρ σ} {ctx : Context}

theorem early_toRow (record : ρ) : Early (t.toRow record) :=
  (early_recordMembers t.spec (t.model.toValue record)).bind fun _ => .ok _

/-- The row of a record that is about to be saved, for the hook before the save to be told its key. -/
def announcing (t : RecordTable ρ σ) (ctx : Context) (record : ρ) : Call σ Row := do
  Call.check ctx
  Call.lift (t.toRow record)

/-- A record on its way to the executor. -/
def saving (t : RecordTable ρ σ) (ctx : Context) (record : ρ) : Call σ (ρ × Row) := do
  let row ← t.announcing ctx record
  let (record, ready) ← t.model.beforeSave ctx (t.keyText row) record
  Call.lift ready
  let row ← Call.lift (t.toRow record)
  return (record, row)

theorem saving_quietly {s : Session σ} (record : ρ) :
    (t.saving ctx record).Quietly s fun p =>
      t.toRow (t.model.saved (s.occasion ctx) record) = .ok p.2 := by
  simp only [saving, announcing, bind_assoc]
  refine Call.quietly_check_bind <| Call.quietly_lift_bind (early_toRow record) fun row _ => ?_
  refine (t.model.beforeSave_answers _ _).quietly.bind fun r v => ?_
  intro h
  obtain ⟨saved, early⟩ := h
  refine (Call.quietly_lift early fun _ _ => trivial).bind fun _ w _ => ?_
  refine (Call.quietly_lift (early_toRow r.1) fun _ same => same).bind fun row x made => ?_
  refine (Call.answers_pure (a := (r.1, row)) ?_).quietly
  rw [← saved]
  exact made

/-! ### Stages -/

theorem run_set (record : ρ) (after : AfterHooks ρ) :
    (Write.set record).run (t.withAfter after) ctx =
      stages (t.saving ctx record) (fun p => t.executor.upsert ctx t.table p.2)
        fun p => (t.model.withAfter after).afterSave ctx (t.keyText p.2) p.1 := by
  have announced : (do Call.check ctx; Call.lift ((t.withAfter after).toRow record)) =
      t.announcing ctx record := rfl
  rw [Write.run, set, announced, stages, saving, bind_assoc, bind_assoc]
  funext s
  rw [Call.bind_apply, Call.attempt_apply, Call.bind_apply]
  rcases t.announcing ctx record s with ⟨_ | row, u⟩
  · rfl
  · dsimp only
    simp only [bind_assoc, pure_bind]
    refine congrFun (congrArg _ (funext fun p => ?_)) u
    exact Call.attempt_bind_lift _ (Saved.mk p.1) Saved.outcome fun _ => rfl

theorem run_delete (key : String) (after : AfterHooks ρ) :
    (Write.delete key).run (t.withAfter after) ctx =
      stages (t.underKey ctx key fun v => do
          t.model.beforeDelete ctx key
          return v)
        (fun v => t.executor.delete ctx t.table v)
        fun _ => (t.model.withAfter after).afterDelete ctx key := by
  simp only [stages, underKey, bind_assoc, pure_bind]
  rfl

theorem run_update (u : Update) (params : Params) (after : AfterHooks ρ) :
    (Write.update u params).run (t.withAfter after) ctx =
      stages (underBound ctx (u.bind t.spec params) fun bound => return bound)
        (fun bound => (fun _ => ()) <$> t.executor.update ctx t.table bound)
        fun _ => return .ok () := by
  show (fun _ => ()) <$> underBound ctx (u.bind t.spec params) (t.executor.update ctx t.table) = _
  simp only [stages, underBound, bind_assoc, pure_bind, map_bind, Call.lift_ok]
  refine congrArg _ (funext fun bound => congrArg _ (funext fun _ => ?_))
  exact (bind_pure _).symm

/-- The outcome of a write through a table tells whether it took effect. -/
theorem truthful {contents : Time → σ → κ} (sound : t.executor.Sound contents) (w : Write ρ)
    (s : Session σ) :
    Truthful contents (fun after => w.run (t.withAfter after) ctx) t.model.afterHooks
      (w.bare t ctx s) s := by
  cases w with
  | set record =>
      refine truthful_of_stages (fun after => run_set record after) ?_
        (fun p => sound.upsert ctx t.table p.2) fun after p u => Model.afterSave_answers _ _ _
      refine (saving_quietly record).mono fun p made => ?_
      rw [Write.bare, made]
      rfl
  | delete key =>
      refine truthful_of_stages (fun after => run_delete key after) ?_
        (fun v => sound.delete ctx t.table v) fun after p u => Model.afterDelete_answers _ _
      refine Call.quietly_lift_bind (early_keyOf t.spec.key key) fun v read => ?_
      refine Call.quietly_check_bind <| (t.model.beforeDelete_quietly key).bind fun _ x _ => ?_
      refine (Call.answers_pure ?_).quietly
      rw [Write.bare, read]
      rfl
  | update u params =>
      refine truthful_of_stages (fun after => run_update u params after) ?_
        (fun bound => (sound.update ctx t.table bound).discard)
        fun after p u => Call.answers_pure .ok
      refine Call.quietly_lift_bind (u.refuses_bind t.spec params).early fun bound made => ?_
      refine Call.quietly_check_bind (Call.answers_pure ?_).quietly
      rw [Write.bare, made]
      rfl

end RecordTable

end Depot
