import Depot.Proofs.Record.Firing

/-!
# Hooks around a write

A hook touches the record and the context, never the backend. The hook before a save decides what is
saved (`Model.saved`), on another occasion perhaps otherwise; an error of a hook claims that the operation
was done exactly if the hook comes after it.
-/

namespace Depot

/-- An error, if there is one, says that the operation was done. -/
def Late (outcome : Except Error Unit) : Prop :=
  ∀ e, outcome = .error e → e.isPostCommit = true

theorem Late.ok : Late (.ok ()) := by
  intro e h
  cases h

/-- Of two outcomes the first failure counts. -/
theorem Late.orElse {first others : Except Error Unit} : Late first → Late others →
    Late (match first with | .ok () => others | .error e => .error e) := by
  intro h h'
  cases first with
  | ok _ => exact h'
  | error e => exact h

/-- The hooks that run once the store has done its work. -/
structure AfterHooks (ρ : Type) where
  save : Occasion → ρ → HookRun Unit
  delete : Occasion → String → HookRun Unit

namespace Model

variable {ρ σ α : Type}

/-- The record as the hook before a save leaves it. -/
def saved (m : Model ρ) (now : Occasion) (record : ρ) : ρ :=
  if m.provides .beforeSave then (m.hooks.beforeSave now record).result else record

/-- Records as the hooks before their saves leave them. Each of the hooks sees the session that the one
before it leaves. -/
def savedAll (m : Model ρ) (ctx : Context) : List (String × ρ) → Session σ → List (String × ρ)
  | [], _ => []
  | (key, record) :: rest, s =>
    (key, m.saved (s.occasion ctx) record) :: m.savedAll ctx rest (m.beforeSave ctx key record s).2

/-- The hooks of the type that run after a write. -/
def afterHooks (m : Model ρ) : AfterHooks ρ := ⟨m.hooks.afterSave, m.hooks.afterDelete⟩

/-- The type with other hooks after a write. -/
def withAfter (m : Model ρ) (after : AfterHooks ρ) : Model ρ :=
  { m with hooks := { m.hooks with afterSave := after.save, afterDelete := after.delete } }

variable {s : Session σ} {ctx : Context}

/-- What a hook comes to: the record as it leaves it, and an error of its role if it fails. -/
def Dispatched (role : Role) (result : α) (r : α × Except Error Unit) : Prop :=
  r.1 = result ∧ ∀ e, r.2 = .error e → ∃ source, e = .hook role source

theorem Dispatched.isPostCommit {role : Role} {result : α} {r : α × Except Error Unit}
    (h : Dispatched role result r) : ∀ e, r.2 = .error e → e.isPostCommit = role.isPostCommit := by
  intro e failed
  obtain ⟨source, rfl⟩ := h.2 e failed
  rfl

/-- A hook leaves the backend alone. What it makes of the record counts if the type has it. -/
theorem dispatch_answers (m : Model ρ) (role : Role) (key : String) (idle : α)
    (hook : Occasion → HookRun α) :
    (m.dispatch role ctx key idle hook).Answers s
      (Dispatched role (if m.provides role then (hook (s.occasion ctx)).result else idle)) := by
  cases provided : m.provides role with
  | false =>
      rw [dispatch, provided]
      exact Call.answers_pure ⟨rfl, fun e failed => by cases failed⟩
  | true =>
      exact ⟨_, _, dispatch_apply provided key idle hook s, s.leads_fired ctx _, rfl,
        fun _ => Firing.exists_source⟩

theorem beforeSave_answers (m : Model ρ) (key : String) (record : ρ) :
    (m.beforeSave ctx key record).Answers s fun r =>
      r.1 = m.saved (s.occasion ctx) record ∧ Early r.2 :=
  (m.dispatch_answers .beforeSave key record (m.hooks.beforeSave · record)).mono
    fun _ ran => ⟨ran.1, ran.isPostCommit⟩

theorem beforeDelete_quietly (m : Model ρ) (key : String) :
    (m.beforeDelete ctx key).Quietly s fun _ => True :=
  (m.dispatch_answers .beforeDelete key () (m.hooks.beforeDelete · key)).quietly.bind
    fun _ _ ran => Call.quietly_lift ran.isPostCommit fun _ _ => trivial

theorem afterSave_answers (m : Model ρ) (key : String) (record : ρ) :
    (m.afterSave ctx key record).Answers s Late :=
  (m.dispatch_answers .afterSave key () (m.hooks.afterSave · record)).bind
    fun _ _ ran => Call.answers_pure ran.isPostCommit

theorem afterDelete_answers (m : Model ρ) (key : String) :
    (m.afterDelete ctx key).Answers s Late :=
  (m.dispatch_answers .afterDelete key () (m.hooks.afterDelete · key)).bind
    fun _ _ ran => Call.answers_pure ran.isPostCommit

theorem afterSaves_answers (m : Model ρ) (items : List (String × ρ)) :
    (m.afterSaves ctx items).Answers s Late := by
  induction items generalizing s with
  | nil => exact Call.answers_pure .ok
  | cons item rest ih =>
      obtain ⟨key, record⟩ := item
      rw [afterSaves]
      exact (m.afterSave_answers key record).bind fun first t late =>
        ih.bind fun others u late' => Call.answers_pure (late.orElse late')

theorem afterDeletes_answers (m : Model ρ) (keys : List String) :
    (m.afterDeletes ctx keys).Answers s Late := by
  induction keys generalizing s with
  | nil => exact Call.answers_pure .ok
  | cons key rest ih =>
      rw [afterDeletes]
      exact (m.afterDelete_answers key).bind fun first t late =>
        ih.bind fun others u late' => Call.answers_pure (late.orElse late')

end Model

/-! ### Keys -/

theorem early_checkKey (key : String) : Early (checkKey key) := by
  rw [checkKey]
  split
  · exact .error rfl
  · exact .ok ()

theorem ne_of_checkKey_eq_ok {key : String} (h : checkKey key = .ok ()) : key ≠ "" := by
  intro empty
  rw [checkKey, if_pos empty] at h
  cases h

/-- Checks of the key and the context before a call. -/
theorem quietly_checks {σ α : Type} {s : Session σ} {ctx : Context} {key : String} {call : Call σ α}
    {P : α → Prop} (h : call.Quietly s P) :
    (do
      Call.lift (checkKey key)
      Call.check ctx
      call).Quietly s P :=
  Call.quietly_lift_bind (early_checkKey key) fun _ _ => Call.quietly_check_bind h

end Depot
