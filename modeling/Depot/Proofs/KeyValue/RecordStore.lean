import Depot.KeyValue.RecordStore
import Depot.Proofs.Codec
import Depot.Proofs.Record.Write

/-!
# Writes through a key-value store of records

Every write of a store goes in stages, whatever the provider is.
-/

namespace Depot

namespace KeyValue

/-- A provider whose writes do all or nothing. -/
structure Provider.Sound {σ κ : Type} (contents : Time → σ → κ) (p : Provider σ) : Prop where
  set : ∀ ctx key bytes span, (p.set ctx key bytes span).Sound contents ctx
  setBatch : ∀ ctx items span, (p.setBatch ctx items span).Sound contents ctx
  delete : ∀ ctx key, (p.delete ctx key).Sound contents ctx
  deleteBatch : ∀ ctx keys, (p.deleteBatch ctx keys).Sound contents ctx

end KeyValue

namespace RecordStore

variable {ρ σ κ : Type}

/-- The operations of a store that write, with their arguments. -/
inductive Write (ρ : Type)
  | set (key : String) (record : ρ) (span : Time)
  | setBatch (items : List (String × ρ)) (span : Time)
  | delete (key : String)
  | deleteBatch (keys : List String)

/-- The outcome of a write. -/
def Write.run (store : RecordStore ρ σ) (ctx : Context) : Write ρ → Call σ Unit
  | set key record span => do Call.lift (← store.set ctx key record span).outcome
  | setBatch items span => do Call.lift (← store.setBatch ctx items span).2
  | delete key => store.delete ctx key
  | deleteBatch keys => store.deleteBatch ctx keys

/-- The call of the provider that a write comes to in a session, made of the records as the hooks before
their saves leave them there. -/
def Write.bare (store : RecordStore ρ σ) (ctx : Context) (s : Session σ) :
    Write ρ → Except Error (Call σ Unit)
  | set key record span => do
    let bytes ← store.encode (store.model.saved (s.occasion ctx) record)
    return store.provider.set ctx key bytes span
  | setBatch items span => do
    let encoded ← (store.model.savedAll ctx items s).mapM fun item => do
      return (item.1, ← store.encode item.2)
    return store.provider.setBatch ctx (.ofList encoded) span
  | delete key => .ok (store.provider.delete ctx key)
  | deleteBatch keys => .ok (store.provider.deleteBatch ctx keys)

/-- The store with other hooks after a write. -/
def withAfter (store : RecordStore ρ σ) (after : AfterHooks ρ) : RecordStore ρ σ :=
  { store with model := store.model.withAfter after }

variable {store : RecordStore ρ σ} {ctx : Context}

/-! ### Before the commit -/

/-- A record is encoded as the hook before the save leaves it. -/
theorem prepare_answers (honest : store.codec.Honest) {s : Session σ} (key : String) (record : ρ) :
    (store.prepare ctx key record).Answers s fun p =>
      Early p.2 ∧ ∀ bytes, p.2 = .ok bytes →
        store.encode (store.model.saved (s.occasion ctx) record) = .ok bytes := by
  refine (store.model.beforeSave_answers key record).bind fun r t => ?_
  intro h
  obtain ⟨saved, early⟩ := h
  refine Call.answers_pure ⟨early.bind fun _ => honest _, fun bytes encoded => ?_⟩
  obtain ⟨_, _, whole⟩ := Fallible.bind_eq_ok_iff.1 encoded
  rw [← saved]
  exact whole

/-- Encoding leaves the session as the hook left it. -/
theorem snd_prepare (key : String) (record : ρ) (s : Session σ) :
    (store.prepare ctx key record s).2 = (store.model.beforeSave ctx key record s).2 := by
  rw [prepare, Call.bind_apply]
  rcases store.model.beforeSave ctx key record s with ⟨_ | _, _⟩ <;> rfl

/-- A single record on its way to the provider. -/
def saving (store : RecordStore ρ σ) (ctx : Context) (key : String) (record : ρ) :
    Call σ (ρ × List UInt8) := do
  underKey ctx key (pure ())
  let (record, encoded) ← store.prepare ctx key record
  return (record, ← Call.lift encoded)

theorem saving_quietly (honest : store.codec.Honest) {s : Session σ} (key : String) (record : ρ) :
    (store.saving ctx key record).Quietly s fun p =>
      store.encode (store.model.saved (s.occasion ctx) record) = .ok p.2 := by
  simp only [saving, underKey, bind_assoc]
  exact quietly_checks (prepare_answers honest key record).release

/-- The items of a batch are encoded as the hooks before their saves leave them. -/
theorem prepareAll_answers (honest : store.codec.Honest) {s : Session σ}
    (items : List (String × ρ)) :
    (store.prepareAll ctx items).Answers s fun p =>
      Early p.2 ∧ ∀ encoded, p.2 = .ok encoded →
        ((store.model.savedAll ctx items s).mapM fun item => do
          return (item.1, ← store.encode item.2)) = .ok encoded := by
  induction items generalizing s with
  | nil => exact Call.answers_pure ⟨.ok _, fun _ same => same⟩
  | cons item rest ih =>
      obtain ⟨key, record⟩ := item
      rw [prepareAll]
      cases checked : checkKey key with
      | error e =>
          refine Call.answers_pure ⟨.error (early_checkKey key e checked), fun _ same => ?_⟩
          cases same
      | ok _ =>
          refine (prepare_answers honest key record).bind_snd fun p h => ?_
          obtain ⟨early, whole⟩ := h
          rw [snd_prepare]
          obtain ⟨record', encoded⟩ := p
          cases encoded with
          | error e => exact Call.answers_pure ⟨.error (early e rfl), fun _ same => by cases same⟩
          | ok bytes =>
              refine ih.bind fun others u => ?_
              intro h
              obtain ⟨early', whole'⟩ := h
              refine Call.answers_pure ⟨early'.map _, fun encoded same => ?_⟩
              cases result : others.2 with
              | error e => simp [result, Except.map] at same
              | ok entries =>
                  simp only [result, Except.map, Except.ok.injEq] at same
                  subst same
                  rw [Model.savedAll, List.mapM_cons, whole bytes rfl, whole' entries result]
                  rfl

/-- A batch on its way to the provider. -/
def savingAll (store : RecordStore ρ σ) (ctx : Context) (items : List (String × ρ)) :
    Call σ (List (String × ρ) × List (String × List UInt8)) := do
  Call.check ctx
  let (items, encoded) ← store.prepareAll ctx items
  return (items, ← Call.lift encoded)

theorem savingAll_quietly (honest : store.codec.Honest) {s : Session σ} (items : List (String × ρ)) :
    (store.savingAll ctx items).Quietly s fun p =>
      ((store.model.savedAll ctx items s).mapM fun item => do
        return (item.1, ← store.encode item.2)) = .ok p.2 :=
  Call.quietly_check_bind (prepareAll_answers honest items).release

theorem prepareDeletes_quietly {s : Session σ} (keys : List String) :
    (store.prepareDeletes ctx keys).Quietly s fun _ => True := by
  induction keys generalizing s with
  | nil => exact (Call.answers_pure trivial).quietly
  | cons key rest ih =>
      rw [prepareDeletes]
      exact Call.quietly_lift_bind (early_checkKey key) fun _ _ =>
        (store.model.beforeDelete_quietly key).bind fun _ u _ => ih

/-! ### Stages -/

theorem run_set (key : String) (record : ρ) (span : Time) (after : AfterHooks ρ) :
    (Write.set key record span).run (store.withAfter after) ctx =
      stages (store.saving ctx key record) (fun p => store.provider.set ctx key p.2 span)
        fun p => (store.model.withAfter after).afterSave ctx key p.1 := by
  refine (Call.attempt_check_bind_lift _ (fun e => ⟨record, .error e⟩) _ Saved.outcome
    fun _ => rfl).trans ?_
  simp only [stages, saving, bind_assoc, pure_bind]
  refine congrArg _ (funext fun _ => congrArg _ (funext fun p => ?_))
  exact Call.attempt_bind_lift _ (Saved.mk p.1) Saved.outcome fun _ => rfl

theorem prepareAll_withAfter (after : AfterHooks ρ) (items : List (String × ρ)) :
    (store.withAfter after).prepareAll ctx items = store.prepareAll ctx items := by
  induction items with
  | nil => rfl
  | cons item rest ih =>
      rw [prepareAll, prepareAll, ih]
      rfl

theorem prepareDeletes_withAfter (after : AfterHooks ρ) (keys : List String) :
    (store.withAfter after).prepareDeletes ctx keys = store.prepareDeletes ctx keys := by
  induction keys with
  | nil => rfl
  | cons key rest ih =>
      rw [prepareDeletes, prepareDeletes, ih]
      rfl

theorem run_setBatch (items : List (String × ρ)) (span : Time) (after : AfterHooks ρ) :
    (Write.setBatch items span).run (store.withAfter after) ctx =
      stages (store.savingAll ctx items) (fun p => store.provider.setBatch ctx (.ofList p.2) span)
        fun p => (store.model.withAfter after).afterSaves ctx p.1 := by
  refine (Call.attempt_check_bind_lift _ (fun e => (items, Except.error e)) _ Prod.snd
    fun _ => rfl).trans ?_
  rw [prepareAll_withAfter]
  simp only [stages, savingAll, bind_assoc, pure_bind]
  refine congrArg _ (funext fun _ => congrArg _ (funext fun p => ?_))
  exact Call.attempt_bind_lift _ (Prod.mk p.1) Prod.snd fun _ => rfl

theorem run_delete (key : String) (after : AfterHooks ρ) :
    (Write.delete key).run (store.withAfter after) ctx =
      stages (underKey ctx key (store.model.beforeDelete ctx key))
        (fun _ => store.provider.delete ctx key)
        fun _ => (store.model.withAfter after).afterDelete ctx key := by
  simp only [stages, underKey, bind_assoc]
  rfl

theorem run_deleteBatch (keys : List String) (after : AfterHooks ρ) :
    (Write.deleteBatch keys).run (store.withAfter after) ctx =
      stages (do Call.check ctx; store.prepareDeletes ctx keys)
        (fun _ => store.provider.deleteBatch ctx keys)
        fun _ => (store.model.withAfter after).afterDeletes ctx keys := by
  rw [← prepareDeletes_withAfter after keys]
  simp only [stages, bind_assoc]
  rfl

/-- The outcome of a write through a store tells whether it took effect. -/
theorem truthful {contents : Time → σ → κ} (honest : store.codec.Honest)
    (sound : store.provider.Sound contents) (w : Write ρ) (s : Session σ) :
    Truthful contents (fun after => w.run (store.withAfter after) ctx) store.model.afterHooks
      (w.bare store ctx s) s := by
  cases w with
  | set key record span =>
      refine truthful_of_stages (fun after => run_set key record span after) ?_
        (fun p => sound.set ctx key p.2 span) fun after p t => Model.afterSave_answers _ _ _
      refine (saving_quietly honest key record).mono fun p encoded => ?_
      rw [Write.bare, encoded]
      rfl
  | setBatch items span =>
      refine truthful_of_stages (fun after => run_setBatch items span after) ?_
        (fun p => sound.setBatch ctx (.ofList p.2) span) fun after p t => Model.afterSaves_answers _ _
      refine (savingAll_quietly honest items).mono fun p encoded => ?_
      rw [Write.bare, encoded]
      rfl
  | delete key =>
      refine truthful_of_stages (fun after => run_delete key after) ?_
        (fun _ => sound.delete ctx key) fun after p t => Model.afterDelete_answers _ _
      exact quietly_checks <| (store.model.beforeDelete_quietly key).mono fun _ _ => rfl
  | deleteBatch keys =>
      refine truthful_of_stages (fun after => run_deleteBatch keys after) ?_
        (fun _ => sound.deleteBatch ctx keys) fun after p t => Model.afterDeletes_answers _ _
      exact Call.quietly_check_bind <| (prepareDeletes_quietly keys).mono fun _ _ => rfl

end RecordStore

end Depot
