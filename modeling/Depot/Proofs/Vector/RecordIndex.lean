import Depot.Proofs.Codec
import Depot.Proofs.Record.Write
import Depot.Vector.RecordIndex

/-!
# Writes through a vector index of records

Every write of an index goes in stages, whatever the provider is.
-/

namespace Depot

theorem early_validate (v : Components) : Early v.validate := by
  rw [Components.validate]
  split
  · exact .error rfl
  · split
    · exact .error rfl
    · exact .ok ()

namespace Vector

/-- A provider whose writes do all or nothing. -/
structure Provider.Sound {σ κ : Type} (contents : Time → σ → κ) (p : Provider σ) : Prop where
  upsert : ∀ ctx entry, (p.upsert ctx entry).Sound contents ctx
  upsertBatch : ∀ ctx entries, (p.upsertBatch ctx entries).Sound contents ctx
  delete : ∀ ctx id, (p.delete ctx id).Sound contents ctx
  deleteBatch : ∀ ctx ids, (p.deleteBatch ctx ids).Sound contents ctx

end Vector

namespace RecordIndex

variable {ρ σ κ : Type}

/-- The operations of an index that write, with their arguments. -/
inductive Write (ρ : Type)
  | upsert (id : String) (vector : Components) (record : ρ)
  | upsertBatch (vectors : List (VectorOf ρ))
  | delete (id : String)
  | deleteBatch (ids : List String)

/-- The outcome of a write. -/
def Write.run (index : RecordIndex ρ σ) (ctx : Context) : Write ρ → Call σ Unit
  | upsert id vector record => do Call.lift (← index.upsert ctx id vector record).outcome
  | upsertBatch vectors => do Call.lift (← index.upsertBatch ctx vectors).2
  | delete id => index.delete ctx id
  | deleteBatch ids => index.deleteBatch ctx ids

/-- The entry of a vector, its record as the hook before the save leaves it. -/
def entryOf (index : RecordIndex ρ σ) (now : Occasion) (v : VectorOf ρ) : Except Error Vector.Entry := do
  return ⟨v.id, v.vector, ← index.encode (index.model.saved now v.metadata)⟩

/-- The entries of vectors, each hook seeing the session that the one before it leaves. -/
def entriesOf (index : RecordIndex ρ σ) (ctx : Context) :
    List (VectorOf ρ) → Session σ → Except Error (List Vector.Entry)
  | [], _ => .ok []
  | v :: rest, s => do
    let entry ← index.entryOf (s.occasion ctx) v
    return entry :: (← index.entriesOf ctx rest (index.model.beforeSave ctx v.id v.metadata s).2)

/-- The call of the provider that a write comes to in a session. -/
def Write.bare (index : RecordIndex ρ σ) (ctx : Context) (s : Session σ) :
    Write ρ → Except Error (Call σ Unit)
  | upsert id vector record => do
    return index.provider.upsert ctx
      (← index.entryOf (s.occasion ctx) { id, vector, metadata := record })
  | upsertBatch vectors => do
    return index.provider.upsertBatch ctx (← index.entriesOf ctx vectors s)
  | delete id => .ok (index.provider.delete ctx id)
  | deleteBatch ids => .ok (index.provider.deleteBatch ctx ids)

/-- The index with other hooks after a write. -/
def withAfter (index : RecordIndex ρ σ) (after : AfterHooks ρ) : RecordIndex ρ σ :=
  { index with model := index.model.withAfter after }

variable {index : RecordIndex ρ σ} {ctx : Context}

/-! ### Before the commit -/

theorem early_checkEntry (id : String) (vector : Components) : Early (checkEntry id vector) :=
  (early_checkKey id).bind fun _ => early_validate vector

/-- A record is encoded as the hook before the save leaves it. -/
theorem prepare_answers (honest : index.codec.Honest) {s : Session σ} (v : VectorOf ρ) :
    (index.prepare ctx v).Answers s fun p =>
      Early p.2 ∧ ∀ entry, p.2 = .ok entry → checkEntry v.id v.vector = .ok () ∧
        index.entryOf (s.occasion ctx) v = .ok entry := by
  rw [prepare]
  cases checked : checkEntry v.id v.vector with
  | error e =>
      refine Call.answers_pure ⟨.error (early_checkEntry v.id v.vector e checked), fun _ same => ?_⟩
      cases same
  | ok _ =>
      refine (index.model.beforeSave_answers v.id v.metadata).bind fun r t => ?_
      intro h
      obtain ⟨saved, early⟩ := h
      have encoded : Early (r.2.bind fun _ => index.encode r.1) := early.bind fun _ => honest _
      refine Call.answers_pure ⟨encoded.map _, fun entry same => ?_⟩
      cases result : r.2.bind fun _ => index.encode r.1 with
      | error e => simp [result, Except.map] at same
      | ok bytes =>
          simp only [result, Except.map, Except.ok.injEq] at same
          subst same
          obtain ⟨_, _, whole⟩ := Fallible.bind_eq_ok_iff.1 result
          refine ⟨rfl, ?_⟩
          rw [entryOf, ← saved, whole]
          rfl

/-- Once its check is passed, a vector is prepared in the session that its hook leaves. -/
theorem snd_prepare {v : VectorOf ρ} (checked : checkEntry v.id v.vector = .ok ()) (s : Session σ) :
    (index.prepare ctx v s).2 = (index.model.beforeSave ctx v.id v.metadata s).2 := by
  rw [prepare, checked]
  dsimp only
  rw [Call.bind_apply]
  rcases index.model.beforeSave ctx v.id v.metadata s with ⟨_ | _, _⟩ <;> rfl

/-- A single record on its way to the provider. -/
def saving (index : RecordIndex ρ σ) (ctx : Context) (v : VectorOf ρ) :
    Call σ (VectorOf ρ × Vector.Entry) := do
  Call.check ctx
  let (v, prepared) ← index.prepare ctx v
  return (v, ← Call.lift prepared)

theorem saving_quietly (honest : index.codec.Honest) {s : Session σ} (v : VectorOf ρ) :
    (index.saving ctx v).Quietly s fun p => index.entryOf (s.occasion ctx) v = .ok p.2 :=
  Call.quietly_check_bind <| (prepare_answers honest v).release.mono fun _ made => made.2

/-- The vectors of a batch are encoded as the hooks before their saves leave them. -/
theorem prepareAll_answers (honest : index.codec.Honest) {s : Session σ}
    (vectors : List (VectorOf ρ)) :
    (index.prepareAll ctx vectors).Answers s fun p =>
      Early p.2 ∧ ∀ entries, p.2 = .ok entries → index.entriesOf ctx vectors s = .ok entries := by
  induction vectors generalizing s with
  | nil => exact Call.answers_pure ⟨.ok _, fun _ same => same⟩
  | cons v rest ih =>
      rw [prepareAll]
      refine (prepare_answers honest v).bind_snd fun p h => ?_
      obtain ⟨early, whole⟩ := h
      obtain ⟨v', prepared⟩ := p
      cases prepared with
      | error e => exact Call.answers_pure ⟨.error (early e rfl), fun _ same => by cases same⟩
      | ok entry =>
          rw [snd_prepare (whole entry rfl).1]
          refine ih.bind fun others u => ?_
          intro h
          obtain ⟨early', whole'⟩ := h
          refine Call.answers_pure ⟨early'.map _, fun entries same => ?_⟩
          cases result : others.2 with
          | error e => simp [result, Except.map] at same
          | ok rest =>
              simp only [result, Except.map, Except.ok.injEq] at same
              subst same
              rw [entriesOf, (whole entry rfl).2, whole' rest result]
              rfl

/-- A batch on its way to the provider. -/
def savingAll (index : RecordIndex ρ σ) (ctx : Context) (vectors : List (VectorOf ρ)) :
    Call σ (List (VectorOf ρ) × List Vector.Entry) := do
  Call.check ctx
  let (vectors, prepared) ← index.prepareAll ctx vectors
  return (vectors, ← Call.lift prepared)

theorem savingAll_quietly (honest : index.codec.Honest) {s : Session σ}
    (vectors : List (VectorOf ρ)) :
    (index.savingAll ctx vectors).Quietly s fun p => index.entriesOf ctx vectors s = .ok p.2 :=
  Call.quietly_check_bind (prepareAll_answers honest vectors).release

theorem prepareDeletes_quietly {s : Session σ} (ids : List String) :
    (index.prepareDeletes ctx ids).Quietly s fun _ => True := by
  induction ids generalizing s with
  | nil => exact (Call.answers_pure trivial).quietly
  | cons id rest ih =>
      rw [prepareDeletes]
      exact Call.quietly_lift_bind (early_checkKey id) fun _ _ =>
        (index.model.beforeDelete_quietly id).bind fun _ u _ => ih

/-! ### Stages -/

theorem prepareAll_withAfter (after : AfterHooks ρ) (vectors : List (VectorOf ρ)) :
    (index.withAfter after).prepareAll ctx vectors = index.prepareAll ctx vectors := by
  induction vectors with
  | nil => rfl
  | cons v rest ih =>
      rw [prepareAll, prepareAll, ih]
      rfl

theorem prepareDeletes_withAfter (after : AfterHooks ρ) (ids : List String) :
    (index.withAfter after).prepareDeletes ctx ids = index.prepareDeletes ctx ids := by
  induction ids with
  | nil => rfl
  | cons id rest ih =>
      rw [prepareDeletes, prepareDeletes, ih]
      rfl

theorem run_upsert (id : String) (vector : Components) (record : ρ) (after : AfterHooks ρ) :
    (Write.upsert id vector record).run (index.withAfter after) ctx =
      stages (index.saving ctx { id, vector, metadata := record })
        (fun p => index.provider.upsert ctx p.2)
        fun p => (index.model.withAfter after).afterSave ctx id p.1.metadata := by
  refine (Call.attempt_check_bind_lift _ (fun e => ⟨record, .error e⟩) _ Saved.outcome
    fun _ => rfl).trans ?_
  simp only [stages, saving, bind_assoc, pure_bind]
  refine congrArg _ (funext fun _ => congrArg _ (funext fun p => ?_))
  exact Call.attempt_bind_lift _ (Saved.mk p.1.metadata) Saved.outcome fun _ => rfl

theorem run_upsertBatch (vectors : List (VectorOf ρ)) (after : AfterHooks ρ) :
    (Write.upsertBatch vectors).run (index.withAfter after) ctx =
      stages (index.savingAll ctx vectors) (fun p => index.provider.upsertBatch ctx p.2)
        fun p => (index.model.withAfter after).afterSaves ctx (p.1.map fun v => (v.id, v.metadata)) := by
  refine (Call.attempt_check_bind_lift _ (fun e => (vectors, Except.error e)) _ Prod.snd
    fun _ => rfl).trans ?_
  rw [prepareAll_withAfter]
  simp only [stages, savingAll, bind_assoc, pure_bind]
  refine congrArg _ (funext fun _ => congrArg _ (funext fun p => ?_))
  exact Call.attempt_bind_lift _ (Prod.mk p.1) Prod.snd fun _ => rfl

theorem run_delete (id : String) (after : AfterHooks ρ) :
    (Write.delete id).run (index.withAfter after) ctx =
      stages (underId ctx id (index.model.beforeDelete ctx id))
        (fun _ => index.provider.delete ctx id)
        fun _ => (index.model.withAfter after).afterDelete ctx id := by
  simp only [stages, underId, bind_assoc]
  rfl

theorem run_deleteBatch (ids : List String) (after : AfterHooks ρ) :
    (Write.deleteBatch ids).run (index.withAfter after) ctx =
      stages (do Call.check ctx; index.prepareDeletes ctx ids)
        (fun _ => index.provider.deleteBatch ctx ids)
        fun _ => (index.model.withAfter after).afterDeletes ctx ids := by
  rw [← prepareDeletes_withAfter after ids]
  simp only [stages, bind_assoc]
  rfl

/-- The outcome of a write through an index tells whether it took effect. -/
theorem truthful {contents : Time → σ → κ} (honest : index.codec.Honest)
    (sound : index.provider.Sound contents) (w : Write ρ) (s : Session σ) :
    Truthful contents (fun after => w.run (index.withAfter after) ctx) index.model.afterHooks
      (w.bare index ctx s) s := by
  cases w with
  | upsert id vector record =>
      refine truthful_of_stages (fun after => run_upsert id vector record after) ?_
        (fun p => sound.upsert ctx p.2) fun after p t => Model.afterSave_answers _ _ _
      refine (saving_quietly honest _).mono fun p made => ?_
      rw [Write.bare, made]
      rfl
  | upsertBatch vectors =>
      refine truthful_of_stages (fun after => run_upsertBatch vectors after) ?_
        (fun p => sound.upsertBatch ctx p.2) fun after p t => Model.afterSaves_answers _ _
      refine (savingAll_quietly honest vectors).mono fun p made => ?_
      rw [Write.bare, made]
      rfl
  | delete id =>
      refine truthful_of_stages (fun after => run_delete id after) ?_
        (fun _ => sound.delete ctx id) fun after p t => Model.afterDelete_answers _ _
      exact quietly_checks <| (index.model.beforeDelete_quietly id).mono fun _ _ => rfl
  | deleteBatch ids =>
      refine truthful_of_stages (fun after => run_deleteBatch ids after) ?_
        (fun _ => sound.deleteBatch ctx ids) fun after p t => Model.afterDeletes_answers _ _
      exact Call.quietly_check_bind <| (prepareDeletes_quietly ids).mono fun _ _ => rfl

end RecordIndex

end Depot
