import Depot.Blob.RecordBucket
import Depot.Proofs.Codec
import Depot.Proofs.Record.Write

/-!
# Writes through a bucket of records

Every write of a bucket goes in stages, whatever the provider is.
-/

namespace Depot

namespace Blob

/-- A provider whose writes do all or nothing. -/
structure Provider.Sound {σ κ : Type} (contents : Time → σ → κ) (p : Provider σ) : Prop where
  put : ∀ ctx key bytes info, (p.put ctx key bytes info).Sound contents ctx
  delete : ∀ ctx key, (p.delete ctx key).Sound contents ctx

end Blob

namespace RecordBucket

variable {ρ σ κ : Type}

/-- The operations of a bucket that write, with their arguments. -/
inductive Write (ρ : Type)
  | put (object : ObjectOf ρ)
  | delete (key : String)

/-- The outcome of a write. -/
def Write.run (bucket : RecordBucket ρ σ) (ctx : Context) : Write ρ → Call σ Unit
  | put object => do Call.lift (← bucket.put ctx object).outcome
  | delete key => bucket.delete ctx key

/-- The call of the provider that encoded data comes to. -/
def putting (bucket : RecordBucket ρ σ) (ctx : Context) (info : ObjectInfo) (bytes : List UInt8) :
    Call σ Unit :=
  (fun _ => ()) <$> bucket.provider.put ctx info.key bytes (bucket.announced info bytes)

/-- The call of the provider that a write comes to in a session, made of the record as the hook before the
save leaves it there. -/
def Write.bare (bucket : RecordBucket ρ σ) (ctx : Context) (s : Session σ) :
    Write ρ → Except Error (Call σ Unit)
  | put object => do
    let record := bucket.model.saved (s.occasion ctx) object.data
    let bytes ← bucket.codec.encode (bucket.model.toValue record)
    return bucket.putting ctx object.info bytes
  | delete key => .ok (bucket.provider.delete ctx key)

/-- The bucket with other hooks after a write. -/
def withAfter (bucket : RecordBucket ρ σ) (after : AfterHooks ρ) : RecordBucket ρ σ :=
  { bucket with model := bucket.model.withAfter after }

variable {bucket : RecordBucket ρ σ} {ctx : Context}

/-- A record on its way to the provider. -/
def saving (bucket : RecordBucket ρ σ) (ctx : Context) (object : ObjectOf ρ) :
    Call σ (ρ × List UInt8) := do
  underKey ctx object.info.key (pure ())
  let (record, ready) ← bucket.model.beforeSave ctx object.info.key object.data
  let bytes ← Call.lift (ready.bind fun _ => bucket.codec.encode (bucket.model.toValue record))
  return (record, bytes)

theorem saving_quietly (honest : bucket.codec.Honest) {s : Session σ} (object : ObjectOf ρ) :
    (bucket.saving ctx object).Quietly s fun p =>
      bucket.codec.encode (bucket.model.toValue (bucket.model.saved (s.occasion ctx) object.data)) =
        .ok p.2 := by
  simp only [saving, underKey, bind_assoc]
  refine quietly_checks <| (bucket.model.beforeSave_answers _ _).quietly.bind fun r u => ?_
  intro h
  obtain ⟨saved, early⟩ := h
  have encoded : Early (r.2.bind fun _ => bucket.codec.encode (bucket.model.toValue r.1)) :=
    early.bind fun _ => honest _
  refine (Call.quietly_lift encoded fun _ same => same).bind fun bytes v whole => ?_
  refine (Call.answers_pure (a := (r.1, bytes)) ?_).quietly
  obtain ⟨_, _, whole⟩ := Fallible.bind_eq_ok_iff.1 whole
  rw [← saved]
  exact whole

/-- Encoded data is written, or else the object is as its caller announced it. -/
theorem store_apply (info : ObjectInfo) (bytes : List UInt8) (s : Session σ) :
    bucket.store ctx info bytes s =
      let r := bucket.provider.put ctx info.key bytes (bucket.announced info bytes) s
      (.ok (match r.1 with
        | .ok recorded => (recorded, .ok ())
        | .error e => (bucket.announced info bytes, .error e)), r.2) := by
  rw [store, Call.bind_apply, Call.attempt_apply]
  cases put : bucket.provider.put ctx info.key bytes (bucket.announced info bytes) s with
  | mk result t =>
      have same : bucket.provider.put ctx (bucket.announced info bytes).key bytes
          (bucket.announced info bytes) s = (result, t) := put
      rw [same]
      cases result <;> rfl

theorem run_put (object : ObjectOf ρ) (after : AfterHooks ρ) :
    (Write.put object).run (bucket.withAfter after) ctx =
      stages (bucket.saving ctx object) (fun p => bucket.putting ctx object.info p.2)
        fun p => (bucket.model.withAfter after).afterSave ctx object.info.key p.1 := by
  refine (Call.attempt_check_bind_lift _ (fun e => ⟨object, .error e⟩) _ PutResult.outcome
    fun _ => rfl).trans ?_
  simp only [stages, saving, bind_assoc, pure_bind]
  refine congrArg _ (funext fun _ => congrArg _ (funext fun r => ?_))
  obtain ⟨record, ready⟩ := r
  dsimp only
  have same : (bucket.withAfter after).codec.encode
      ((bucket.withAfter after).model.toValue record) =
        bucket.codec.encode (bucket.model.toValue record) := rfl
  rw [same]
  cases ready.bind fun _ => bucket.codec.encode (bucket.model.toValue record) with
  | error e => rfl
  | ok bytes =>
      funext s
      have same : (bucket.withAfter after).store ctx object.info bytes =
          bucket.store ctx object.info bytes := rfl
      dsimp only
      rw [same, bind_assoc, Call.lift_ok, pure_bind, putting, Call.bind_apply, Call.bind_apply,
        Call.map_apply, store_apply]
      rcases bucket.provider.put ctx object.info.key bytes (bucket.announced object.info bytes) s with
        ⟨_ | recorded, t⟩
      · rfl
      · dsimp only
        rw [bind_assoc]
        rfl

theorem run_delete (key : String) (after : AfterHooks ρ) :
    (Write.delete key).run (bucket.withAfter after) ctx =
      stages (underKey ctx key (bucket.model.beforeDelete ctx key))
        (fun _ => bucket.provider.delete ctx key)
        fun _ => (bucket.model.withAfter after).afterDelete ctx key := by
  simp only [stages, underKey, bind_assoc]
  rfl

/-- The outcome of a write through a bucket tells whether it took effect. -/
theorem truthful {contents : Time → σ → κ} (honest : bucket.codec.Honest)
    (sound : bucket.provider.Sound contents) (w : Write ρ) (s : Session σ) :
    Truthful contents (fun after => w.run (bucket.withAfter after) ctx) bucket.model.afterHooks
      (w.bare bucket ctx s) s := by
  cases w with
  | put object =>
      refine truthful_of_stages (fun after => run_put object after) ?_
        (fun p => (sound.put ctx object.info.key p.2 _).discard)
        fun after p t => Model.afterSave_answers _ _ _
      refine (saving_quietly honest object).mono fun p encoded => ?_
      rw [Write.bare, encoded]
      rfl
  | delete key =>
      refine truthful_of_stages (fun after => run_delete key after) ?_
        (fun _ => sound.delete ctx key) fun after p t => Model.afterDelete_answers _ _
      exact quietly_checks <| (bucket.model.beforeDelete_quietly key).mono fun _ _ => rfl

end RecordBucket

end Depot
