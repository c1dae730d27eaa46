import Depot.Proofs.Blob.RecordBucket
import Depot.Proofs.Record.Hookless

/-!
# Buckets of records without hooks

Without hooks a put encodes its record and stores it, and a get decodes what the provider has.
-/

namespace Depot.RecordBucket

variable {ρ σ : Type} {bucket : RecordBucket ρ σ} {ctx : Context}

def encode (bucket : RecordBucket ρ σ) (record : ρ) : Except Error (List UInt8) :=
  bucket.codec.encode (bucket.model.toValue record)

/-- The data of an atom, encoded. -/
def encodeAtom (bucket : RecordBucket ρ σ) (a : Atom) : Except Error (List UInt8) := do
  bucket.codec.encode (bucket.model.toValue (← bucket.model.deatomize bucket.spec a))

def decode (bucket : RecordBucket ρ σ) (bytes : List UInt8) : Except Error ρ := do
  bucket.model.ofValue (← bucket.codec.decode bytes)

/-- What comes of a put whose data is encoded or not. -/
def putEncoded {α : Type} (bucket : RecordBucket ρ σ) (ctx : Context) (object : ObjectOf α)
    (encoded : Except Error (List UInt8)) : Call σ (PutResult α) := do
  match ← Call.attempt (underKey ctx object.info.key (pure ())) with
  | .error e => return ⟨object, .error e⟩
  | .ok () =>
    match encoded with
    | .error e => return ⟨object, .error e⟩
    | .ok bytes =>
      let (info, outcome) ← bucket.store ctx object.info bytes
      return ⟨{ object with info }, outcome⟩

theorem put_of_hookless (h : bucket.model.Hookless) (object : ObjectOf ρ) :
    bucket.put ctx object = bucket.putEncoded ctx object (bucket.encode object.data) := by
  funext s
  unfold put putEncoded
  dsimp only
  rw [Call.bind_apply, Call.attempt_apply, Call.bind_apply, Call.attempt_apply]
  rcases underKey ctx object.info.key (pure ()) s with ⟨_ | _, t⟩
  · rfl
  · dsimp only
    rw [h.beforeSave, pure_bind]
    show (match bucket.encode object.data with
      | .error e => (pure _ : Call σ (PutResult ρ))
      | .ok bytes => _) t = _
    cases bucket.encode object.data with
    | error e => rfl
    | ok bytes =>
        dsimp only
        rw [Call.bind_apply, Call.bind_apply]
        rcases bucket.store ctx object.info bytes t with ⟨_ | ⟨info, _ | _⟩, u⟩
        · rfl
        · rfl
        · dsimp only
          rw [h.afterSave]
          rfl

theorem run_put_of_hookless (h : bucket.model.Hookless) (object : ObjectOf ρ) :
    (Write.put object).run bucket ctx = underKey ctx object.info.key (do
      let bytes ← Call.lift (bucket.encode object.data)
      bucket.putting ctx object.info bytes) := by
  refine (run_put object bucket.model.afterHooks).trans ?_
  refine (stages_of_done fun _ => h.afterSave object.info.key _).trans ?_
  simp only [saving, h.beforeSave, underKey, bind_assoc, pure_bind]
  rfl

theorem run_delete_of_hookless (h : bucket.model.Hookless) (key : String) :
    (Write.delete key).run bucket ctx = underKey ctx key (bucket.provider.delete ctx key) := by
  refine (run_delete key bucket.model.afterHooks).trans ?_
  refine (stages_of_done fun _ => h.afterDelete key).trans ?_
  rw [h.beforeDelete]
  simp only [underKey, bind_assoc, pure_bind]

theorem get_of_hookless (h : bucket.model.Hookless) (key : String) :
    bucket.get ctx key = underKey ctx key (do
      let (bytes, info) ← bucket.provider.get ctx key
      return ⟨info, ← Call.lift (bucket.decode bytes)⟩) := by
  simp only [get, h.afterLoad, pure_bind]
  rfl

end Depot.RecordBucket
