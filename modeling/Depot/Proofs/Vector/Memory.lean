import Depot.Proofs.Vector.RecordIndex
import Depot.Vector.Memory

/-!
# Writes of the vector index in memory

Vectors are checked before any of them is put in, and a context that is live when a write begins is so to
its end. So a write that fails leaves the index as it is, its dimension and its sequence numbers included.
-/

namespace Depot.Vector.Memory

variable {ctx : Context}

theorem early_checkDimension (dimension : Option Nat) (vector : Components) :
    Early (checkDimension dimension vector) := by
  cases dimension with
  | none => exact .ok ()
  | some expected =>
      rw [checkDimension]
      split
      · exact .ok ()
      · exact .error rfl

theorem early_checkBatch (dimension : Option Nat) (entries : List Entry) :
    Early (checkBatch dimension entries) := by
  induction entries generalizing dimension with
  | nil => exact .ok ()
  | cons entry rest ih =>
      exact (early_validate entry.vector).bind fun _ =>
        (early_checkDimension dimension entry.vector).bind fun _ => ih _

/-- The check of a single vector. -/
def checkVector (dimension : Option Nat) (vector : Components) : Except Error Unit := do
  vector.validate
  checkDimension dimension vector

/-- A batch is checked vector by vector. The first of all fixes the length of the others. -/
theorem checkBatch_cons (dimension : Option Nat) (entry : Entry) (rest : List Entry) :
    checkBatch dimension (entry :: rest) = (do
      checkVector dimension entry.vector
      checkBatch (some (dimension.getD entry.vector.length)) rest) := by
  rw [checkBatch, checkVector, bind_assoc]

theorem early_checkVector (dimension : Option Nat) (vector : Components) :
    Early (checkVector dimension vector) :=
  (early_validate vector).bind fun _ => early_checkDimension dimension vector

theorem upsert_eq (entry : Entry) :
    upsert ctx entry = Call.under ctx fun _ m =>
      Call.changeIf (checkVector m.dimension entry.vector) (fun _ => m.insert entry) m := by
  apply Call.check_bind_eq_under
  intro s
  rw [checkVector, Call.bind_apply, Call.lift_apply]
  cases entry.vector.validate with
  | error e => rfl
  | ok u =>
      have rest : (do Except.ok u; checkDimension s.backend.dimension entry.vector) =
          checkDimension s.backend.dimension entry.vector := rfl
      dsimp only
      rw [Call.bind_apply, Call.backend_apply]
      dsimp only
      rw [Call.bind_apply, Call.lift_apply, rest]
      cases checkDimension s.backend.dimension entry.vector <;> rfl

/-- A context that is live when entries begin to be put in is so until all of them are. -/
theorem insertAll_of_live {s : Session Memory} (entries : List Entry) (live : s.refusal? ctx = none) :
    insertAll ctx entries s = (.ok (), s.withBackend (entries.foldl insert s.backend)) := by
  induction entries generalizing s with
  | nil => rfl
  | cons entry rest ih =>
      rw [insertAll, Call.check_bind_of_live live]
      exact ih (s := s.withBackend (s.backend.insert entry)) live

theorem upsertBatch_eq (entries : List Entry) :
    upsertBatch ctx entries = Call.under ctx fun _ m =>
      Call.changeIf (checkBatch m.dimension entries) (fun _ => entries.foldl insert m) m := by
  funext s
  cases refused : s.refusal? ctx with
  | some e => rw [upsertBatch, Call.check_bind_of_refusal refused, Call.under_of_refusal _ refused]
  | none =>
      rw [upsertBatch, Call.check_bind_of_live refused, Call.under_of_live _ refused, Call.bind_apply,
        Call.backend_apply]
      dsimp only
      rw [Call.bind_apply, Call.lift_apply]
      cases checkBatch s.backend.dimension entries with
      | error e => rfl
      | ok _ => exact insertAll_of_live entries refused

theorem delete_eq (id : String) :
    delete ctx id = Call.under ctx fun _ m =>
      Call.changeIf (if m.vectors.contains id then .ok () else .error (.notFound id))
        (fun _ => m.erase id) m := by
  apply Call.check_bind_eq_under
  intro s
  rw [Call.bind_apply, Call.backend_apply]
  dsimp only
  cases s.backend.vectors.contains id <;> rfl

theorem deleteBatch_eq (ids : List String) :
    deleteBatch ctx ids = Call.under ctx fun _ m => (.ok (), ids.foldl erase m) :=
  Call.check_bind_eq_under fun _ => rfl

/-- The writes of the index do all or nothing. -/
theorem sound (settings : Settings) : (provider settings).Sound fun _ m => m where
  upsert _ entry :=
    ⟨_, upsert_eq entry, Call.allOrNothing_changeIf fun _ m => early_checkVector m.dimension _⟩
  upsertBatch _ entries :=
    ⟨_, upsertBatch_eq entries, Call.allOrNothing_changeIf fun _ m => early_checkBatch m.dimension _⟩
  delete _ id :=
    ⟨_, delete_eq id, Call.allOrNothing_changeIf fun _ m => .present (m.vectors.contains id) id⟩
  deleteBatch _ ids := ⟨_, deleteBatch_eq ids, Call.allOrNothing_of_ok fun _ _ => ⟨(), rfl⟩⟩

end Depot.Vector.Memory
