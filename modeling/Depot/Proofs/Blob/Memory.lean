import Depot.Blob.Memory
import Depot.Proofs.Blob.RecordBucket
import Depot.Proofs.Session.Alike

/-!
# Reads and writes of the blob store in memory

A put that finds its context live always succeeds, and a delete that does not find its object leaves
the store as it is. Reads are functions of what is held.
-/

namespace Depot.Blob.Memory

variable {ctx : Context}

theorem get_eq (key : String) :
    get ctx key = Call.reading ctx fun _ m =>
      match m.objects.get? key with
      | some object => .ok object
      | none => .error (.notFound key) := by
  apply Call.check_bind_eq_reading
  intro s
  rw [Call.bind_apply, Call.backend_apply]
  dsimp only
  cases s.backend.objects.get? key <;> rfl

theorem has_eq (key : String) :
    has ctx key = Call.reading ctx fun _ m => .ok (m.objects.contains key) :=
  Call.check_bind_eq_reading fun _ => rfl

theorem put_eq (key : String) (bytes : List UInt8) (info : ObjectInfo) :
    put ctx key bytes info = Call.under ctx fun now m =>
      (.ok (recorded key bytes info now),
        ⟨m.objects.insert key (bytes, recorded key bytes info now)⟩) :=
  Call.check_bind_eq_under fun _ => rfl

theorem delete_eq (key : String) :
    delete ctx key = Call.under ctx fun _ m =>
      Call.changeIf (if m.objects.contains key then .ok () else .error (.notFound key))
        (fun _ => ⟨m.objects.erase key⟩) m := by
  apply Call.check_bind_eq_under
  intro s
  rw [Call.bind_apply, Call.backend_apply]
  dsimp only
  cases s.backend.objects.contains key <;> rfl

/-- The writes of the store do all or nothing. -/
theorem sound : provider.Sound fun _ m => m where
  put _ key bytes info :=
    ⟨_, put_eq key bytes info, Call.allOrNothing_of_ok fun _ _ => ⟨_, rfl⟩⟩
  delete _ key :=
    ⟨_, delete_eq key, Call.allOrNothing_changeIf fun _ m => .present (m.objects.contains key) key⟩

end Depot.Blob.Memory
