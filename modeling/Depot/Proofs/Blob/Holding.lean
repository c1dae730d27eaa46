import Depot.Proofs.Blob.Hookless
import Depot.Proofs.Blob.Memory
import Depot.Proofs.Dict.Lookup
import Depot.Proofs.Record.Faithful
import Depot.Proofs.Session.History

/-!
# What a bucket of records holds

A bucket in memory, used through the typed view of records without hooks, holds under every key what its
writes noted of that key, encoded (`Holds`). Objects stand for good.
-/

namespace Depot.RecordBucket

variable {ρ : Type}

/-- A bucket in memory, with one of the standard codecs. -/
def inMemory (model : Model ρ) (spec : Spec) (c : StandardCodec) : RecordBucket ρ Blob.Memory :=
  ⟨model, spec, c.codec, Blob.Memory.provider⟩

/-- What a write notes of keys. -/
def Write.notes : Write ρ → Notes String (Kept ρ)
  | put object => [(object.info.key, some { record := object.data })]
  | delete key => [(key, none)]

variable {model : Model ρ} {spec : Spec} {c : StandardCodec}

/-- The bytes of an object. -/
def bytes? (m : Blob.Memory) (key : String) : Option (List UInt8) :=
  (m.objects.get? key).map Prod.fst

/-- The bucket holds what was noted, over what it held before that. -/
def Holds (model : Model ρ) (c : StandardCodec) (base : String → Option (List UInt8)) (_ : Time)
    (m : Blob.Memory) (past : Notes String (Kept ρ)) : Prop :=
  ∀ key, bytes? m key = (past.map fun kept => model.bytes c kept.record).stands (· == key) (base key)

variable {base : String → Option (List UInt8)} {now : Time} {m : Blob.Memory}
  {past : Notes String (Kept ρ)}

/-- An object that is put in is noted under its key. -/
theorem Holds.insert (h : Holds model c base now m past) (key : String) (record : ρ)
    (info : ObjectInfo) :
    Holds model c base now ⟨m.objects.insert key (model.bytes c record, info)⟩
      (past ++ [(key, some { record := record })]) := by
  intro other
  rw [bytes?, Dict.get?_insert, Notes.stands_note, ← h other]
  split <;> rfl

theorem Holds.erase (h : Holds model c base now m past) (key : String) :
    Holds model c base now ⟨m.objects.erase key⟩ (past ++ [(key, none)]) := by
  intro other
  rw [bytes?, Dict.get?_erase, Notes.stands_note, ← h other]
  split <;> rfl

/-- Every write of records without hooks keeps the bucket with its notes. -/
theorem adds_run (spec : Spec) (ctx : Context) (h : model.Hookless) (w : Write ρ) :
    (w.run (inMemory model spec c) ctx).Adds (Holds model c base) fun _ => w.notes := by
  have idle : (inMemory model spec c).model.Hookless := h
  cases w with
  | put object =>
      rw [run_put_of_hookless idle]
      refine Call.adds_lift_bind fun _ _ => Call.adds_check_bind ?_
      refine Call.adds_lift_bind fun bytes encoded => ?_
      rw [encode, inMemory, c.encode_eq_ok] at encoded
      cases encoded
      refine Call.Adds.map ?_ _
      show Call.Adds _ (Blob.Memory.put ctx object.info.key _ _) _
      rw [Blob.Memory.put_eq]
      exact Call.adds_under fun _ _ _ holds => holds.insert object.info.key object.data _
  | delete key =>
      rw [run_delete_of_hookless idle]
      refine Call.adds_lift_bind fun _ _ => Call.adds_check_bind ?_
      show Call.Adds _ (Blob.Memory.delete ctx key) _
      rw [Blob.Memory.delete_eq]
      exact Call.adds_changeIf fun _ _ _ _ _ holds => holds.erase key

/-- A get under a live context reads what the bucket holds under the key. -/
theorem get_of_holds (h : model.Hookless) {s : Session Blob.Memory}
    (holds : Holds model c base s.now s.backend past) {key : String} (named : key ≠ "")
    (live : s.refusal? ctx = none) :
    ((inMemory model spec c).get ctx key s).1.map ObjectOf.data =
      model.retrieve c (.notFound key)
        ((past.map fun kept => model.bytes c kept.record).stands (· == key) (base key)) := by
  have idle : (inMemory model spec c).model.Hookless := h
  have addressed : checkKey key = .ok () := if_neg named
  have asked : (inMemory model spec c).provider.get ctx key s = Blob.Memory.get ctx key s := rfl
  rw [get_of_hookless idle, underKey, addressed, Call.lift_ok, pure_bind, Call.check_bind_of_live live,
    Call.bind_apply, asked, Blob.Memory.get_eq, Call.reading_of_live _ live, ← holds key, bytes?]
  dsimp only
  cases s.backend.objects.get? key with
  | none => rfl
  | some object =>
      obtain ⟨bytes, info⟩ := object
      show ((Call.lift ((inMemory model spec c).decode bytes) >>= fun data =>
        pure { info, data }) s).1.map ObjectOf.data = _
      rw [Call.bind_apply, Call.lift_apply, Option.map_some]
      show _ = (inMemory model spec c).decode bytes
      cases (inMemory model spec c).decode bytes <;> rfl

end Depot.RecordBucket
