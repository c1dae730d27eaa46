import Depot.Proofs.Dict.Lookup
import Depot.Proofs.Record.Faithful
import Depot.Proofs.Session.History
import Depot.Proofs.Vector.Hookless
import Depot.Proofs.Vector.Memory

/-!
# What an index of records holds

An index in memory, used through the typed view of records without hooks, holds under every id what its
writes noted of that id, encoded (`Holds`). Vectors stand for good.
-/

namespace Depot.RecordIndex

variable {ρ : Type}

/-- An index in memory, with one of the standard codecs. -/
def inMemory (model : Model ρ) (spec : Spec) (c : StandardCodec) (settings : Vector.Settings) :
    RecordIndex ρ Vector.Memory :=
  ⟨model, spec, c.codec, Vector.Memory.provider settings⟩

/-- What a write notes of ids. -/
def Write.notes : Write ρ → Notes String (Kept ρ)
  | upsert id _ record => [(id, some { record })]
  | upsertBatch vectors => vectors.map fun v => (v.id, some { record := v.metadata })
  | delete id => [(id, none)]
  | deleteBatch ids => ids.map fun id => (id, none)

variable {model : Model ρ} {spec : Spec} {c : StandardCodec} {settings : Vector.Settings}

/-- The metadata of a vector. -/
def metadata? (m : Vector.Memory) (id : String) : Option (List UInt8) :=
  (m.vectors.get? id).map Vector.Stored.metadata

/-- The index holds what was noted, over what it held before that. -/
def Holds (model : Model ρ) (c : StandardCodec) (base : String → Option (List UInt8)) (_ : Time)
    (m : Vector.Memory) (past : Notes String (Kept ρ)) : Prop :=
  ∀ id, metadata? m id = (past.map fun kept => model.bytes c kept.record).stands (· == id) (base id)

theorem metadata?_insert (m : Vector.Memory) (entry : Vector.Entry) (id : String) :
    metadata? (m.insert entry) id = if id = entry.id then some entry.metadata else metadata? m id := by
  rw [metadata?, metadata?, Vector.Memory.insert]
  split <;> rw [Dict.get?_insert] <;> split <;> rfl

theorem metadata?_erase (m : Vector.Memory) (id other : String) :
    metadata? (m.erase id) other = if other = id then none else metadata? m other := by
  rw [metadata?, metadata?, Vector.Memory.erase, Dict.get?_erase]
  split <;> rfl

variable {base : String → Option (List UInt8)} {ctx : Context}

theorem entryFor_eq_ok {v : VectorOf ρ} {entry : Vector.Entry}
    (h : (inMemory model spec c settings).entryFor v = .ok entry) :
    entry = ⟨v.id, v.vector, model.bytes c v.metadata⟩ := by
  simp only [entryFor, Fallible.bind_eq_ok_iff] at h
  obtain ⟨_, _, bytes, made, whole⟩ := h
  rw [encode, inMemory, c.encode_eq_ok] at made
  cases made
  cases whole
  rfl

/-- An entry that is put in is noted under its id. -/
theorem Holds.insert {now : Time} {m : Vector.Memory} {past : Notes String (Kept ρ)}
    (h : Holds model c base now m past) (v : VectorOf ρ) :
    Holds model c base now (m.insert ⟨v.id, v.vector, model.bytes c v.metadata⟩)
      (past ++ [(v.id, some { record := v.metadata })]) := by
  intro other
  rw [metadata?_insert, h other, Notes.stands_note]
  rfl

theorem Holds.foldl_insert {now : Time} {m : Vector.Memory} {past : Notes String (Kept ρ)}
    {vectors : List (VectorOf ρ)} {entries : List Vector.Entry}
    (made : vectors.mapM (inMemory model spec c settings).entryFor = .ok entries)
    (h : Holds model c base now m past) :
    Holds model c base now (entries.foldl Vector.Memory.insert m)
      (past ++ (Write.upsertBatch vectors).notes) := by
  induction vectors generalizing m past entries with
  | nil =>
      cases made
      simpa [Write.notes] using h
  | cons v rest ih =>
      simp only [List.mapM_cons, Fallible.bind_eq_ok_iff] at made
      obtain ⟨entry, first, others, later, whole⟩ := made
      cases whole
      cases entryFor_eq_ok first
      have added := ih later (h.insert v)
      rw [List.append_assoc] at added
      exact added

theorem Holds.erase {now : Time} {m : Vector.Memory} {past : Notes String (Kept ρ)}
    (h : Holds model c base now m past) (id : String) :
    Holds model c base now (m.erase id) (past ++ [(id, none)]) := by
  intro other
  rw [metadata?_erase, h other, Notes.stands_note]
  rfl

theorem Holds.foldl_erase {now : Time} {m : Vector.Memory} {past : Notes String (Kept ρ)}
    (h : Holds model c base now m past) (ids : List String) :
    Holds model c base now (ids.foldl Vector.Memory.erase m)
      (past ++ (Write.deleteBatch ids : Write ρ).notes) := by
  induction ids generalizing m past with
  | nil => simpa [Write.notes] using h
  | cons id rest ih =>
      have dropped := ih (h.erase id)
      rw [List.append_assoc] at dropped
      exact dropped

/-- Every write of records without hooks keeps the index with its notes. -/
theorem adds_run (spec : Spec) (settings : Vector.Settings) (ctx : Context) (h : model.Hookless)
    (w : Write ρ) :
    (w.run (inMemory model spec c settings) ctx).Adds (Holds model c base) fun _ => w.notes := by
  have idle : (inMemory model spec c settings).model.Hookless := h
  cases w with
  | upsert id vector record =>
      rw [run_upsert_of_hookless idle]
      refine Call.adds_check_bind (Call.adds_lift_bind fun entry made => ?_)
      cases entryFor_eq_ok made
      show Call.Adds _ (Vector.Memory.upsert ctx _) _
      rw [Vector.Memory.upsert_eq]
      exact Call.adds_changeIf fun _ _ _ _ _ holds => holds.insert { id, vector, metadata := record }
  | upsertBatch vectors =>
      rw [run_upsertBatch_of_hookless idle]
      refine Call.adds_check_bind (Call.adds_lift_bind fun entries made => ?_)
      show Call.Adds _ (Vector.Memory.upsertBatch ctx entries) _
      rw [Vector.Memory.upsertBatch_eq]
      exact Call.adds_changeIf fun _ _ _ _ _ holds => holds.foldl_insert made
  | delete id =>
      rw [run_delete_of_hookless idle]
      refine Call.adds_lift_bind fun _ _ => Call.adds_check_bind ?_
      show Call.Adds _ (Vector.Memory.delete ctx id) _
      rw [Vector.Memory.delete_eq]
      exact Call.adds_changeIf fun _ _ _ _ _ holds => holds.erase id
  | deleteBatch ids =>
      rw [run_deleteBatch_of_hookless idle]
      refine Call.adds_check_bind (Call.adds_lift_bind fun _ _ => ?_)
      show Call.Adds _ (Vector.Memory.deleteBatch ctx ids) _
      rw [Vector.Memory.deleteBatch_eq]
      exact Call.adds_under fun _ _ _ holds => holds.foldl_erase ids

/-- A get under a live context reads what the index holds under the id. -/
theorem get_of_holds (h : model.Hookless) {s : Session Vector.Memory} {past : Notes String (Kept ρ)}
    (holds : Holds model c base s.now s.backend past) {id : String} (named : id ≠ "")
    (live : s.refusal? ctx = none) :
    ((inMemory model spec c settings).get ctx id s).1.map VectorOf.metadata =
      model.retrieve c (.notFound id)
        ((past.map fun kept => model.bytes c kept.record).stands (· == id) (base id)) := by
  have idle : (inMemory model spec c settings).model.Hookless := h
  have addressed : checkKey id = .ok () := if_neg named
  have asked : (inMemory model spec c settings).provider.get ctx id s = Vector.Memory.get ctx id s :=
    rfl
  rw [get, underId, addressed, Call.lift_ok, pure_bind, Call.check_bind_of_live live, Call.bind_apply,
    asked, Vector.Memory.get, Call.check_bind_of_live live, Call.bind_apply, Call.backend_apply,
    ← holds id, metadata?]
  dsimp only
  cases s.backend.vectors.get? id with
  | none => rfl
  | some stored =>
      show ((inMemory model spec c settings).load ctx ⟨id, stored.vector, .zero, stored.metadata⟩ s).1.map
        VectorOf.metadata = _
      rw [load_of_hookless idle, Call.lift_apply, Option.map_some, loaded]
      show _ = (inMemory model spec c settings).decode stored.metadata
      cases (inMemory model spec c settings).decode stored.metadata <;> rfl

end Depot.RecordIndex
