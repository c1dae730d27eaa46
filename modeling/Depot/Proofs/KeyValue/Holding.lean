import Depot.Proofs.KeyValue.Hookless
import Depot.Proofs.KeyValue.Ledger
import Depot.Proofs.Record.Faithful
import Depot.Proofs.Session.History

/-!
# What a store of records holds

A store in memory, used through the typed view of records without hooks, holds under every key what its
writes noted of that key, encoded and with the moment until which it stands (`Holds`). Every write keeps
it so (`adds_run`), and a get answers with what is held (`get_of_holds`).
-/

namespace Depot

namespace KeyValue

/-- Until when an entry written now for a span stands, if not for good. -/
def until? (now span : Time) : Option Time :=
  if span = 0 then none else Time.after? now span

namespace Memory

variable {m : Memory} {now : Time}

theorem until?_of_expiry {config : KeyValueConfig} {span : Time} {moment : Option Time}
    (h : expiry config now span = .ok moment) : moment = until? now span := by
  rw [expiry] at h
  rw [until?]
  split at h
  · cases h
    rw [if_pos ‹_›]
  · split at h <;> cases h
    rw [if_neg ‹_›]

theorem find?_eq_filter (m : Memory) (now : Time) (key : String) :
    m.find? now key = (m.entries.get? key).filter fun e => e.isLive now := by
  rw [find?]
  cases m.entries.get? key with
  | none => rfl
  | some e => rw [Option.filter_some]

theorem find?_purge (m : Memory) (now : Time) (key : String) :
    (m.purge now).find? now key = m.find? now key := find?_contents m (Nat.le_refl now) key

/-- What is found later is what is found now and still there then. -/
theorem find?_later (m : Memory) {later : Time} (le : now ≤ later) (key : String) :
    m.find? later key = (m.find? now key).filter fun e => e.isLive later := by
  rw [← find?_contents m le, find?_eq_filter, find?_eq_filter, contents, purge, Dict.get?_filter]

theorem find?_insert (m : Memory) (key : String) (e : Entry) (other : String) :
    (m.insert key e).find? now other =
      if other = key then (some e).filter fun e => e.isLive now else m.find? now other := by
  rw [find?_eq_filter, find?_eq_filter, insert, Dict.get?_insert]
  split <;> rfl

theorem find?_erase (m : Memory) (key other : String) :
    (m.erase key).find? now other = if other = key then none else m.find? now other := by
  rw [find?_eq_filter, find?_eq_filter, erase, Dict.get?_erase]
  split <;> rfl

/-- What is found after a batch is put in, the last item of a key counting. -/
theorem find?_foldl_insert (m : Memory) (items : Dict (List UInt8)) (moment : Option Time)
    (other : String) :
    (items.entries.foldl (fun m item => m.insert item.1 ⟨item.2, moment⟩) m).find? now other =
      match items.get? other with
      | some bytes => (some ⟨bytes, moment⟩ : Option Entry).filter fun e => e.isLive now
      | none => m.find? now other := by
  rw [find?_eq_filter, entries_foldl_insert,
    Dict.get?_foldl_insert (fun _ bytes => (⟨bytes, moment⟩ : Entry)) items.ordered.nodup,
    find?_eq_filter]
  have held : items.entries.lookup other = items.get? other := rfl
  rw [held]
  cases items.get? other <;> rfl

end Memory

end KeyValue

namespace RecordStore

variable {ρ : Type}

/-- A store in memory, with one of the standard codecs. -/
def inMemory (model : Model ρ) (spec : Spec) (c : StandardCodec) (config : KeyValueConfig) :
    RecordStore ρ KeyValue.Memory :=
  ⟨model, spec, c.codec, KeyValue.Memory.provider config⟩

/-- What a write notes of keys. -/
def Write.notes (now : Time) : Write ρ → Notes String (Kept ρ)
  | set key record span => [(key, some ⟨record, KeyValue.until? now span⟩)]
  | setBatch items span => items.map fun item => (item.1, some ⟨item.2, KeyValue.until? now span⟩)
  | delete key => [(key, none)]
  | deleteBatch keys => keys.map fun key => (key, none)

variable {model : Model ρ} {spec : Spec} {c : StandardCodec} {config : KeyValueConfig}

/-- What is kept of a record. -/
def entryOf (model : Model ρ) (c : StandardCodec) (kept : Kept ρ) : KeyValue.Entry :=
  ⟨model.bytes c kept.record, kept.deadline⟩

theorem isLive_entryOf (now : Time) (kept : Kept ρ) :
    (entryOf model c kept).isLive now = kept.isThere now := by
  cases deadline : kept.deadline <;> simp [KeyValue.Entry.isLive, Kept.isThere, entryOf, deadline]

/-- The store holds what was noted, over what it held before that. -/
def Holds (model : Model ρ) (c : StandardCodec) (base : String → Option KeyValue.Entry) (now : Time)
    (m : KeyValue.Memory) (past : Notes String (Kept ρ)) : Prop :=
  ∀ key, m.find? now key =
    ((past.map (entryOf model c)).stands (· == key) (base key)).filter fun e => e.isLive now

/-- What is held of notes over nothing is what stands of them and is still there. -/
theorem bytes_entryOf (notes : Notes String (Kept ρ)) (key : String) (now : Time) :
    (((notes.map (entryOf model c)).stands (· == key) none).filter fun e => e.isLive now).map
        KeyValue.Entry.bytes =
      ((notes.stands (· == key) none).filter (Kept.isThere now)).map
        fun kept => model.bytes c kept.record := by
  rw [Notes.stands_map_none]
  cases notes.stands (· == key) none with
  | none => rfl
  | some kept =>
      rw [Option.map_some, Option.filter_some, Option.filter_some, isLive_entryOf]
      cases kept.isThere now <;> rfl

theorem Holds.later {base : String → Option KeyValue.Entry} (now later : Time) (m : KeyValue.Memory)
    (past : Notes String (Kept ρ)) (le : now ≤ later) (h : Holds model c base now m past) :
    Holds model c base later m past := by
  intro key
  rw [m.find?_later le, h key]
  cases (past.map (entryOf model c)).stands (· == key) (base key) with
  | none => rfl
  | some e =>
      rw [Option.filter_some, Option.filter_some]
      cases live : e.isLive later with
      | true => simp [KeyValue.Memory.isLive_of_le le live, live]
      | false => cases e.isLive now <;> simp [live]

theorem mapM_encodeItem {items : List (String × ρ)} {encoded : List (String × List UInt8)}
    (h : items.mapM (inMemory model spec c config).encodeItem = .ok encoded) :
    encoded = items.map fun item => (item.1, model.bytes c item.2) := by
  induction items generalizing encoded with
  | nil =>
      cases h
      rfl
  | cons item rest ih =>
      simp only [List.mapM_cons, Fallible.bind_eq_ok_iff, encodeItem] at h
      obtain ⟨first, ⟨_, _, bytes, made, same⟩, others, later, whole⟩ := h
      rw [encode, inMemory, c.encode_eq_ok] at made
      cases made
      cases same
      cases whole
      rw [ih later]
      rfl

/-- Of the items of a batch the last one of a key stands. -/
theorem stands_batch {moment : Option Time} (key : String) (items : List (String × List UInt8))
    (before : Option KeyValue.Entry) :
    Notes.stands (· == key) (items.map fun item => (item.1, some ⟨item.2, moment⟩)) before =
      match (Dict.ofList items).get? key with
      | some bytes => some ⟨bytes, moment⟩
      | none => before := by
  have folded (items : List (String × List UInt8)) (d : Dict (List UInt8)) :
      Notes.stands (· == key) (items.map fun item => (item.1, some ⟨item.2, moment⟩))
          (match d.get? key with
            | some bytes => some (⟨bytes, moment⟩ : KeyValue.Entry)
            | none => before) =
        match (items.foldl (fun d e => d.insert e.1 e.2) d).get? key with
        | some bytes => some ⟨bytes, moment⟩
        | none => before := by
    induction items generalizing d with
    | nil => rfl
    | cons item rest ih =>
        rw [List.map_cons, Notes.stands_cons, List.foldl_cons, ← ih (d.insert item.1 item.2),
          Dict.get?_insert]
        by_cases same : key = item.1
        · simp [same]
        · simp [same, Ne.symm same]
  rw [Dict.ofList_eq_foldl, ← folded items .empty]
  rfl

variable {base : String → Option KeyValue.Entry} {ctx : Context} {now : Time} {m : KeyValue.Memory}
  {past : Notes String (Kept ρ)}

theorem Holds.purge (h : Holds model c base now m past) : Holds model c base now (m.purge now) past :=
  fun key => (m.find?_purge now key).trans (h key)

/-- An entry that is put in is noted under its key. -/
theorem Holds.insert (h : Holds model c base now m past) (key : String) (kept : Kept ρ) :
    Holds model c base now (m.insert key (entryOf model c kept)) (past ++ [(key, some kept)]) := by
  intro other
  rw [KeyValue.Memory.find?_insert, h other, Notes.stands_note]
  split <;> rfl

theorem Holds.erase (h : Holds model c base now m past) (key : String) :
    Holds model c base now (m.erase key) (past ++ [(key, none)]) := by
  intro other
  rw [KeyValue.Memory.find?_erase, h other, Notes.stands_note]
  split <;> rfl

theorem Holds.foldl_erase (h : Holds model c base now m past) (keys : List String) :
    Holds model c base now (keys.foldl KeyValue.Memory.erase m)
      (past ++ (Write.deleteBatch keys : Write ρ).notes now) := by
  induction keys generalizing m past with
  | nil => simpa [Write.notes] using h
  | cons key rest ih =>
      have dropped := ih (h.erase key)
      rw [List.append_assoc] at dropped
      exact dropped

/-- Of a batch the last item of a key is put in, and it is the last one noted. -/
theorem Holds.insertAll (h : Holds model c base now m past) {items : List (String × ρ)}
    {encoded : List (String × List UInt8)} {span : Time}
    (made : items.mapM (inMemory model spec c config).encodeItem = .ok encoded) :
    Holds model c base now
      ((Dict.ofList encoded).entries.foldl
        (fun m item => m.insert item.1 ⟨item.2, KeyValue.until? now span⟩) m)
      (past ++ (Write.setBatch items span).notes now) := by
  intro other
  have noted : Notes.map (entryOf model c) ((Write.setBatch items span).notes now) =
      encoded.map fun item => (item.1, some ⟨item.2, KeyValue.until? now span⟩) := by
    rw [mapM_encodeItem made, Write.notes, Notes.map, List.map_map, List.map_map]
    rfl
  rw [KeyValue.Memory.find?_foldl_insert, h other, Notes.map_append, Notes.stands_append, noted,
    stands_batch]
  cases (Dict.ofList encoded).get? other <;> rfl

/-- Every write of records without hooks keeps the store with its notes. -/
theorem adds_run (spec : Spec) (config : KeyValueConfig) (ctx : Context) (h : model.Hookless)
    (w : Write ρ) :
    (w.run (inMemory model spec c config) ctx).Adds (Holds model c base) fun now => w.notes now := by
  have idle : (inMemory model spec c config).model.Hookless := h
  cases w with
  | set key record span =>
      rw [run_set_of_hookless idle]
      refine Call.adds_lift_bind fun _ _ => Call.adds_check_bind ?_
      refine Call.adds_lift_bind fun bytes encoded => ?_
      rw [encode, inMemory, c.encode_eq_ok] at encoded
      cases encoded
      show Call.Adds _ (KeyValue.Memory.set config ctx key _ span) _
      rw [KeyValue.Memory.set_eq]
      refine Call.adds_changeIf fun now m past moment checked holds => ?_
      cases KeyValue.Memory.until?_of_expiry checked
      exact holds.purge.insert key ⟨record, KeyValue.until? now span⟩
  | setBatch items span =>
      rw [run_setBatch_of_hookless idle]
      refine Call.adds_check_bind (Call.adds_lift_bind fun encoded made => ?_)
      show Call.Adds _ (KeyValue.Memory.setBatch config ctx (.ofList encoded) span) _
      rw [KeyValue.Memory.setBatch_eq]
      refine Call.adds_changeIf fun now m past moment checked holds => ?_
      cases KeyValue.Memory.until?_of_expiry checked
      exact holds.purge.insertAll made
  | delete key =>
      rw [run_delete_of_hookless idle]
      refine Call.adds_lift_bind fun _ _ => Call.adds_check_bind ?_
      show Call.Adds _ (KeyValue.Memory.delete ctx key) _
      rw [KeyValue.Memory.delete_eq]
      refine Call.adds_under fun now m past holds => ?_
      cases held : (m.purge now).entries.contains key with
      | true => exact holds.purge.erase key
      | false =>
          show Holds model c base now ((m.purge now).erase key) past
          rw [KeyValue.Memory.erase_purge_of_absent held]
          exact holds.purge
  | deleteBatch keys =>
      rw [run_deleteBatch_of_hookless idle]
      refine Call.adds_check_bind (Call.adds_lift_bind fun _ _ => ?_)
      show Call.Adds _ (KeyValue.Memory.deleteBatch ctx keys) _
      rw [KeyValue.Memory.deleteBatch_eq]
      exact Call.adds_under fun _ _ _ holds => (holds.foldl_erase keys).purge

/-- A get under a live context reads what the store holds under the key. -/
theorem get_of_holds (h : model.Hookless) {s : Session KeyValue.Memory}
    (holds : Holds model c base s.now s.backend past) {key : String} (named : key ≠ "")
    (live : s.refusal? ctx = none) :
    ((inMemory model spec c config).get ctx key s).1 =
      model.retrieve c (.notFound key)
        ((((past.map (entryOf model c)).stands (· == key) (base key)).filter
          fun e => e.isLive s.now).map KeyValue.Entry.bytes) := by
  have idle : (inMemory model spec c config).model.Hookless := h
  have addressed : checkKey key = .ok () := if_neg named
  rw [get_of_hookless idle, underKey, addressed, Call.lift_ok, pure_bind, Call.check_bind_of_live live,
    Call.bind_apply]
  have asked : (inMemory model spec c config).provider.get ctx key s = KeyValue.Memory.get ctx key s :=
    rfl
  rw [asked, KeyValue.Memory.get_eq, Call.reading_of_live _ live, ← KeyValue.Ledger.find?_eq_get?_held,
    holds key]
  cases ((past.map (entryOf model c)).stands (· == key) (base key)).filter
      fun e => e.isLive s.now with
  | none => rfl
  | some e => exact congrArg Prod.fst (Call.lift_apply _ s)

end RecordStore

end Depot
