import Depot.KeyValue.Memory
import Depot.Proofs.Dict.Lookup
import Depot.Proofs.KeyValue.RecordStore

/-!
# Writes of the key-value store in memory

What a store in memory holds at a moment are the entries that have not expired by then; the others
count as absent now and ever after. A write may purge these without any effect. Otherwise it does all
or nothing.
-/

namespace Depot.KeyValue.Memory

/-- What a store holds at a moment. -/
def contents (now : Time) (m : Memory) : Memory := m.purge now

theorem purge_purge (m : Memory) (now : Time) : (m.purge now).purge now = m.purge now :=
  congrArg Memory.mk (Dict.filter_filter_self m.entries fun _ e => e.isLive now)

/-- An entry that has expired does not come back. -/
theorem isLive_of_le {e : Entry} {now later : Time} (le : now ≤ later) (live : e.isLive later = true) :
    e.isLive now = true := by
  cases expires : e.expiresAt with
  | none => simp [Entry.isLive, expires]
  | some moment =>
      simp only [Entry.isLive, expires, decide_eq_true_eq] at live ⊢
      exact Nat.lt_of_le_of_lt le live

/-- What is found under a key, now or later, depends on the contents alone. -/
theorem find?_contents (m : Memory) {now later : Time} (le : now ≤ later) (key : String) :
    (contents now m).find? later key = m.find? later key := by
  rw [find?, find?, contents, purge, Dict.get?_filter]
  cases held : m.entries.get? key with
  | none => rfl
  | some e =>
      rw [Option.filter_some]
      cases live : e.isLive later with
      | true => simp [isLive_of_le le live, live]
      | false => cases e.isLive now <;> simp [live]

variable {config : KeyValueConfig} {ctx : Context}

theorem early_expiry (config : KeyValueConfig) (now span : Time) : Early (expiry config now span) := by
  rw [expiry]
  split
  · exact .ok none
  · split
    · exact .ok _
    · exact .error rfl

theorem set_eq (key : String) (bytes : List UInt8) (span : Time) :
    set config ctx key bytes span = Call.under ctx fun now m =>
      Call.changeIf (expiry config now span)
        (fun expiresAt => (m.purge now).insert key ⟨bytes, expiresAt⟩) m := by
  apply Call.check_bind_eq_under
  intro s
  rw [Call.bind_apply, Call.session_apply]
  dsimp only
  rw [Call.bind_apply, Call.lift_apply]
  cases expiry config s.now span <;> rfl

theorem setBatch_eq (items : Dict (List UInt8)) (span : Time) :
    setBatch config ctx items span = Call.under ctx fun now m =>
      Call.changeIf (expiry config now span)
        (fun expiresAt => items.entries.foldl (fun m item => m.insert item.1 ⟨item.2, expiresAt⟩)
          (m.purge now)) m := by
  apply Call.check_bind_eq_under
  intro s
  rw [Call.bind_apply, Call.session_apply]
  dsimp only
  rw [Call.bind_apply, Call.lift_apply]
  cases expiry config s.now span <;> rfl

/-- A delete purges the store even if it does not find its key. -/
theorem delete_eq (key : String) :
    delete ctx key = Call.under ctx fun now m =>
      (if (m.purge now).entries.contains key then .ok () else .error (.notFound key),
        (m.purge now).erase key) := by
  apply Call.check_bind_eq_under
  intro s
  rw [Call.bind_apply, Call.session_apply]
  dsimp only
  rw [Call.bind_apply, Call.setBackend_apply]
  dsimp only
  cases (s.backend.purge s.now).entries.contains key <;> rfl

theorem deleteBatch_eq (keys : List String) :
    deleteBatch ctx keys = Call.under ctx fun now m => (.ok (), (keys.foldl erase m).purge now) :=
  Call.check_bind_eq_under fun _ => rfl

theorem erase_purge_of_absent {m : Memory} {now : Time} {key : String}
    (absent : (m.purge now).entries.contains key = false) :
    (m.purge now).erase key = m.purge now := by
  have notHeld : (m.purge now).entries.get? key = none := by
    simpa [Dict.contains] using absent
  exact congrArg Memory.mk (Dict.erase_of_get? notHeld)

/-- The writes of the store do all or nothing. -/
theorem sound (config : KeyValueConfig) : (provider config).Sound contents where
  set _ key bytes span :=
    ⟨_, set_eq key bytes span, Call.allOrNothing_changeIf fun now _ => early_expiry config now span⟩
  setBatch _ items span :=
    ⟨_, setBatch_eq items span, Call.allOrNothing_changeIf fun now _ => early_expiry config now span⟩
  delete _ key := by
    refine ⟨_, delete_eq key, fun now m e failed => ⟨Early.present _ key e failed, ?_⟩⟩
    have absent : (m.purge now).entries.contains key = false := by
      cases held : (m.purge now).entries.contains key with
      | false => rfl
      | true => simp [held] at failed
    dsimp only
    rw [erase_purge_of_absent absent]
    exact purge_purge m now
  deleteBatch _ keys := ⟨_, deleteBatch_eq keys, Call.allOrNothing_of_ok fun _ _ => ⟨(), rfl⟩⟩

end Depot.KeyValue.Memory
