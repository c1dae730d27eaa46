import Depot.Proofs.KeyValue.Ledger
import Depot.Proofs.Session.Each
import Depot.Proofs.Vector.Shelf
import Mathlib.Data.List.Nodup

/-!
# Batches and single operations

A batch does in one step what single operations do in turn, or nothing (`batches_as_singles`). The stores
take different ways to that. The key-value store purges once where single operations purge every time,
which comes to the same because what they put in is not expired. The vector index checks all vectors
before it puts in any, where single operations check each vector against an index that holds those
before it.
-/

namespace Depot

/-! ### Key-value stores -/

namespace KeyValue.Memory

variable {config : KeyValueConfig} {ctx : Context} {now : Time}

/-- What is written now has not expired yet. -/
theorem isLive_of_expiry {span : Time} {expiresAt : Option Time}
    (h : expiry config now span = .ok expiresAt) (bytes : List UInt8) :
    (⟨bytes, expiresAt⟩ : Entry).isLive now = true := by
  rw [expiry] at h
  split at h
  · cases h
    rfl
  · next positive =>
      split at h <;> cases h
      rw [Time.after?]
      split
      · exact decide_eq_true (Nat.lt_add_of_pos_right (Nat.pos_of_ne_zero positive))
      · rfl

theorem purge_insert (m : Memory) (key : String) {e : Entry} (live : e.isLive now = true) :
    (m.insert key e).purge now = (m.purge now).insert key e :=
  congrArg Memory.mk (Dict.filter_insert m.entries live)

theorem purge_erase (m : Memory) (key : String) :
    (m.erase key).purge now = (m.purge now).erase key :=
  congrArg Memory.mk (Dict.filter_erase m.entries _ key)

section

variable {α : Type} {change : Memory → α → Memory}

theorem purge_foldl (later : ∀ m a, (change m a).purge now = change (m.purge now) a) (items : List α)
    (m : Memory) : (items.foldl change m).purge now = items.foldl change (m.purge now) := by
  induction items generalizing m with
  | nil => rfl
  | cons a rest ih => rw [List.foldl_cons, List.foldl_cons, ih, later]

/-- Of purges before each of some changes, which may as well come after them, only one is needed. -/
theorem foldl_purge (later : ∀ m a, (change m a).purge now = change (m.purge now) a) {items : List α}
    (nonempty : items ≠ []) (m : Memory) :
    items.foldl (fun m a => change (m.purge now) a) m = (items.foldl change m).purge now := by
  have purged (items : List α) (m : Memory) :
      items.foldl (fun m a => change (m.purge now) a) (m.purge now) =
        (items.foldl change m).purge now := by
    induction items generalizing m with
    | nil => rfl
    | cons a rest ih => rw [List.foldl_cons, purge_purge, ← later, ih, List.foldl_cons]
  obtain ⟨a, rest, rfl⟩ := List.exists_cons_of_ne_nil nonempty
  rw [List.foldl_cons, ← later, purged, List.foldl_cons]

end

/-- Items with different keys may be put in in any order. -/
theorem foldl_insert_perm {items order : List (String × List UInt8)} (perm : order.Perm items)
    (nodup : (items.map Prod.fst).Nodup) (expiresAt : Option Time) (m : Memory) :
    order.foldl (fun m item => m.insert item.1 ⟨item.2, expiresAt⟩) m =
      items.foldl (fun m item => m.insert item.1 ⟨item.2, expiresAt⟩) m := by
  refine perm.foldl_eq' (fun x hx y hy m => ?_) m
  by_cases same : x = y
  · rw [same]
  · have ne : x.1 ≠ y.1 := fun key =>
      same (List.inj_on_of_nodup_map nodup (perm.mem_iff.1 hx) (perm.mem_iff.1 hy) key)
    exact congrArg Memory.mk (Dict.insert_comm m.entries ne _ _)

/-- Items that are put in in any order, with a purge before each, are put in behind one purge. -/
theorem foldl_purge_insert {items order : List (String × List UInt8)} (perm : order.Perm items)
    (nodup : (items.map Prod.fst).Nodup) (nonempty : order ≠ []) {expiresAt : Option Time}
    (live : ∀ bytes, (⟨bytes, expiresAt⟩ : Entry).isLive now = true) (m : Memory) :
    order.foldl (fun m item => (m.purge now).insert item.1 ⟨item.2, expiresAt⟩) m =
      items.foldl (fun m item => m.insert item.1 ⟨item.2, expiresAt⟩) (m.purge now) := by
  let put (m : Memory) (item : String × List UInt8) := m.insert item.1 ⟨item.2, expiresAt⟩
  have later (m : Memory) (item : String × List UInt8) :
      (put m item).purge now = put (m.purge now) item :=
    purge_insert m item.1 (live item.2)
  calc order.foldl (fun m item => put (m.purge now) item) m
      = (order.foldl put m).purge now := foldl_purge later nonempty m
    _ = order.foldl put (m.purge now) := purge_foldl later order m
    _ = items.foldl put (m.purge now) := foldl_insert_perm perm nodup expiresAt _

/-- A batch is set as its items are, in any order. -/
theorem setBatch_eq_forM {items : Dict (List UInt8)} {order : List (String × List UInt8)}
    (perm : order.Perm items.entries) (nonempty : order ≠ []) (span : Time) :
    setBatch config ctx items span = order.forM fun item => set config ctx item.1 item.2 span := by
  funext s
  simp only [set_eq]
  rw [setBatch_eq]
  cases refused : s.refusal? ctx with
  | some e => rw [Call.under_of_refusal _ refused, Call.forM_under_of_refusal _ nonempty refused]
  | none =>
      rw [Call.under_of_live _ refused]
      cases expires : expiry config s.now span with
      | error e =>
          obtain ⟨first, rest, rfl⟩ := List.exists_cons_of_ne_nil nonempty
          rw [Call.forM_under _ _ refused, Call.inTurn, expires]
          rfl
      | ok expiresAt =>
          have single (item : String × List UInt8) (m : Memory) :
              Call.changeIf (expiry config s.now span)
                (fun expiresAt => (m.purge s.now).insert item.1 ⟨item.2, expiresAt⟩) m =
                  (.ok (), (m.purge s.now).insert item.1 ⟨item.2, expiresAt⟩) := by
            rw [expires]
            rfl
          rw [Call.forM_under_of_ok single order refused,
            foldl_purge_insert perm items.ordered.nodup nonempty (isLive_of_expiry expires)]
          rfl

theorem lenient_delete (key : String) :
    (delete ctx key).lenient = Call.under ctx fun now m => (.ok (), (m.purge now).erase key) := by
  rw [delete_eq, Call.lenient_under]
  congr
  funext now m
  cases (m.purge now).entries.contains key <;> rfl

/-- What the batches of a store come to. Deleting nothing in turn does nothing, while a batch purges even
then. -/
structure BatchesInTurn (config : KeyValueConfig) (ctx : Context) : Prop where
  sets : ∀ (items : Dict (List UInt8)) (order : List (String × List UInt8)) (span : Time),
    order.Perm items.entries → order ≠ [] →
      setBatch config ctx items span = order.forM fun item => set config ctx item.1 item.2 span
  deletes : ∀ (keys : List String) (s : Session Memory), s.refusal? ctx = none →
    ∃ b, (keys.forM fun key => (delete ctx key).lenient) s = (.ok (), s.withBackend b) ∧
      deleteBatch ctx keys s = (.ok (), s.withBackend (contents s.now b)) ∧
      (keys ≠ [] → contents s.now b = b)
  gets : ∀ (keys : List String) (s : Session Memory), s.refusal? ctx = none →
    ∃ found, getBatch ctx keys s = (.ok found, s) ∧
      ∀ key bytes, found.get? key = some bytes ↔ key ∈ keys ∧ (get ctx key s).1 = .ok bytes
  whole : ∀ (s : Session Memory) (e : Error) (items : Dict (List UInt8)) (span : Time)
    (keys : List String),
    ((setBatch config ctx items span s).1 = .error e → (setBatch config ctx items span s).2 = s) ∧
    ((deleteBatch ctx keys s).1 = .error e → (deleteBatch ctx keys s).2 = s) ∧
    (getBatch ctx keys s).2 = s

theorem batchesInTurn (config : KeyValueConfig) (ctx : Context) : BatchesInTurn config ctx where
  sets _ _ span perm nonempty := setBatch_eq_forM perm nonempty span
  deletes keys s live := by
    refine ⟨keys.foldl (fun m key => (m.purge s.now).erase key) s.backend, ?_, ?_, ?_⟩
    · simp only [lenient_delete]
      rw [Call.forM_under_of_ok (fun _ _ => rfl) keys live]
    · rw [deleteBatch_eq, Call.under_of_live _ live, contents]
      by_cases nonempty : keys = []
      · rw [nonempty]
        rfl
      · rw [foldl_purge purge_erase nonempty, purge_purge]
    · intro nonempty
      rw [contents, foldl_purge purge_erase nonempty, purge_purge]
  gets keys s live := by
    rw [getBatch_eq, Call.reading_of_live _ live]
    refine ⟨_, rfl, fun key bytes => ?_⟩
    rw [get_eq, Call.reading_of_live _ live, Dict.get?_map, Dict.get?_filter]
    dsimp only
    cases (Ledger.held s.backend.entries s.now).get? key with
    | none => simp
    | some e =>
        by_cases mem : key ∈ keys
        · simp [Option.filter_some, mem]
        · simp [Option.filter_some, mem]
  whole s e items span keys := by
    rw [setBatch_eq, deleteBatch_eq, getBatch_eq]
    refine ⟨Call.session_of_error fun _ _ _ => Call.backend_of_changeIf,
      Call.session_of_error fun _ _ _ failed => ?_, Call.session_reading _ s⟩
    cases failed

end KeyValue.Memory

/-! ### Vector indexes -/

namespace Vector.Memory

variable {ctx : Context} {m : Memory}

/-- Puts an entry in if its vector passes the check. -/
def insertChecked (entry : Entry) (m : Memory) : Except Error Unit × Memory :=
  Call.changeIf (checkVector m.dimension entry.vector) (fun _ => m.insert entry) m

/-- The first entry that does not pass is the one that the check of all of them stops at. -/
theorem answer_inTurn_insertChecked (entries : List Entry) (m : Memory) :
    (Call.inTurn insertChecked entries m).1 = checkBatch m.dimension entries := by
  induction entries generalizing m with
  | nil => rfl
  | cons entry rest ih =>
      rw [checkBatch_cons, Call.inTurn, insertChecked]
      cases checkVector m.dimension entry.vector with
      | error e => rfl
      | ok _ =>
          have others := ih (m.insert entry)
          rw [dimension_insert] at others
          exact others

/-- Entries that pass are all put in. -/
theorem inTurn_insertChecked {entries : List Entry} (passed : checkBatch m.dimension entries = .ok ()) :
    Call.inTurn insertChecked entries m = (.ok (), entries.foldl insert m) := by
  induction entries generalizing m with
  | nil => rfl
  | cons entry rest ih =>
      rw [checkBatch_cons] at passed
      obtain ⟨_, first, others⟩ := Fallible.bind_eq_ok_iff.1 passed
      rw [Call.inTurn, insertChecked, first]
      refine ih ?_
      rw [dimension_insert]
      exact others

theorem upsert_eq_insertChecked (entry : Entry) :
    upsert ctx entry = Call.under ctx fun _ => insertChecked entry :=
  upsert_eq entry

theorem lenient_delete (id : String) :
    (delete ctx id).lenient = Call.under ctx fun _ m => (.ok (), m.erase id) := by
  rw [delete_eq, Call.lenient_under]
  congr
  funext _ m
  cases held : m.vectors.contains id with
  | true => rfl
  | false =>
      have absent : m.vectors.get? id = none := by simpa [Dict.contains] using held
      have same : m.erase id = m := by rw [erase, Dict.erase_of_get? absent]
      rw [same]
      rfl

/-- What the batches of an index come to. -/
structure BatchesInTurn (ctx : Context) : Prop where
  upserts : ∀ (entries : List Entry) (s : Session Memory), s.refusal? ctx = none →
    (upsertBatch ctx entries s).1 = ((entries.forM (upsert ctx) : Call Memory Unit) s).1 ∧
    ((upsertBatch ctx entries s).1 = .ok () →
      upsertBatch ctx entries s = (entries.forM (upsert ctx) : Call Memory Unit) s)
  deletes : ∀ (ids : List String) (s : Session Memory), s.refusal? ctx = none →
    deleteBatch ctx ids s = (ids.forM fun id => (delete ctx id).lenient) s
  whole : ∀ (s : Session Memory) (e : Error) (entries : List Entry) (ids : List String),
    ((upsertBatch ctx entries s).1 = .error e → (upsertBatch ctx entries s).2 = s) ∧
    ((deleteBatch ctx ids s).1 = .error e → (deleteBatch ctx ids s).2 = s)

theorem batchesInTurn (ctx : Context) : BatchesInTurn ctx where
  upserts entries s live := by
    have turns : (entries.forM (upsert ctx) : Call Memory Unit) s =
        ((Call.inTurn insertChecked entries s.backend).1,
          s.withBackend (Call.inTurn insertChecked entries s.backend).2) := by
      rw [show upsert ctx = fun entry => Call.under ctx fun _ => insertChecked entry from
        funext upsert_eq_insertChecked]
      exact Call.forM_under _ entries live
    rw [turns, upsertBatch_eq, Call.under_of_live _ live, answer_inTurn_insertChecked]
    cases passed : checkBatch s.backend.dimension entries with
    | error e => exact ⟨rfl, fun succeeded => by cases succeeded⟩
    | ok _ =>
        refine ⟨rfl, fun _ => ?_⟩
        rw [inTurn_insertChecked passed]
        rfl
  deletes ids s live := by
    simp only [lenient_delete]
    rw [deleteBatch_eq, Call.under_of_live _ live, Call.forM_under_of_ok (fun _ _ => rfl) ids live]
  whole s e entries ids := by
    rw [upsertBatch_eq, deleteBatch_eq]
    refine ⟨Call.session_of_error fun _ _ _ => Call.backend_of_changeIf,
      Call.session_of_error fun _ _ _ failed => ?_⟩
    cases failed

end Vector.Memory

/-- **Batches are single operations, or nothing.** Whatever the stores in memory hold, and under whatever
live context: to set a batch that is not empty is to set its items, in any order, for the same span. To
delete a batch is to delete its keys, where it is no failure if one is not there, however often it is
named. A batch gets the keys that can be got by themselves, with what is got so. To upsert a batch of
vectors is to upsert one after the other: the batch fails if one of them does, with the same error, and
if none does the index is the same in the end. But whenever a batch fails, the store is left as it was,
while single operations leave behind what was done before the failure. -/
theorem batches_as_singles :
    (∀ config ctx, KeyValue.Memory.BatchesInTurn config ctx) ∧ ∀ ctx, Vector.Memory.BatchesInTurn ctx :=
  ⟨KeyValue.Memory.batchesInTurn, Vector.Memory.batchesInTurn⟩

/-- Upserted by itself, a vector stays when the next one does not have its length; in a batch it does
not. -/
theorem batches_as_singles_mismatched :
    let ctx : Context := ⟨0, none⟩
    let s : Session Vector.Memory := ⟨{}, 0, [], [], []⟩
    let entries : List Vector.Entry := [⟨"a", [.one], []⟩, ⟨"b", [.one, .one], []⟩]
    let singles := (entries.forM (Vector.Memory.upsert ctx) : Call Vector.Memory Unit) s
    Vector.Memory.upsertBatch ctx entries s = (.error (.dimensionMismatch 1 2), s) ∧
      singles.1 = .error (.dimensionMismatch 1 2) ∧ singles.2.backend.dimension = some 1 := by
  intro ctx s entries singles
  obtain ⟨upserts, _, whole⟩ := batches_as_singles.2 ctx
  obtain ⟨same, _⟩ := upserts entries s rfl
  have failed : (Vector.Memory.upsertBatch ctx entries s).1 = .error (.dimensionMismatch 1 2) := rfl
  exact ⟨Prod.ext failed ((whole s _ entries []).1 failed), same.symm.trans failed, rfl⟩

end Depot
