import Depot.Proofs.Blob.Named
import Depot.Proofs.KeyValue.Named
import Depot.Proofs.Record.ReadBack
import Depot.Proofs.Relational.Usage
import Depot.Proofs.Session.Barred
import Depot.Proofs.Vector.Named

/-!
# A dead context does nothing

Every operation that is given a context checks it before hooks, codec and provider. At most it looks at
its own arguments first: at the keys it is given, or at whether its statement can be bound. So under a
context that was cancelled or whose deadline has passed it comes to nothing, in both views and with
every provider (`dead_contexts`). What it fails with is settled by the operation and the context, which
is to say that whatever hooks, codec and provider there are, they have no part in it.
-/

namespace Depot

namespace Call

variable {σ α : Type} {ctx : Context}

/-- A call under one key, which is checked first. -/
theorem barred_key (key : String) (call : Call σ α) :
    (do
      lift (checkKey key)
      check ctx
      call).Barred ctx (checkKeys [key]) := by
  intro s e dead
  have same : firstError (checkKeys [key]) e = firstError (checkKey key) e := by
    rw [show checkKeys [key] = checkKey key >>= fun _ => pure () from rfl]
    cases checkKey key <;> rfl
  rw [same]
  exact barred_lift_bind (fun _ => barred_check_bind fun _ => call) s e dead

/-- A call under many keys, which are checked first. -/
theorem barred_keys (keys : List String) (call : Call σ α) :
    (do
      lift (checkKeys keys)
      check ctx
      call).Barred ctx (checkKeys keys) :=
  barred_lift_bind fun _ => barred_check_bind fun _ => call

end Call

/-! ### Arguments that are refused -/

theorem isRefusal_of_checkKey {key : String} {e : Error} (failed : checkKey key = .error e) :
    e.IsRefusal := by
  rw [checkKey] at failed
  split at failed <;> cases failed
  trivial

theorem isRefusal_of_checkKeys {keys : List String} {e : Error} (failed : checkKeys keys = .error e) :
    e.IsRefusal := by
  obtain ⟨_, _, failed⟩ := Fallible.exists_of_forM_eq_error failed
  exact isRefusal_of_checkKey failed

/-- A text that addresses no row is refused as a key. -/
theorem FieldSpec.isRefusal_of_keyOf (f : FieldSpec) {text : String} {e : Error}
    (failed : f.keyOf text = .error e) : e.IsRefusal := by
  rw [keyOf, Fallible.bind_eq_error_iff] at failed
  rcases failed with unchecked | ⟨_, _, unread⟩
  · exact isRefusal_of_checkKey unchecked
  · split at unread <;> cases unread
    trivial

theorem Refuses.isRefusal {α : Type} {x : Except Error α} (h : Refuses x) (e : Error)
    (failed : x = .error e) : e.IsRefusal := by
  obtain ⟨detail, rfl⟩ := h e failed
  trivial

theorem Error.IsRefusal.of_map {α β : Type} {x : Except Error α} {f : α → β} {e : Error}
    (refuses : ∀ own, x = .error own → own.IsRefusal) (failed : f <$> x = .error e) : e.IsRefusal := by
  cases x with
  | ok a => cases failed
  | error own =>
      cases failed
      exact refuses _ rfl

/-! ### Providers -/

/-- The provider checks the context of an operation before it does anything. -/
structure KeyValue.Provider.ChecksFirst {σ : Type} (p : KeyValue.Provider σ) : Prop where
  get : ∀ ctx key, (p.get ctx key).Barred ctx (.ok ())
  set : ∀ ctx key bytes span, (p.set ctx key bytes span).Barred ctx (.ok ())
  delete : ∀ ctx key, (p.delete ctx key).Barred ctx (.ok ())
  has : ∀ ctx key, (p.has ctx key).Barred ctx (.ok ())
  list : ∀ ctx start limit, (p.list ctx start limit).Barred ctx (.ok ())
  getBatch : ∀ ctx keys, (p.getBatch ctx keys).Barred ctx (.ok ())
  setBatch : ∀ ctx items span, (p.setBatch ctx items span).Barred ctx (.ok ())
  deleteBatch : ∀ ctx keys, (p.deleteBatch ctx keys).Barred ctx (.ok ())
  scan : ∀ ctx start cursor limit, (p.scan ctx start cursor limit).Barred ctx (.ok ())
  count : ∀ ctx start, (p.count ctx start).Barred ctx (.ok ())

theorem KeyValue.Memory.checksFirst (config : KeyValueConfig) : (provider config).ChecksFirst where
  get _ _ := Call.barred_check_bind _
  set _ _ _ _ := Call.barred_check_bind _
  delete _ _ := Call.barred_check_bind _
  has _ _ := Call.barred_check_bind _
  list _ _ _ := Call.barred_check_bind _
  getBatch _ _ := Call.barred_check_bind _
  setBatch _ _ _ := Call.barred_check_bind _
  deleteBatch _ _ := Call.barred_check_bind _
  scan _ _ _ _ := Call.barred_check_bind _
  count _ _ := Call.barred_check_bind _

@[inherit_doc KeyValue.Provider.ChecksFirst]
structure Blob.Provider.ChecksFirst {σ : Type} (p : Blob.Provider σ) : Prop where
  get : ∀ ctx key, (p.get ctx key).Barred ctx (.ok ())
  put : ∀ ctx key bytes info, (p.put ctx key bytes info).Barred ctx (.ok ())
  delete : ∀ ctx key, (p.delete ctx key).Barred ctx (.ok ())
  has : ∀ ctx key, (p.has ctx key).Barred ctx (.ok ())
  list : ∀ ctx start limit, (p.list ctx start limit).Barred ctx (.ok ())

theorem Blob.Memory.checksFirst : provider.ChecksFirst where
  get _ _ := Call.barred_check_bind _
  put _ _ _ _ := Call.barred_check_bind _
  delete _ _ := Call.barred_check_bind _
  has _ _ := Call.barred_check_bind _
  list _ _ _ := Call.barred_check_bind _

@[inherit_doc KeyValue.Provider.ChecksFirst]
structure Vector.Provider.ChecksFirst {σ : Type} (p : Vector.Provider σ) : Prop where
  upsert : ∀ ctx entry, (p.upsert ctx entry).Barred ctx (.ok ())
  upsertBatch : ∀ ctx entries, (p.upsertBatch ctx entries).Barred ctx (.ok ())
  get : ∀ ctx id, (p.get ctx id).Barred ctx (.ok ())
  delete : ∀ ctx id, (p.delete ctx id).Barred ctx (.ok ())
  deleteBatch : ∀ ctx ids, (p.deleteBatch ctx ids).Barred ctx (.ok ())
  search : ∀ ctx vector k filter, (p.search ctx vector k filter).Barred ctx (.ok ())
  query : ∀ ctx vector k filter, (p.query ctx vector k filter).Barred ctx (.ok ())
  filter : ∀ ctx filter limit, (p.filter ctx filter limit).Barred ctx (.ok ())
  list : ∀ ctx limit, (p.list ctx limit).Barred ctx (.ok ())
  has : ∀ ctx id, (p.has ctx id).Barred ctx (.ok ())

theorem Vector.Memory.checksFirst (settings : Settings) : (provider settings).ChecksFirst where
  upsert _ _ := Call.barred_check_bind _
  upsertBatch _ _ := Call.barred_check_bind _
  get _ _ := Call.barred_check_bind _
  delete _ _ := Call.barred_check_bind _
  deleteBatch _ _ := Call.barred_check_bind _
  search _ _ _ _ := Call.barred_check_bind _
  query _ _ _ _ := Call.barred_check_bind _
  filter _ _ _ := Call.barred_check_bind _
  list _ _ := Call.barred_check_bind _
  has _ _ := Call.barred_check_bind _

@[inherit_doc KeyValue.Provider.ChecksFirst]
structure Relational.Executor.ChecksFirst {σ : Type} (e : Executor σ) : Prop where
  get : ∀ ctx table key, (e.get ctx table key).Barred ctx (.ok ())
  upsert : ∀ ctx table row, (e.upsert ctx table row).Barred ctx (.ok ())
  delete : ∀ ctx table key, (e.delete ctx table key).Barred ctx (.ok ())
  has : ∀ ctx table key, (e.has ctx table key).Barred ctx (.ok ())
  query : ∀ ctx table q, (e.query ctx table q).Barred ctx (.ok ())
  select : ∀ ctx table q, (e.select ctx table q).Barred ctx (.ok ())
  update : ∀ ctx table u, (e.update ctx table u).Barred ctx (.ok ())
  aggregate : ∀ ctx table a, (e.aggregate ctx table a).Barred ctx (.ok ())

theorem Relational.Connection.checksFirst : executor.ChecksFirst where
  get _ _ _ := Call.barred_check_bind _
  upsert _ _ _ := Call.barred_check_bind _
  delete _ _ _ := Call.barred_check_bind _
  has _ _ _ := Call.barred_check_bind _
  query _ _ _ := Call.barred_check_bind _
  select _ _ _ := (Call.barred_check_bind _).bind _
  update _ _ _ := Call.barred_check_bind _
  aggregate _ _ _ := Call.barred_check_bind _

/-! ### Key-value stores of records -/

namespace RecordStore

variable {ρ σ : Type} {ctx : Context} {s : Session σ} {e : Error}

/-- What an operation fails with under a context that ended as said. -/
def Use.refusal (op : Use ρ) (e : Error) : Error := Call.firstError (checkKeys op.keys) e

/-- Under a dead context the operations of all stores of records of a type do nothing. The records that
were to be written are given back as they are. -/
structure Idle (ρ : Type) (ctx : Context) (s : Session σ) (e : Error) : Prop where
  run : ∀ (store : RecordStore ρ σ) (op : Use ρ), op.run store ctx s = (.error (op.refusal e), s)
  set : ∀ (store : RecordStore ρ σ) key record span, store.set ctx key record span s =
    (.ok ⟨record, .error ((Use.write (.set key record span)).refusal e)⟩, s)
  setBatch : ∀ (store : RecordStore ρ σ) items span, store.setBatch ctx items span s =
    (.ok (items, .error e), s)
  refuses : ∀ op : Use ρ, (op.refusal e).IsRefusal

theorem set_of_refusal (store : RecordStore ρ σ) (dead : s.refusal? ctx = some e) (key : String)
    (record : ρ) (span : Time) : store.set ctx key record span s =
      (.ok ⟨record, .error (Call.firstError (checkKeys [key]) e)⟩, s) := by
  rw [set, Call.bind_apply, underKey, (Call.barred_key key _).attempt dead]
  rfl

theorem setBatch_of_refusal (store : RecordStore ρ σ) (dead : s.refusal? ctx = some e)
    (items : List (String × ρ)) (span : Time) :
    store.setBatch ctx items span s = (.ok (items, .error e), s) := by
  rw [setBatch, Call.bind_apply, Call.attempt_apply, Call.check_of_refusal dead]
  rfl

theorem Write.barred_run (store : RecordStore ρ σ) (w : Write ρ) :
    (w.run store ctx).Barred ctx (checkKeys (Use.write w).keys) := by
  intro s e dead
  cases w with
  | set key record span =>
      rw [run, Call.bind_apply, set_of_refusal store dead]
      rfl
  | setBatch items span =>
      rw [run, Call.bind_apply, setBatch_of_refusal store dead]
      rfl
  | delete key => exact Call.barred_key key _ s e dead
  | deleteBatch keys => exact Call.barred_check_bind _ s e dead

theorem Use.barred_run (store : RecordStore ρ σ) (op : Use ρ) :
    (op.run store ctx).Barred ctx (checkKeys op.keys) := by
  cases op with
  | write w => exact w.barred_run store
  | setAtom key | deleteAtom key => exact Call.barred_key key _
  | has key | get key | getAtom key => exact (Call.barred_key key _).map _
  | deleteAtoms keys => exact Call.barred_keys keys _
  | getBatch keys | getAtoms keys => exact (Call.barred_keys keys _).map _
  | setAtoms => exact Call.barred_check_bind _
  | count | list | scan => exact (Call.barred_check_bind _).map _

theorem idle (ρ : Type) (dead : s.refusal? ctx = some e) : Idle ρ ctx s e where
  run store op := op.barred_run store s e dead
  set store := set_of_refusal store dead
  setBatch store := setBatch_of_refusal store dead
  refuses _ := Call.isRefusal_firstError (fun _ => isRefusal_of_checkKeys) dead

end RecordStore

/-! ### Buckets of records -/

namespace RecordBucket

variable {ρ σ : Type} {ctx : Context} {s : Session σ} {e : Error}

@[inherit_doc RecordStore.Use.refusal]
def Use.refusal (op : Use ρ) (e : Error) : Error := Call.firstError (checkKeys op.key?.toList) e

/-- Under a dead context the operations of all buckets of records of a type do nothing. The objects that
were to be written are given back as they are. -/
structure Idle (ρ : Type) (ctx : Context) (s : Session σ) (e : Error) : Prop where
  run : ∀ (bucket : RecordBucket ρ σ) (op : Use ρ), op.run bucket ctx s = (.error (op.refusal e), s)
  put : ∀ (bucket : RecordBucket ρ σ) object, bucket.put ctx object s =
    (.ok ⟨object, .error ((Use.write (.put object)).refusal e)⟩, s)
  putAtom : ∀ (bucket : RecordBucket ρ σ) object, bucket.putAtom ctx object s =
    (.ok ⟨object, .error ((Use.putAtom object : Use ρ).refusal e)⟩, s)
  refuses : ∀ op : Use ρ, (op.refusal e).IsRefusal

theorem put_of_refusal (bucket : RecordBucket ρ σ) (dead : s.refusal? ctx = some e)
    (object : ObjectOf ρ) : bucket.put ctx object s =
      (.ok ⟨object, .error (Call.firstError (checkKeys [object.info.key]) e)⟩, s) := by
  rw [put, Call.bind_apply, underKey, (Call.barred_key _ _).attempt dead]
  rfl

theorem putAtom_of_refusal (bucket : RecordBucket ρ σ) (dead : s.refusal? ctx = some e)
    (object : ObjectOf Atom) : bucket.putAtom ctx object s =
      (.ok ⟨object, .error (Call.firstError (checkKeys [object.info.key]) e)⟩, s) := by
  rw [putAtom, Call.bind_apply, underKey, (Call.barred_key _ _).attempt dead]
  rfl

theorem Use.barred_run (bucket : RecordBucket ρ σ) (op : Use ρ) :
    (op.run bucket ctx).Barred ctx (checkKeys op.key?.toList) := by
  cases op with
  | write w =>
      cases w with
      | put object =>
          intro s e dead
          rw [run, Write.run, Call.bind_apply, put_of_refusal bucket dead]
          rfl
      | delete key => exact Call.barred_key key _
  | putAtom object =>
      intro s e dead
      rw [run, Call.bind_apply, putAtom_of_refusal bucket dead]
      rfl
  | deleteAtom key => exact Call.barred_key key _
  | has key | get key | getAtom key => exact (Call.barred_key key _).map _
  | list => exact (Call.barred_check_bind _).map _

theorem idle (ρ : Type) (dead : s.refusal? ctx = some e) : Idle ρ ctx s e where
  run bucket op := op.barred_run bucket s e dead
  put bucket := put_of_refusal bucket dead
  putAtom bucket := putAtom_of_refusal bucket dead
  refuses _ := Call.isRefusal_firstError (fun _ => isRefusal_of_checkKeys) dead

end RecordBucket

/-! ### Vector indexes of records -/

namespace RecordIndex

variable {ρ σ : Type} {ctx : Context} {s : Session σ} {e : Error}

@[inherit_doc RecordStore.Use.refusal]
def Use.refusal (op : Use ρ) (e : Error) : Error := Call.firstError (checkKeys op.ids) e

/-- Under a dead context the operations of all indexes of records of a type do nothing. The records that
were to be written are given back as they are. -/
structure Idle (ρ : Type) (ctx : Context) (s : Session σ) (e : Error) : Prop where
  run : ∀ (index : RecordIndex ρ σ) (op : Use ρ), op.run index ctx s = (.error (op.refusal e), s)
  upsert : ∀ (index : RecordIndex ρ σ) id vector record, index.upsert ctx id vector record s =
    (.ok ⟨record, .error e⟩, s)
  upsertBatch : ∀ (index : RecordIndex ρ σ) vectors, index.upsertBatch ctx vectors s =
    (.ok (vectors, .error e), s)
  refuses : ∀ op : Use ρ, (op.refusal e).IsRefusal

theorem upsert_of_refusal (index : RecordIndex ρ σ) (dead : s.refusal? ctx = some e) (id : String)
    (vector : Components) (record : ρ) :
    index.upsert ctx id vector record s = (.ok ⟨record, .error e⟩, s) := by
  rw [upsert, Call.bind_apply, Call.attempt_apply, Call.check_of_refusal dead]
  rfl

theorem upsertBatch_of_refusal (index : RecordIndex ρ σ) (dead : s.refusal? ctx = some e)
    (vectors : List (VectorOf ρ)) :
    index.upsertBatch ctx vectors s = (.ok (vectors, .error e), s) := by
  rw [upsertBatch, Call.bind_apply, Call.attempt_apply, Call.check_of_refusal dead]
  rfl

theorem Use.barred_run (index : RecordIndex ρ σ) (op : Use ρ) :
    (op.run index ctx).Barred ctx (checkKeys op.ids) := by
  cases op with
  | write w =>
      intro s e dead
      cases w with
      | upsert id vector record =>
          rw [run, Write.run, Call.bind_apply, upsert_of_refusal index dead]
          rfl
      | upsertBatch vectors =>
          rw [run, Write.run, Call.bind_apply, upsertBatch_of_refusal index dead]
          rfl
      | delete id => exact Call.barred_key id _ s e dead
      | deleteBatch ids => exact Call.barred_check_bind _ s e dead
  | upsertAtom | upsertAtoms => exact Call.barred_check_bind _
  | deleteAtom id => exact Call.barred_key id _
  | deleteAtoms ids => exact Call.barred_keys ids _
  | has id | get id | getAtom id => exact (Call.barred_key id _).map _
  | list => exact (Call.barred_check_bind _).map _
  | search | searchAtoms | query | queryAtoms | filter | filterAtoms =>
      exact ((Call.barred_check_bind _).bind _).map _

theorem idle (ρ : Type) (dead : s.refusal? ctx = some e) : Idle ρ ctx s e where
  run index op := op.barred_run index s e dead
  upsert index := upsert_of_refusal index dead
  upsertBatch index := upsertBatch_of_refusal index dead
  refuses _ := Call.isRefusal_firstError (fun _ => isRefusal_of_checkKeys) dead

end RecordIndex

/-! ### Tables of records -/

namespace RecordTable

open Relational

variable {ρ σ : Type} {ctx : Context} {s : Session σ} {e : Error}

/-- The arguments that an operation looks at first: a key text that has to be read, or a statement that
has to be bound. -/
def Use.arguments (table : TableDef) : Use ρ → Except Error Unit
  | write (.delete key) | deleteAtom key | has key | get key | getAtom key =>
      (fun _ => ()) <$> table.spec.key.keyOf key
  | write (.update u params) => (fun _ => ()) <$> u.bind table.spec params
  | query q params | queryAtoms q params | select q params | selectAtom q params =>
      (fun _ => ()) <$> q.bind table.spec params
  | aggregate a params => (fun _ => ()) <$> a.bind table.spec params
  | write (.set _) | setAtom _ => .ok ()

/-- What an operation on a table fails with under a context that ended as said. -/
def Use.refusal (table : TableDef) (op : Use ρ) (e : Error) : Error :=
  Call.firstError (op.arguments table) e

/-- Under a dead context the operations of all tables of records of a type do nothing. The record that
was to be saved is given back as it is. -/
structure Idle (ρ : Type) (ctx : Context) (s : Session σ) (e : Error) : Prop where
  run : ∀ (t : RecordTable ρ σ) (op : Use ρ), op.run t ctx s = (.error (op.refusal t.table e), s)
  set : ∀ (t : RecordTable ρ σ) record, t.set ctx record s = (.ok ⟨record, .error e⟩, s)
  refuses : ∀ table (op : Use ρ), (op.refusal table e).IsRefusal

theorem barred_underKey {α : Type} (t : RecordTable ρ σ) (key : String) (call : Value → Call σ α) :
    (t.underKey ctx key call).Barred ctx ((fun _ => ()) <$> t.table.spec.key.keyOf key) := by
  intro s e dead
  rw [Call.firstError_map]
  exact Call.barred_lift_bind (fun _ => Call.barred_check_bind _) s e dead

theorem barred_underBound {α β : Type} (bound : Except Error β) (call : β → Call σ α) :
    (underBound ctx bound call).Barred ctx ((fun _ => ()) <$> bound) := by
  intro s e dead
  rw [Call.firstError_map]
  exact Call.barred_lift_bind (fun _ => Call.barred_check_bind _) s e dead

theorem set_of_refusal (t : RecordTable ρ σ) (dead : s.refusal? ctx = some e) (record : ρ) :
    t.set ctx record s = (.ok ⟨record, .error e⟩, s) := by
  rw [set, Call.bind_apply, (Call.barred_check_bind _).attempt dead]
  rfl

theorem Use.barred_run (t : RecordTable ρ σ) (op : Use ρ) :
    (op.run t ctx).Barred ctx (op.arguments t.table) := by
  cases op with
  | write w =>
      cases w with
      | set record =>
          intro s e dead
          rw [run, Write.run, Call.bind_apply, set_of_refusal t dead]
          rfl
      | delete key => exact t.barred_underKey key _
      | update u params => exact (barred_underBound _ _).map _
  | setAtom => exact Call.barred_check_bind _
  | deleteAtom key => exact t.barred_underKey key _
  | has key | get key | getAtom key => exact (t.barred_underKey key _).map _
  | query | queryAtoms | select | selectAtom | aggregate => exact (barred_underBound _ _).map _

theorem isRefusal_of_arguments {table : TableDef} {op : Use ρ} (failed : op.arguments table = .error e) :
    e.IsRefusal := by
  cases op with
  | write w =>
      cases w with
      | set record => cases failed
      | delete key => exact .of_map (fun _ => table.spec.key.isRefusal_of_keyOf) failed
      | update u params => exact .of_map (u.refuses_bind _ params).isRefusal failed
  | setAtom => cases failed
  | deleteAtom | has | get | getAtom =>
      exact .of_map (fun _ => table.spec.key.isRefusal_of_keyOf) failed
  | query q params | queryAtoms q params | select q params | selectAtom q params =>
      exact .of_map (q.refuses_bind _ params).isRefusal failed
  | aggregate a params => exact .of_map (a.refuses_bind _ params).isRefusal failed

theorem idle (ρ : Type) (dead : s.refusal? ctx = some e) : Idle ρ ctx s e where
  run t op := op.barred_run t s e dead
  set t := set_of_refusal t dead
  refuses _ _ := Call.isRefusal_firstError (fun _ => isRefusal_of_arguments) dead

end RecordTable

/-! ### Databases with open transactions -/

namespace Relational

variable {ctx : Context} {s : Session System} {e : Error}

/-- The call does nothing to a system but to give a result, whether it goes to the database or to a
transaction that is open. -/
def System.Unmoved {α : Type} (tx : Option String) (call : Call Connection α) (s : Session System)
    (result : Except Error α) : Prop :=
  (on tx call s).2 = s ∧ ∀ r ∈ (on tx call s).1, r = result

/-- A call that does nothing to connections does nothing to the open transactions, either: each is put
back as it was. -/
theorem System.unmoved {α : Type} {call : Call Connection α} {result : Except Error α}
    (idle : ∀ c : Connection, call (s.withBackend c) = (result, s.withBackend c)) (tx : Option String) :
    Unmoved tx call s result := by
  cases tx with
  | none =>
      rw [Unmoved, on, idle]
      exact ⟨rfl, fun _ same => (Option.mem_some.1 same).symm⟩
  | some name =>
      cases held : s.backend.transactions.get? name with
      | none => simp [Unmoved, on, held]
      | some tx =>
          have same : s.backend.withTransaction name tx = s.backend := by
            rw [withTransaction, Dict.insert_of_get? held]
          simp only [Unmoved, on, held]
          rw [idle]
          refine ⟨?_, fun _ same => (Option.mem_some.1 same).symm⟩
          show s.withBackend (s.backend.withTransaction name tx) = s
          rw [same]
          rfl

/-- Under a dead context nothing that is done with a system changes it: not the statements, and not the
operations of tables of records of a type. -/
structure System.Idle (ρ : Type) (ctx : Context) (s : Session System) (e : Error) : Prop where
  statement : ∀ tx (st : Statement), Unmoved tx (st.call ctx) s (.error e)
  run : ∀ tx (t : RecordTable ρ Connection) (op : RecordTable.Use ρ),
    Unmoved tx (op.run t ctx) s (.error (op.refusal t.table e))
  set : ∀ tx (t : RecordTable ρ Connection) record,
    Unmoved tx (t.set ctx record) s (.ok ⟨record, .error e⟩)

theorem System.idle (ρ : Type) (dead : s.refusal? ctx = some e) : Idle ρ ctx s e where
  statement tx st := unmoved (fun c => Statement.call_of_refusal (s := s.withBackend c) dead st) tx
  run tx t op := unmoved (fun c => (RecordTable.idle ρ (s := s.withBackend c) dead).run t op) tx
  set tx t record := unmoved (fun c => (RecordTable.idle ρ (s := s.withBackend c) dead).set t record) tx

end Relational

/-- **A dead context does nothing.** An operation whose context was cancelled, or whose deadline has
passed, fails because of its own arguments or of the context, and leaves the whole session as it was:
what the provider holds, entries that have expired included, the events that hooks log, the warnings,
and which contexts are cancelled. That is so for all operations of the memory providers and of stores,
buckets, indexes and tables of records in both views, whatever their hooks, codec and provider are, and a
record that was to be written is given back as it was. A database stays as it was with all transactions
that are open on it, whether the operation goes to the database or to one of them. -/
theorem dead_contexts (ctx : Context) (e : Error) :
    (∀ (ρ σ : Type) (s : Session σ), s.refusal? ctx = some e →
      RecordStore.Idle ρ ctx s e ∧ RecordBucket.Idle ρ ctx s e ∧ RecordIndex.Idle ρ ctx s e ∧
        RecordTable.Idle ρ ctx s e) ∧
    (∀ (ρ : Type) (s : Session Relational.System), s.refusal? ctx = some e →
      Relational.System.Idle ρ ctx s e) ∧
    (∀ config, (KeyValue.Memory.provider config).ChecksFirst) ∧
    Blob.Memory.provider.ChecksFirst ∧
    (∀ settings, (Vector.Memory.provider settings).ChecksFirst) ∧
    Relational.Connection.executor.ChecksFirst :=
  ⟨fun ρ _ _ dead =>
      ⟨RecordStore.idle ρ dead, RecordBucket.idle ρ dead, RecordIndex.idle ρ dead,
        RecordTable.idle ρ dead⟩,
    fun ρ _ dead => Relational.System.idle ρ dead, KeyValue.Memory.checksFirst,
    Blob.Memory.checksFirst, Vector.Memory.checksFirst, Relational.Connection.checksFirst⟩

/-- A deadline that passed while orders were stored, and one that passed in an open transaction. -/
theorem dead_contexts_expired :
    let ctx : Context := ⟨0, some 5⟩
    let sys : Session Relational.System := Relational.after [.begin "t", .wait 5]
      { backend := { database := Orders.opened.backend.database } }
    Orders.stored.refusal? ctx = some .deadlineExceeded ∧
      Orders.store.set ctx "a" (Orders.order 1 "void") 0 Orders.stored =
        (.ok ⟨Orders.order 1 "void", .error .deadlineExceeded⟩, Orders.stored) ∧
      (RecordStore.Use.get "").run Orders.store ctx Orders.stored =
        (.error (.invalidKey "key is empty"), Orders.stored) ∧
      (sys.backend.transactions.get? "t").isSome = true ∧
      (Relational.on (some "t") (Orders.table.set ctx (Orders.order 1 "open")) sys).2 = sys := by
  intro ctx sys
  have dead : Orders.stored.refusal? ctx = some .deadlineExceeded := rfl
  obtain ⟨idle, systems, -⟩ := dead_contexts ctx .deadlineExceeded
  obtain ⟨store, -⟩ := idle (Dict Cell) KeyValue.Memory Orders.stored dead
  have system := systems (Dict Cell) sys rfl
  exact ⟨dead, store.set Orders.store "a" _ 0, store.run Orders.store (.get ""), rfl,
    (system.set (some "t") Orders.table _).1⟩

end Depot
