import Depot.Proofs.KeyValue.Ledger
import Depot.Proofs.Record.Keeping

/-!
# Keys of stores

A store of records calls its provider under keys that are not empty and under no others, in both views and
whatever the hooks do. So what such calls keep, every use of a store keeps (`RecordStore.Use.keeps_run`).
An operation that is given the empty key comes down to the checks, hooks and encodings before it, and then
refuses the key; its provider has no part in it (`RecordStore.RefusesEmpty`).
-/

namespace Depot

/-- The calls of the provider under keys that are not empty keep a property. -/
structure KeyValue.Provider.KeepsNamed {σ : Type} (p : KeyValue.Provider σ) (P : σ → Prop) : Prop where
  get : ∀ ctx key, key ≠ "" → (p.get ctx key).Keeps P
  set : ∀ ctx key bytes span, key ≠ "" → (p.set ctx key bytes span).Keeps P
  delete : ∀ ctx key, key ≠ "" → (p.delete ctx key).Keeps P
  has : ∀ ctx key, key ≠ "" → (p.has ctx key).Keeps P
  list : ∀ ctx start limit, (p.list ctx start limit).Keeps P
  getBatch : ∀ ctx keys, "" ∉ keys → (p.getBatch ctx keys).Keeps P
  setBatch : ∀ ctx items span, items.get? "" = none → (p.setBatch ctx items span).Keeps P
  deleteBatch : ∀ ctx keys, "" ∉ keys → (p.deleteBatch ctx keys).Keeps P
  scan : ∀ ctx start cursor limit, (p.scan ctx start cursor limit).Keeps P
  count : ∀ ctx start, (p.count ctx start).Keeps P

namespace RecordStore

variable {ρ σ : Type} {store : RecordStore ρ σ} {ctx : Context} {P : σ → Prop}

/-- The operations of a store, of both views, with their arguments. -/
inductive Use (ρ : Type)
  | write (w : Write ρ)
  | setAtom (key : String) (a : Atom) (span : Time)
  | setAtoms (items : List (String × Atom)) (span : Time)
  | deleteAtom (key : String)
  | deleteAtoms (keys : List String)
  | has (key : String)
  | get (key : String)
  | getAtom (key : String)
  | getBatch (keys : List String)
  | getAtoms (keys : List String)
  | count (start : String)
  | list (start : String) (limit : Nat)
  | scan (start : String) (cursor : Option String) (limit : Nat)

/-- The outcome of an operation. -/
def Use.run (store : RecordStore ρ σ) (ctx : Context) : Use ρ → Call σ Unit
  | write w => w.run store ctx
  | setAtom key a span => store.setAtom ctx key a span
  | setAtoms items span => store.setAtoms ctx items span
  | deleteAtom key => store.deleteAtom ctx key
  | deleteAtoms keys => store.deleteAtoms ctx keys
  | has key => (fun _ => ()) <$> store.has ctx key
  | get key => (fun _ => ()) <$> store.get ctx key
  | getAtom key => (fun _ => ()) <$> store.getAtom ctx key
  | getBatch keys => (fun _ => ()) <$> store.getBatch ctx keys
  | getAtoms keys => (fun _ => ()) <$> store.getAtoms ctx keys
  | count start => (fun _ => ()) <$> store.count ctx start
  | list start limit => (fun _ => ()) <$> store.list ctx start limit
  | scan start cursor limit => (fun _ => ()) <$> store.scan ctx start cursor limit

/-! ### What is prepared -/

theorem prepares_prepare (key : String) (record : ρ) :
    (store.prepare ctx key record).Prepares fun _ => True :=
  (store.model.prepares_beforeSave key record).bind fun _ _ =>
    Call.prepares_pure trivial

theorem prepares_saving (key : String) (record : ρ) :
    (store.saving ctx key record).Prepares fun _ => key ≠ "" := by
  have checks : (underKey ctx key (pure ()) : Call σ Unit).Prepares fun _ => key ≠ "" :=
    Call.prepares_checks fun named => Call.prepares_pure named
  refine checks.bind fun _ named => (prepares_prepare key record).bind fun p _ => ?_
  exact (Call.prepares_lift fun _ _ => trivial).bind fun _ _ => Call.prepares_pure named

/-- The items of a batch are encoded under keys that are not empty. -/
theorem prepares_prepareAll (items : List (String × ρ)) :
    (store.prepareAll ctx items).Prepares fun p =>
      ∀ encoded, p.2 = .ok encoded → ∀ e ∈ encoded, e.1 ≠ "" := by
  induction items with
  | nil =>
      refine Call.prepares_pure fun encoded same => ?_
      cases same
      simp
  | cons item rest ih =>
      obtain ⟨key, record⟩ := item
      rw [prepareAll]
      cases passed : checkKey key with
      | error e => exact Call.prepares_pure fun _ same => by cases same
      | ok _ =>
          refine (prepares_prepare key record).bind fun p _ => ?_
          obtain ⟨record', encoded⟩ := p
          cases encoded with
          | error e => exact Call.prepares_pure fun _ same => by cases same
          | ok bytes =>
              refine ih.bind fun others named => Call.prepares_pure fun encoded same => ?_
              cases result : others.2 with
              | error e => simp [result, Except.map] at same
              | ok entries =>
                  simp only [result, Except.map, Except.ok.injEq] at same
                  subst same
                  exact List.forall_mem_cons.2 ⟨ne_of_checkKey_eq_ok passed, named entries result⟩

theorem prepares_savingAll (items : List (String × ρ)) :
    (store.savingAll ctx items).Prepares fun p => ∀ e ∈ p.2, e.1 ≠ "" := by
  refine (Call.prepares_check ctx).bind fun _ _ => (prepares_prepareAll items).bind fun p named => ?_
  exact (Call.prepares_lift named).bind fun _ named => Call.prepares_pure named

theorem prepares_prepareDeletes (keys : List String) :
    (store.prepareDeletes ctx keys).Prepares fun _ => "" ∉ keys := by
  induction keys with
  | nil => exact Call.prepares_pure List.not_mem_nil
  | cons key rest ih =>
      refine (Call.prepares_key key).bind fun _ named => ?_
      refine (Call.prepares_of_quietly fun _ => store.model.beforeDelete_quietly key).bind fun _ _ => ?_
      refine ⟨ih.backend, fun s a passed => ?_⟩
      simp [Ne.symm named, ih.answer s a passed]

/-! ### What is kept -/

theorem keeps_loadAll (entries : List (String × List UInt8)) : (store.loadAll ctx entries).Keeps P := by
  induction entries with
  | nil => exact Call.keeps_pure []
  | cons e rest ih =>
      exact (Call.keeps_lift _).bind fun _ => (Model.keeps_afterLoad _ _ _).bind fun _ =>
        ih.bind fun _ => Call.keeps_pure _

theorem Write.keeps_run (h : store.provider.KeepsNamed P) (w : Write ρ) : (w.run store ctx).Keeps P := by
  show (w.run (store.withAfter store.model.afterHooks) ctx).Keeps P
  cases w with
  | set key record span =>
      rw [run_set]
      exact Call.keeps_stages (prepares_saving key record) (fun p named => h.set ctx key p.2 span named)
        fun _ _ => Model.afterSave_answers _ _ _
  | setBatch items span =>
      rw [run_setBatch]
      refine Call.keeps_stages (prepares_savingAll items) (fun p named => ?_)
        fun _ _ => Model.afterSaves_answers _ _
      exact h.setBatch ctx _ span (Dict.get?_ofList_of_ne named)
  | delete key =>
      rw [run_delete]
      exact Call.keeps_stages (store.model.prepares_beforeDelete ctx key)
        (fun _ named => h.delete ctx key named) fun _ _ => Model.afterDelete_answers _ _
  | deleteBatch keys =>
      rw [run_deleteBatch]
      exact Call.keeps_stages ((Call.prepares_check ctx).bind fun _ _ => prepares_prepareDeletes keys)
        (fun _ named => h.deleteBatch ctx keys named) fun _ _ => Model.afterDeletes_answers _ _

/-- An operation keeps what the provider keeps under keys that are not empty. -/
theorem Use.keeps_run (h : store.provider.KeepsNamed P) (op : Use ρ) : (op.run store ctx).Keeps P := by
  cases op with
  | write w => exact w.keeps_run h
  | setAtom key a span =>
      exact Call.keeps_checks fun named => (Call.keeps_lift _).bind fun bytes => h.set ctx key bytes span named
  | setAtoms items span =>
      refine (Call.keeps_check ctx).bind fun _ => Call.keeps_lift_bind fun encoded made => ?_
      refine h.setBatch ctx _ span (Dict.get?_ofList_of_ne fun e mem => ?_)
      obtain ⟨item, _, made⟩ := Fallible.exists_of_mem_of_mapM made mem
      simp only [Fallible.bind_eq_ok_iff] at made
      obtain ⟨_, passed, _, _, same⟩ := made
      cases same
      exact ne_of_checkKey_eq_ok passed
  | deleteAtom key => exact Call.keeps_checks fun named => h.delete ctx key named
  | deleteAtoms keys =>
      exact (Call.prepares_keys keys).keeps_bind fun _ named =>
        (Call.keeps_check ctx).bind fun _ => h.deleteBatch ctx keys named
  | has key => exact (Call.keeps_checks fun named => h.has ctx key named).map _
  | get key =>
      exact (Call.keeps_checks fun named => (h.get ctx key named).bind fun _ =>
        (Call.keeps_lift _).bind fun _ => Model.keeps_afterLoad _ _ _).map _
  | getAtom key =>
      exact (Call.keeps_checks fun named => (h.get ctx key named).bind fun _ => Call.keeps_lift _).map _
  | getBatch keys =>
      exact ((Call.prepares_keys keys).keeps_bind fun _ named => (Call.keeps_check ctx).bind fun _ =>
        (h.getBatch ctx keys named).bind fun _ => keeps_loadAll _).map _
  | getAtoms keys =>
      exact ((Call.prepares_keys keys).keeps_bind fun _ named => (Call.keeps_check ctx).bind fun _ =>
        (h.getBatch ctx keys named).bind fun _ => Call.keeps_lift _).map _
  | count start => exact ((Call.keeps_check ctx).bind fun _ => h.count ctx start).map _
  | list start limit => exact ((Call.keeps_check ctx).bind fun _ => h.list ctx start limit).map _
  | scan start cursor limit => exact ((Call.keeps_check ctx).bind fun _ => h.scan ctx start cursor limit).map _

/-- An operation of some store over the provider. -/
def IsUse (p : KeyValue.Provider σ) (f : Context → Call σ Unit) : Prop :=
  ∃ (ρ : Type) (store : RecordStore ρ σ) (op : Use ρ),
    store.provider = p ∧ f = fun ctx => op.run store ctx

theorem IsUse.keeps {p : KeyValue.Provider σ} (h : p.KeepsNamed P) {f : Context → Call σ Unit}
    (use : IsUse p f) (ctx : Context) : (f ctx).Keeps P := by
  obtain ⟨ρ, store, op, rfl, rfl⟩ := use
  exact op.keeps_run h

/-! ### What is refused -/

/-- The keys that an operation checks before anything else. -/
def Use.keys : Use ρ → List String
  | write (.set key _ _) | write (.delete key) | setAtom key _ _ | deleteAtom key | has key | get key
  | getAtom key => [key]
  | getBatch keys | getAtoms keys | deleteAtoms keys => keys
  | _ => []

/-- An item of a batch of atoms, encoded under its key. -/
def entryOfAtom (store : RecordStore ρ σ) (item : String × Atom) :
    Except Error (String × List UInt8) := do
  checkKey item.1
  return (item.1, ← store.encodeAtom item.2)

/-- The operations of a store refuse the empty key. A batch does so after what it does for the items
before the key. -/
structure RefusesEmpty (store : RecordStore ρ σ) (ctx : Context) : Prop where
  keys : ∀ op : Use ρ, "" ∈ op.keys → op.run store ctx = Call.refuseKey
  setBatch : ∀ before record rest span,
    (Use.write (.setBatch (before ++ ("", record) :: rest) span)).run store ctx = do
      Call.check ctx
      let p ← store.prepareAll ctx before
      let _ ← Call.lift p.2
      Call.refuseKey
  setAtoms : ∀ before a rest span,
    (Use.setAtoms (before ++ ("", a) :: rest) span).run store ctx = do
      Call.check ctx
      let _ ← Call.lift (before.mapM store.entryOfAtom)
      Call.refuseKey
  deleteBatch : ∀ before rest,
    (Use.write (.deleteBatch (before ++ "" :: rest))).run store ctx = do
      Call.check ctx
      store.prepareDeletes ctx before
      Call.refuseKey

/-- The items before an empty key are prepared, and the others are left as they are. -/
theorem prepareAll_refuses (before : List (String × ρ)) (record : ρ) (rest : List (String × ρ)) :
    store.prepareAll ctx (before ++ ("", record) :: rest) =
      (fun p => (p.1 ++ ("", record) :: rest, p.2.bind fun _ => .error (.invalidKey "key is empty"))) <$>
        store.prepareAll ctx before := by
  induction before with
  | nil => rfl
  | cons item before ih =>
      obtain ⟨key, first⟩ := item
      rw [List.cons_append, prepareAll, prepareAll]
      cases checkKey key with
      | error e => rfl
      | ok _ =>
          dsimp only
          rw [map_bind]
          refine congrArg _ (funext fun p => ?_)
          obtain ⟨first', encoded⟩ := p
          cases encoded with
          | error e => rfl
          | ok bytes =>
              dsimp only
              rw [ih, bind_map_left, map_bind]
              refine congrArg _ (funext fun others => ?_)
              cases others.2 <;> rfl

theorem prepareDeletes_refuses (before rest : List String) :
    store.prepareDeletes ctx (before ++ "" :: rest) = (do
      store.prepareDeletes ctx before
      Call.refuseKey) := by
  induction before with
  | nil => rfl
  | cons key before ih => simp only [List.cons_append, prepareDeletes, ih, bind_assoc]

theorem refusesEmpty (store : RecordStore ρ σ) (ctx : Context) : store.RefusesEmpty ctx where
  keys op given := by
    cases op with
    | write w =>
        show w.run (store.withAfter store.model.afterHooks) ctx = _
        cases w with
        | set key record span =>
            obtain rfl := List.mem_singleton.1 given
            rw [run_set]
            rfl
        | delete key =>
            obtain rfl := List.mem_singleton.1 given
            rw [run_delete]
            rfl
        | setBatch | deleteBatch => cases given
    | setAtom key | deleteAtom key | has key | get key | getAtom key =>
        obtain rfl := List.mem_singleton.1 given
        rfl
    | getBatch keys | getAtoms keys | deleteAtoms keys =>
        have given : "" ∈ keys := given
        have refused : checkKeys keys = .error (.invalidKey "key is empty") := by
          rw [checkKeys_eq, if_pos given]
        simp only [Use.run, getBatch, getAtoms, deleteAtoms, refused]
        rfl
    | setAtoms | count | list | scan => cases given
  setBatch before record rest span := by
    show (Write.setBatch _ span).run (store.withAfter store.model.afterHooks) ctx = _
    rw [run_setBatch, stages, savingAll, prepareAll_refuses]
    simp only [bind_map_left, bind_assoc]
    refine congrArg _ (funext fun _ => congrArg _ (funext fun p => ?_))
    cases p.2 <;> rfl
  setAtoms before a rest span := by
    show store.setAtoms ctx _ span = _
    have whole : (before ++ ("", a) :: rest).mapM store.entryOfAtom = (do
        let _ ← before.mapM store.entryOfAtom
        .error (.invalidKey "key is empty")) := by
      rw [List.mapM_append, List.mapM_cons]
      rfl
    show (do
      Call.check ctx
      let encoded ← Call.lift ((before ++ ("", a) :: rest).mapM store.entryOfAtom)
      store.provider.setBatch ctx (.ofList encoded) span) = _
    rw [whole]
    cases before.mapM store.entryOfAtom <;> rfl
  deleteBatch before rest := by
    show (Write.deleteBatch _).run (store.withAfter store.model.afterHooks) ctx = _
    rw [run_deleteBatch, stages, prepareDeletes_refuses]
    simp only [bind_assoc]
    rfl

end RecordStore

/-! ### In memory -/

namespace KeyValue.Memory

variable {config : KeyValueConfig}

theorem get?_purge_of_absent {m : Memory} {key : String} (absent : m.entries.get? key = none) (now : Time) :
    (m.purge now).entries.get? key = none := by
  rw [purge, Dict.get?_filter, absent]
  rfl

/-- A store in memory holds nothing under the empty key unless it is called under it. -/
theorem keepsNamed (config : KeyValueConfig) :
    (provider config).KeepsNamed fun m => m.entries.get? "" = none where
  get ctx key _ := by
    refine (Call.keeps_check ctx).bind fun _ => Call.keeps_session.bind fun s => ?_
    cases s.backend.find? s.now key with
    | none => exact Call.keeps_fail _
    | some e => exact Call.keeps_pure _
  set ctx key bytes span named := by
    show Call.Keeps _ (set config ctx key bytes span)
    rw [set_eq]
    refine Call.keeps_changeIf fun now m expiresAt absent => ?_
    rw [insert, Dict.get?_insert_of_ne _ (Ne.symm named)]
    exact get?_purge_of_absent absent now
  delete ctx key _ := by
    show Call.Keeps _ (delete ctx key)
    rw [delete_eq]
    exact Call.keeps_under fun now m absent =>
      Dict.get?_erase_eq_none (get?_purge_of_absent absent now) key
  has ctx key _ := (Call.keeps_check ctx).bind fun _ => Call.keeps_session.bind fun _ => Call.keeps_pure _
  list ctx start limit :=
    (Call.keeps_check ctx).bind fun _ => Call.keeps_session.bind fun _ => Call.keeps_pure _
  getBatch ctx keys _ :=
    (Call.keeps_check ctx).bind fun _ => Call.keeps_session.bind fun _ => Call.keeps_pure _
  setBatch ctx items span named := by
    show Call.Keeps _ (setBatch config ctx items span)
    rw [setBatch_eq]
    refine Call.keeps_changeIf fun now m expiresAt absent => ?_
    rw [entries_foldl_insert,
      Dict.get?_foldl_insert (fun _ bytes => (⟨bytes, expiresAt⟩ : Entry)) items.ordered.nodup,
      show items.entries.lookup "" = none from named]
    exact get?_purge_of_absent absent now
  deleteBatch ctx keys _ := by
    show Call.Keeps _ (deleteBatch ctx keys)
    rw [deleteBatch_eq]
    refine Call.keeps_under fun now m absent => get?_purge_of_absent ?_ now
    have folded (keys : List String) (m : Memory) (absent : m.entries.get? "" = none) :
        (keys.foldl erase m).entries.get? "" = none := by
      induction keys generalizing m with
      | nil => exact absent
      | cons key rest ih => exact ih (m.erase key) (Dict.get?_erase_eq_none absent key)
    exact folded keys m absent
  scan ctx start cursor limit :=
    (Call.keeps_check ctx).bind fun _ => Call.keeps_session.bind fun _ => Call.keeps_pure _
  count ctx start :=
    (Call.keeps_check ctx).bind fun _ => Call.keeps_session.bind fun _ => Call.keeps_pure _

end KeyValue.Memory

end Depot
