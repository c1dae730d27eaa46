import Depot.Proofs.Record.Keeping
import Depot.Proofs.Vector.Hookless
import Depot.Proofs.Vector.Shelf

/-!
# Ids of indexes

An index of records calls its provider under ids that are not empty and under no others, so it keeps
what such calls keep (`RecordIndex.IsUse.keeps`). An operation that is given the empty id comes down to
the checks, hooks and encodings before it, and then refuses the id (`RecordIndex.RefusesEmpty`).
-/

namespace Depot

/-- The calls of the provider under ids that are not empty keep a property. -/
structure Vector.Provider.KeepsNamed {σ : Type} (p : Vector.Provider σ) (P : σ → Prop) : Prop where
  upsert : ∀ ctx entry, entry.id ≠ "" → (p.upsert ctx entry).Keeps P
  upsertBatch : ∀ ctx entries, (∀ entry ∈ entries, entry.id ≠ "") → (p.upsertBatch ctx entries).Keeps P
  get : ∀ ctx id, id ≠ "" → (p.get ctx id).Keeps P
  delete : ∀ ctx id, id ≠ "" → (p.delete ctx id).Keeps P
  deleteBatch : ∀ ctx ids, "" ∉ ids → (p.deleteBatch ctx ids).Keeps P
  search : ∀ ctx vector k filter, (p.search ctx vector k filter).Keeps P
  query : ∀ ctx vector k filter, (p.query ctx vector k filter).Keeps P
  filter : ∀ ctx filter limit, (p.filter ctx filter limit).Keeps P
  list : ∀ ctx limit, (p.list ctx limit).Keeps P
  has : ∀ ctx id, id ≠ "" → (p.has ctx id).Keeps P

namespace RecordIndex

variable {ρ σ : Type} {index : RecordIndex ρ σ} {ctx : Context} {P : σ → Prop}

/-- The operations of an index, of both views, with their arguments. -/
inductive Use (ρ : Type)
  | write (w : Write ρ)
  | upsertAtom (v : VectorOf Atom)
  | upsertAtoms (vectors : List (VectorOf Atom))
  | deleteAtom (id : String)
  | deleteAtoms (ids : List String)
  | has (id : String)
  | get (id : String)
  | getAtom (id : String)
  | list (limit : Nat)
  | search (vector : Components) (k : Nat) (filter : Option Filter)
  | searchAtoms (vector : Components) (k : Nat) (filter : Option Filter)
  | query (vector : Components) (k : Nat) (filter : Filter)
  | queryAtoms (vector : Components) (k : Nat) (filter : Filter)
  | filter (filter : Filter) (limit : Nat)
  | filterAtoms (filter : Filter) (limit : Nat)

/-- The outcome of an operation. -/
def Use.run (index : RecordIndex ρ σ) (ctx : Context) : Use ρ → Call σ Unit
  | write w => w.run index ctx
  | upsertAtom v => index.upsertAtom ctx v
  | upsertAtoms vectors => index.upsertAtoms ctx vectors
  | deleteAtom id => index.deleteAtom ctx id
  | deleteAtoms ids => index.deleteAtoms ctx ids
  | has id => (fun _ => ()) <$> index.has ctx id
  | get id => (fun _ => ()) <$> index.get ctx id
  | getAtom id => (fun _ => ()) <$> index.getAtom ctx id
  | list limit => (fun _ => ()) <$> index.list ctx limit
  | search vector k f => (fun _ => ()) <$> index.search ctx vector k f
  | searchAtoms vector k f => (fun _ => ()) <$> index.searchAtoms ctx vector k f
  | query vector k f => (fun _ => ()) <$> index.query ctx vector k f
  | queryAtoms vector k f => (fun _ => ()) <$> index.queryAtoms ctx vector k f
  | filter f limit => (fun _ => ()) <$> index.filter ctx f limit
  | filterAtoms f limit => (fun _ => ()) <$> index.filterAtoms ctx f limit

/-! ### What is prepared -/

theorem ne_of_checkEntry_eq_ok {id : String} {vector : Components} (h : checkEntry id vector = .ok ()) :
    id ≠ "" := by
  obtain ⟨_, passed, _⟩ := Fallible.bind_eq_ok_iff.1 h
  exact ne_of_checkKey_eq_ok passed

/-- A vector is encoded under its id, which is not empty. -/
theorem prepares_prepare (v : VectorOf ρ) :
    (index.prepare ctx v).Prepares fun p => ∀ entry, p.2 = .ok entry → entry.id ≠ "" := by
  rw [prepare]
  cases passed : checkEntry v.id v.vector with
  | error e => exact Call.prepares_pure fun _ same => by cases same
  | ok _ =>
      refine (index.model.prepares_beforeSave v.id v.metadata).bind fun r _ =>
        Call.prepares_pure fun entry same => ?_
      cases encoded : r.2.bind fun _ => index.encode r.1 with
      | error e => simp [encoded, Except.map] at same
      | ok bytes =>
          simp only [encoded, Except.map, Except.ok.injEq] at same
          subst same
          exact ne_of_checkEntry_eq_ok passed

theorem prepares_saving (v : VectorOf ρ) :
    (index.saving ctx v).Prepares fun p => p.2.id ≠ "" :=
  (Call.prepares_check ctx).bind fun _ _ => (prepares_prepare v).bind fun _ named =>
    (Call.prepares_lift named).bind fun _ named => Call.prepares_pure named

theorem prepares_prepareAll (vectors : List (VectorOf ρ)) :
    (index.prepareAll ctx vectors).Prepares fun p =>
      ∀ entries, p.2 = .ok entries → ∀ entry ∈ entries, entry.id ≠ "" := by
  induction vectors with
  | nil =>
      refine Call.prepares_pure fun entries same => ?_
      cases same
      simp
  | cons v rest ih =>
      refine (prepares_prepare v).bind fun p named => ?_
      obtain ⟨v', prepared⟩ := p
      cases prepared with
      | error e => exact Call.prepares_pure fun _ same => by cases same
      | ok entry =>
          refine ih.bind fun others named' => Call.prepares_pure fun entries same => ?_
          cases result : others.2 with
          | error e => simp [result, Except.map] at same
          | ok rest =>
              simp only [result, Except.map, Except.ok.injEq] at same
              subst same
              exact List.forall_mem_cons.2 ⟨named entry rfl, named' rest result⟩

theorem prepares_savingAll (vectors : List (VectorOf ρ)) :
    (index.savingAll ctx vectors).Prepares fun p => ∀ entry ∈ p.2, entry.id ≠ "" :=
  (Call.prepares_check ctx).bind fun _ _ => (prepares_prepareAll vectors).bind fun _ named =>
    (Call.prepares_lift named).bind fun _ named => Call.prepares_pure named

theorem prepares_prepareDeletes (ids : List String) :
    (index.prepareDeletes ctx ids).Prepares fun _ => "" ∉ ids := by
  induction ids with
  | nil => exact Call.prepares_pure List.not_mem_nil
  | cons id rest ih =>
      refine (Call.prepares_key id).bind fun _ named => ?_
      refine (Call.prepares_of_quietly fun _ => index.model.beforeDelete_quietly id).bind fun _ _ => ?_
      refine ⟨ih.backend, fun s a passed => ?_⟩
      simp [Ne.symm named, ih.answer s a passed]

theorem id_of_prepareAtom {v : VectorOf Atom} {entry : Vector.Entry}
    (made : index.prepareAtom v = .ok entry) : entry.id ≠ "" := by
  obtain ⟨_, passed, made⟩ := Fallible.bind_eq_ok_iff.1 made
  obtain ⟨_, _, made⟩ := Fallible.bind_eq_ok_iff.1 made
  obtain ⟨_, _, made⟩ := Fallible.bind_eq_ok_iff.1 made
  cases made
  exact ne_of_checkEntry_eq_ok passed

/-! ### What is kept -/

theorem keeps_load (hit : Vector.Hit) : (index.load ctx hit).Keeps P :=
  (Call.keeps_lift _).bind fun _ => (Model.keeps_afterLoad _ _ _).bind fun _ => Call.keeps_pure _

theorem keeps_loadAll (hits : List Vector.Hit) : (index.loadAll ctx hits).Keeps P := by
  induction hits with
  | nil => exact Call.keeps_pure []
  | cons hit rest ih =>
      exact (keeps_load hit).bind fun _ => ih.bind fun _ => Call.keeps_pure _

theorem keeps_searchHits (h : index.provider.KeepsNamed P) (vector : Components) (k : Nat)
    (f : Option Filter) : (index.searchHits ctx vector k f).Keeps P := by
  refine (Call.keeps_check ctx).bind fun _ => (Call.keeps_lift _).bind fun _ => ?_
  cases f with
  | none => exact h.search ctx vector k none
  | some f => exact (Call.keeps_lift _).bind fun _ => h.search ctx vector k (some f)

theorem keeps_queryHits (h : index.provider.KeepsNamed P) (vector : Components) (k : Nat) (f : Filter) :
    (index.queryHits ctx vector k f).Keeps P :=
  (Call.keeps_check ctx).bind fun _ => (Call.keeps_lift _).bind fun _ => (Call.keeps_lift _).bind fun _ =>
    h.query ctx vector k f

theorem keeps_filterHits (h : index.provider.KeepsNamed P) (f : Filter) (limit : Nat) :
    (index.filterHits ctx f limit).Keeps P :=
  (Call.keeps_check ctx).bind fun _ => (Call.keeps_lift _).bind fun _ => h.filter ctx f limit

theorem Write.keeps_run (h : index.provider.KeepsNamed P) (w : Write ρ) : (w.run index ctx).Keeps P := by
  show (w.run (index.withAfter index.model.afterHooks) ctx).Keeps P
  cases w with
  | upsert id vector record =>
      rw [run_upsert]
      exact Call.keeps_stages (prepares_saving _) (fun p named => h.upsert ctx p.2 named)
        fun _ _ => Model.afterSave_answers _ _ _
  | upsertBatch vectors =>
      rw [run_upsertBatch]
      exact Call.keeps_stages (prepares_savingAll vectors) (fun p named => h.upsertBatch ctx p.2 named)
        fun _ _ => Model.afterSaves_answers _ _
  | delete id =>
      rw [run_delete]
      exact Call.keeps_stages (index.model.prepares_beforeDelete ctx id)
        (fun _ named => h.delete ctx id named) fun _ _ => Model.afterDelete_answers _ _
  | deleteBatch ids =>
      rw [run_deleteBatch]
      exact Call.keeps_stages ((Call.prepares_check ctx).bind fun _ _ => prepares_prepareDeletes ids)
        (fun _ named => h.deleteBatch ctx ids named) fun _ _ => Model.afterDeletes_answers _ _

/-- An operation keeps what the provider keeps under ids that are not empty. -/
theorem Use.keeps_run (h : index.provider.KeepsNamed P) (op : Use ρ) : (op.run index ctx).Keeps P := by
  cases op with
  | write w => exact w.keeps_run h
  | upsertAtom v =>
      exact (Call.keeps_check ctx).bind fun _ => Call.keeps_lift_bind fun entry made =>
        h.upsert ctx entry (id_of_prepareAtom made)
  | upsertAtoms vectors =>
      refine (Call.keeps_check ctx).bind fun _ => Call.keeps_lift_bind fun entries made => ?_
      refine h.upsertBatch ctx entries fun entry mem => ?_
      obtain ⟨v, _, made⟩ := Fallible.exists_of_mem_of_mapM made mem
      exact id_of_prepareAtom made
  | deleteAtom id => exact Call.keeps_checks fun named => h.delete ctx id named
  | deleteAtoms ids =>
      exact (Call.prepares_keys ids).keeps_bind fun _ named =>
        (Call.keeps_check ctx).bind fun _ => h.deleteBatch ctx ids named
  | has id => exact (Call.keeps_checks fun named => h.has ctx id named).map _
  | get id =>
      exact (Call.keeps_checks fun named => (h.get ctx id named).bind fun hit => keeps_load hit).map _
  | getAtom id =>
      exact (Call.keeps_checks fun named => (h.get ctx id named).bind fun _ => Call.keeps_lift _).map _
  | list limit => exact ((Call.keeps_check ctx).bind fun _ => h.list ctx limit).map _
  | search vector k f => exact ((keeps_searchHits h vector k f).bind fun hits => keeps_loadAll hits).map _
  | searchAtoms vector k f =>
      exact ((keeps_searchHits h vector k f).bind fun _ => Call.keeps_lift _).map _
  | query vector k f => exact ((keeps_queryHits h vector k f).bind fun hits => keeps_loadAll hits).map _
  | queryAtoms vector k f =>
      exact ((keeps_queryHits h vector k f).bind fun _ => Call.keeps_lift _).map _
  | filter f limit => exact ((keeps_filterHits h f limit).bind fun hits => keeps_loadAll hits).map _
  | filterAtoms f limit => exact ((keeps_filterHits h f limit).bind fun _ => Call.keeps_lift _).map _

/-- An operation of some index over the provider. -/
def IsUse (p : Vector.Provider σ) (f : Context → Call σ Unit) : Prop :=
  ∃ (ρ : Type) (index : RecordIndex ρ σ) (op : Use ρ),
    index.provider = p ∧ f = fun ctx => op.run index ctx

theorem IsUse.keeps {p : Vector.Provider σ} (h : p.KeepsNamed P) {f : Context → Call σ Unit}
    (use : IsUse p f) (ctx : Context) : (f ctx).Keeps P := by
  obtain ⟨ρ, index, op, rfl, rfl⟩ := use
  exact op.keeps_run h

/-! ### What is refused -/

/-- The ids that an operation checks before anything else. -/
def Use.ids : Use ρ → List String
  | write (.delete id) | deleteAtom id | has id | get id | getAtom id => [id]
  | deleteAtoms ids => ids
  | _ => []

/-- The operations of an index refuse the empty id. An upsert does so once its context is checked, a
batch after what it does for the vectors before the id. -/
structure RefusesEmpty (index : RecordIndex ρ σ) (ctx : Context) : Prop where
  ids : ∀ op : Use ρ, "" ∈ op.ids → op.run index ctx = Call.refuseKey
  upsert : ∀ vector record, (Use.write (.upsert "" vector record)).run index ctx = do
    Call.check ctx
    Call.refuseKey
  upsertBatch : ∀ before v rest, v.id = "" →
    (Use.write (.upsertBatch (before ++ v :: rest))).run index ctx = do
      Call.check ctx
      let p ← index.prepareAll ctx before
      let _ ← Call.lift p.2
      Call.refuseKey
  upsertAtom : ∀ v, v.id = "" → (Use.upsertAtom v : Use ρ).run index ctx = do
    Call.check ctx
    Call.refuseKey
  upsertAtoms : ∀ before v rest, v.id = "" →
    (Use.upsertAtoms (before ++ v :: rest) : Use ρ).run index ctx = do
      Call.check ctx
      let _ ← Call.lift (before.mapM index.prepareAtom)
      Call.refuseKey
  deleteBatch : ∀ before rest,
    (Use.write (.deleteBatch (before ++ "" :: rest))).run index ctx = do
      Call.check ctx
      index.prepareDeletes ctx before
      Call.refuseKey

theorem checkEntry_empty (vector : Components) :
    checkEntry "" vector = .error (.invalidKey "key is empty") := rfl

theorem prepare_refuses {v : VectorOf ρ} (empty : v.id = "") :
    index.prepare ctx v = pure (v, .error (.invalidKey "key is empty")) := by
  rw [prepare, empty, checkEntry_empty]

/-- The vectors before an empty id are prepared, and the others are left as they are. -/
theorem prepareAll_refuses (before : List (VectorOf ρ)) {v : VectorOf ρ} (empty : v.id = "")
    (rest : List (VectorOf ρ)) :
    index.prepareAll ctx (before ++ v :: rest) =
      (fun p => (p.1 ++ v :: rest, p.2.bind fun _ => .error (.invalidKey "key is empty"))) <$>
        index.prepareAll ctx before := by
  induction before with
  | nil =>
      simp only [List.nil_append, prepareAll, prepare_refuses empty]
      rfl
  | cons first before ih =>
      rw [List.cons_append, prepareAll, prepareAll, map_bind]
      refine congrArg _ (funext fun p => ?_)
      obtain ⟨first', prepared⟩ := p
      cases prepared with
      | error e => rfl
      | ok entry =>
          dsimp only
          rw [ih, bind_map_left, map_bind]
          refine congrArg _ (funext fun others => ?_)
          cases others.2 <;> rfl

theorem prepareDeletes_refuses (before rest : List String) :
    index.prepareDeletes ctx (before ++ "" :: rest) = (do
      index.prepareDeletes ctx before
      Call.refuseKey) := by
  induction before with
  | nil => rfl
  | cons id before ih => simp only [List.cons_append, prepareDeletes, ih, bind_assoc]

theorem refusesEmpty (index : RecordIndex ρ σ) (ctx : Context) : index.RefusesEmpty ctx where
  ids op given := by
    cases op with
    | write w =>
        show w.run (index.withAfter index.model.afterHooks) ctx = _
        cases w with
        | delete id =>
            obtain rfl := List.mem_singleton.1 given
            rw [run_delete]
            rfl
        | upsert | upsertBatch | deleteBatch => cases given
    | deleteAtom id | has id | get id | getAtom id =>
        obtain rfl := List.mem_singleton.1 given
        rfl
    | deleteAtoms ids =>
        have given : "" ∈ ids := given
        have refused : checkKeys ids = .error (.invalidKey "key is empty") := by
          rw [checkKeys_eq, if_pos given]
        simp only [Use.run, deleteAtoms, refused]
        rfl
    | _ => cases given
  upsert vector record := by
    show (Write.upsert "" vector record).run (index.withAfter index.model.afterHooks) ctx = _
    rw [run_upsert, stages, saving, prepare_refuses rfl]
    simp only [bind_assoc]
    rfl
  upsertBatch before v rest empty := by
    show (Write.upsertBatch _).run (index.withAfter index.model.afterHooks) ctx = _
    rw [run_upsertBatch, stages, savingAll, prepareAll_refuses before empty]
    simp only [bind_map_left, bind_assoc]
    refine congrArg _ (funext fun _ => congrArg _ (funext fun p => ?_))
    cases p.2 <;> rfl
  upsertAtom v empty := by
    have refused : index.prepareAtom v = .error (.invalidKey "key is empty") := by
      rw [prepareAtom, empty, checkEntry_empty]
      rfl
    show index.upsertAtom ctx v = _
    rw [upsertAtom, refused]
    rfl
  upsertAtoms before v rest empty := by
    have refused : index.prepareAtom v = .error (.invalidKey "key is empty") := by
      rw [prepareAtom, empty, checkEntry_empty]
      rfl
    show index.upsertAtoms ctx _ = _
    rw [upsertAtoms, List.mapM_append, List.mapM_cons, refused]
    cases before.mapM index.prepareAtom <;> rfl
  deleteBatch before rest := by
    show (Write.deleteBatch _).run (index.withAfter index.model.afterHooks) ctx = _
    rw [run_deleteBatch, stages, prepareDeletes_refuses]
    simp only [bind_assoc]
    rfl

end RecordIndex

/-! ### In memory -/

namespace Vector.Memory

theorem get?_insert_of_ne {m : Memory} {entry : Entry} {id : String} (ne : id ≠ entry.id) :
    (m.insert entry).vectors.get? id = m.vectors.get? id := by
  rw [insert]
  split <;> exact Dict.get?_insert_of_ne _ ne _

/-- An index in memory holds nothing under the empty id unless it is called under it. -/
theorem keepsNamed (settings : Settings) :
    (provider settings).KeepsNamed fun m => m.vectors.get? "" = none where
  upsert ctx entry named := by
    show Call.Keeps _ (upsert ctx entry)
    rw [upsert_eq]
    refine Call.keeps_changeIf fun _ m _ absent => ?_
    rw [get?_insert_of_ne (Ne.symm named), absent]
  upsertBatch ctx entries named := by
    show Call.Keeps _ (upsertBatch ctx entries)
    rw [upsertBatch_eq]
    refine Call.keeps_changeIf fun _ m _ absent => ?_
    have folded (entries : List Entry) (named : ∀ entry ∈ entries, entry.id ≠ "") (m : Memory)
        (absent : m.vectors.get? "" = none) : (entries.foldl insert m).vectors.get? "" = none := by
      induction entries generalizing m with
      | nil => exact absent
      | cons entry rest ih =>
          rw [List.forall_mem_cons] at named
          refine ih named.2 (m.insert entry) ?_
          rw [get?_insert_of_ne (Ne.symm named.1), absent]
    exact folded entries named m absent
  get ctx id _ := keeps_get id
  delete ctx id _ := by
    show Call.Keeps _ (delete ctx id)
    rw [delete_eq]
    exact Call.keeps_changeIf fun _ m _ absent => Dict.get?_erase_eq_none absent id
  deleteBatch ctx ids _ := by
    show Call.Keeps _ (deleteBatch ctx ids)
    rw [deleteBatch_eq]
    refine Call.keeps_under fun _ m absent => ?_
    have folded (ids : List String) (m : Memory) (absent : m.vectors.get? "" = none) :
        (ids.foldl erase m).vectors.get? "" = none := by
      induction ids generalizing m with
      | nil => exact absent
      | cons id rest ih => exact ih (m.erase id) (Dict.get?_erase_eq_none absent id)
    exact folded ids m absent
  search ctx vector k f := keeps_search vector k f
  query ctx vector k f := keeps_query vector k f
  filter ctx f limit := keeps_filter f limit
  list ctx limit := keeps_list limit
  has ctx id _ := keeps_has id

end Vector.Memory

end Depot
