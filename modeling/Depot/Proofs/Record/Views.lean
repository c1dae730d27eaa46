import Depot.Proofs.Blob.Hookless
import Depot.Proofs.KeyValue.Hookless
import Depot.Proofs.Record.Atoms
import Depot.Proofs.Record.ReadBack
import Depot.Proofs.Relational.Hookless
import Depot.Proofs.Session.Mirror
import Depot.Proofs.Vector.Hookless

/-!
# Two views of the same data

Each store has a typed view and an atom view on one backend. For records without hooks that are as well
atoms (`Model.AtomicUnder`), writing an atom is the same call as writing its record, and a read through
the atom view mirrors the typed one: it answers with the atoms of what the other answers with.
-/

namespace Depot

variable {ρ σ : Type} {Legal : ρ → Prop} {ctx : Context}

/-- The atom is that of the record. -/
def Model.AtomOf (m : Model ρ) (spec : Spec) (record : ρ) (a : Atom) : Prop :=
  m.atomize spec record = .ok a

namespace Model.AtomicUnder

variable {m : Model ρ} {spec : Spec}

/-- What is read has an atom. -/
theorem agree_atomize (h : m.AtomicUnder spec Legal) (decoded : Except Error Value) :
    Agree (m.AtomOf spec) (decoded >>= m.ofValue) ((decoded >>= m.ofValue) >>= m.atomize spec) := by
  cases read : decoded >>= m.ofValue with
  | error e => exact .error e
  | ok record =>
      obtain ⟨v, _, read⟩ := Fallible.bind_eq_ok_iff.1 read
      obtain ⟨a, made, _⟩ := h.exists_atom (h.legal v record read)
      show Agree _ _ (m.atomize spec record)
      rw [made]
      exact .ok made

end Model.AtomicUnder

/-! ### Stores -/

namespace RecordStore

variable {store : RecordStore ρ σ}

/-- The key stays, and the atom is that of the record. -/
def SameItem (m : Model ρ) (spec : Spec) (item : String × ρ) (other : String × Atom) : Prop :=
  other.1 = item.1 ∧ m.AtomOf spec item.2 other.2

/-- The atom view of a store shows and changes the same as its typed view. -/
structure TwoViews (store : RecordStore ρ σ) (Legal : ρ → Prop) : Prop where
  set : ∀ ctx key record a span, Legal record → store.model.AtomOf store.spec record a →
    store.setAtom ctx key a span = (Write.set key record span).run store ctx
  setBatch : ∀ ctx items atoms span, (∀ item ∈ items, Legal item.2) →
    List.Forall₂ (SameItem store.model store.spec) items atoms →
      store.setAtoms ctx atoms span = (Write.setBatch items span).run store ctx
  get : ∀ ctx key,
    Call.Mirrors (store.model.AtomOf store.spec) (store.get ctx key) (store.getAtom ctx key)
  getBatch : ∀ ctx keys, Call.Mirrors (List.Forall₂ (SameItem store.model store.spec))
    (store.getBatch ctx keys) (store.getAtoms ctx keys)

theorem encodeAtom_eq (h : store.model.AtomicUnder store.spec Legal) {record : ρ} {a : Atom}
    (legal : Legal record) (made : store.model.AtomOf store.spec record a) :
    store.encodeAtom a = store.encode record := by
  rw [encodeAtom, h.deatomize_of_atomize legal made]
  rfl

theorem encodeAtoms_eq (h : store.model.AtomicUnder store.spec Legal) {items : List (String × ρ)}
    {atoms : List (String × Atom)} (legal : ∀ item ∈ items, Legal item.2)
    (same : List.Forall₂ (SameItem store.model store.spec) items atoms) :
    (atoms.mapM fun item => do
      checkKey item.1
      return (item.1, ← store.encodeAtom item.2)) = items.mapM store.encodeItem := by
  induction same with
  | nil => rfl
  | cons first _ ih =>
      rw [List.forall_mem_cons] at legal
      rw [List.mapM_cons, List.mapM_cons, ih legal.2, encodeItem, first.1,
        encodeAtom_eq h legal.1 first.2]

theorem twoViews (idle : store.model.Hookless) (h : store.model.AtomicUnder store.spec Legal) :
    store.TwoViews Legal where
  set ctx key record a span legal made := by
    rw [run_set_of_hookless idle, setAtom, encodeAtom_eq h legal made]
  setBatch ctx items atoms span legal same := by
    rw [run_setBatch_of_hookless idle, setAtoms, encodeAtoms_eq h legal same]
  get ctx key := by
    rw [get_of_hookless idle, getAtom, underKey, underKey]
    refine Call.mirrors_bind fun _ => Call.mirrors_bind fun _ => Call.mirrors_bind fun bytes => ?_
    exact Call.mirrors_lift (h.agree_atomize _)
  getBatch ctx keys := by
    rw [getBatch_of_hookless idle, getAtoms]
    refine Call.mirrors_bind fun _ => Call.mirrors_bind fun _ => Call.mirrors_bind fun found => ?_
    refine Call.mirrors_lift (Agree.mapM (fun e => ?_) _)
    exact (h.agree_atomize _).bind fun record a made => .ok ⟨rfl, made⟩

end RecordStore

/-! ### Buckets -/

namespace RecordBucket

variable {bucket : RecordBucket ρ σ}

/-- What is known about the object stays, and the atom is that of the record. -/
def SameObject (m : Model ρ) (spec : Spec) (object : ObjectOf ρ) (other : ObjectOf Atom) : Prop :=
  other.info = object.info ∧ m.AtomOf spec object.data other.data

/-- The atom view of a bucket shows and changes the same as its typed view. -/
structure TwoViews (bucket : RecordBucket ρ σ) (Legal : ρ → Prop) : Prop where
  put : ∀ ctx object atom, Legal object.data → SameObject bucket.model bucket.spec object atom →
    Call.Mirrors (fun result other => other.outcome = result.outcome ∧
        SameObject bucket.model bucket.spec result.object other.object)
      (bucket.put ctx object) (bucket.putAtom ctx atom)
  get : ∀ ctx key, Call.Mirrors (SameObject bucket.model bucket.spec) (bucket.get ctx key)
    (bucket.getAtom ctx key)

/-- What is put depends on the data only through how it is encoded. -/
theorem mirrors_putEncoded {object : ObjectOf ρ} {atom : ObjectOf Atom} (bucket : RecordBucket ρ σ)
    (ctx : Context) (same : SameObject bucket.model bucket.spec object atom)
    (encoded : Except Error (List UInt8)) :
    Call.Mirrors (fun result other => other.outcome = result.outcome ∧
        SameObject bucket.model bucket.spec result.object other.object)
      (bucket.putEncoded ctx object encoded) (bucket.putEncoded ctx atom encoded) := by
  obtain ⟨info, data⟩ := atom
  obtain ⟨rfl, made⟩ := same
  refine Call.mirrors_bind fun checked => ?_
  cases checked with
  | error e => exact Call.mirrors_pure ⟨rfl, rfl, made⟩
  | ok _ =>
      cases encoded with
      | error e => exact Call.mirrors_pure ⟨rfl, rfl, made⟩
      | ok bytes => exact Call.mirrors_bind fun stored => Call.mirrors_pure ⟨rfl, rfl, made⟩

theorem putAtom_eq (atom : ObjectOf Atom) :
    bucket.putAtom ctx atom = bucket.putEncoded ctx atom (do
      bucket.encode (← bucket.model.deatomize bucket.spec atom.data)) := rfl

theorem twoViews (idle : bucket.model.Hookless) (h : bucket.model.AtomicUnder bucket.spec Legal) :
    bucket.TwoViews Legal where
  put ctx object atom legal same := by
    rw [put_of_hookless idle, putAtom_eq, h.deatomize_of_atomize legal same.2]
    exact bucket.mirrors_putEncoded ctx same _
  get ctx key := by
    rw [get_of_hookless idle, getAtom, underKey, underKey]
    refine Call.mirrors_bind fun _ => Call.mirrors_bind fun _ => Call.mirrors_bind fun found => ?_
    have agree := h.agree_atomize (bucket.codec.decode found.1)
    rw [bind_assoc] at agree
    exact Call.mirrors_lift_bind agree fun record a made => Call.mirrors_pure ⟨rfl, made⟩

end RecordBucket

/-! ### Indexes -/

namespace RecordIndex

variable {index : RecordIndex ρ σ}

/-- Id, vector and score stay, and the atom is that of the record. -/
def SameVector (m : Model ρ) (spec : Spec) (v : VectorOf ρ) (other : VectorOf Atom) : Prop :=
  other.id = v.id ∧ other.vector = v.vector ∧ other.score = v.score ∧
    m.AtomOf spec v.metadata other.metadata

/-- The atom view of an index shows and changes the same as its typed view. -/
structure TwoViews (index : RecordIndex ρ σ) (Legal : ρ → Prop) : Prop where
  upsert : ∀ ctx v atom, Legal v.metadata → SameVector index.model index.spec v atom →
    index.upsertAtom ctx atom = (Write.upsert v.id v.vector v.metadata).run index ctx
  upsertBatch : ∀ ctx vectors atoms, (∀ v ∈ vectors, Legal v.metadata) →
    List.Forall₂ (SameVector index.model index.spec) vectors atoms →
      index.upsertAtoms ctx atoms = (Write.upsertBatch vectors).run index ctx
  get : ∀ ctx id, Call.Mirrors (SameVector index.model index.spec) (index.get ctx id)
    (index.getAtom ctx id)
  search : ∀ ctx vector k filter, Call.Mirrors (List.Forall₂ (SameVector index.model index.spec))
    (index.search ctx vector k filter) (index.searchAtoms ctx vector k filter)
  query : ∀ ctx vector k filter, Call.Mirrors (List.Forall₂ (SameVector index.model index.spec))
    (index.query ctx vector k filter) (index.queryAtoms ctx vector k filter)
  filter : ∀ ctx filter limit, Call.Mirrors (List.Forall₂ (SameVector index.model index.spec))
    (index.filter ctx filter limit) (index.filterAtoms ctx filter limit)

theorem prepareAtom_eq (h : index.model.AtomicUnder index.spec Legal) {v : VectorOf ρ}
    {atom : VectorOf Atom} (legal : Legal v.metadata)
    (same : SameVector index.model index.spec v atom) : index.prepareAtom atom = index.entryFor v := by
  obtain ⟨id, vector, score, a⟩ := atom
  obtain ⟨rfl, rfl, rfl, made⟩ := same
  rw [prepareAtom, entryFor, h.deatomize_of_atomize legal made]
  rfl

theorem prepareAtoms_eq (h : index.model.AtomicUnder index.spec Legal) {vectors : List (VectorOf ρ)}
    {atoms : List (VectorOf Atom)} (legal : ∀ v ∈ vectors, Legal v.metadata)
    (same : List.Forall₂ (SameVector index.model index.spec) vectors atoms) :
    atoms.mapM index.prepareAtom = vectors.mapM index.entryFor := by
  induction same with
  | nil => rfl
  | cons first _ ih =>
      rw [List.forall_mem_cons] at legal
      rw [List.mapM_cons, List.mapM_cons, ih legal.2, prepareAtom_eq h legal.1 first]

theorem agree_loadAtom (h : index.model.AtomicUnder index.spec Legal) (hit : Vector.Hit) :
    Agree (SameVector index.model index.spec) (index.loaded hit) (index.loadAtom hit) := by
  have whole : index.loadAtom hit =
      ((index.decode hit.metadata >>= index.model.atomize index.spec) >>= fun a =>
        return ⟨hit.id, hit.vector, hit.score, a⟩) := (bind_assoc _ _ _).symm
  rw [whole]
  exact (h.agree_atomize _).bind fun record a made => .ok ⟨rfl, rfl, rfl, made⟩

/-- The hits of a search are loaded alike in both views. -/
theorem mirrors_hits (idle : index.model.Hookless) (h : index.model.AtomicUnder index.spec Legal)
    (hits : Call σ (List Vector.Hit)) :
    Call.Mirrors (List.Forall₂ (SameVector index.model index.spec))
      (hits >>= index.loadAll ctx) (hits >>= fun found => Call.lift (found.mapM index.loadAtom)) := by
  refine Call.mirrors_bind fun found => ?_
  rw [loadAll_of_hookless idle]
  exact Call.mirrors_lift (Agree.mapM (agree_loadAtom h) found)

theorem twoViews (idle : index.model.Hookless) (h : index.model.AtomicUnder index.spec Legal) :
    index.TwoViews Legal where
  upsert ctx v atom legal same := by
    rw [run_upsert_of_hookless idle, upsertAtom, prepareAtom_eq h legal same]
    rfl
  upsertBatch ctx vectors atoms legal same := by
    rw [run_upsertBatch_of_hookless idle, upsertAtoms, prepareAtoms_eq h legal same]
  get ctx id := by
    rw [get, getAtom, underId, underId]
    refine Call.mirrors_bind fun _ => Call.mirrors_bind fun _ => Call.mirrors_bind fun hit => ?_
    rw [load_of_hookless idle]
    exact Call.mirrors_lift (agree_loadAtom h hit)
  search _ _ _ _ := mirrors_hits idle h _
  query _ _ _ _ := mirrors_hits idle h _
  filter _ _ _ := mirrors_hits idle h _

end RecordIndex

/-! ### Tables -/

namespace RecordTable

variable {t : RecordTable ρ σ}

/-- The atom view of a table shows and changes the same as its typed view. -/
structure TwoViews (t : RecordTable ρ σ) (Legal : ρ → Prop) : Prop where
  set : ∀ ctx record a, Legal record → t.model.AtomOf t.spec record a →
    t.setAtom ctx a = (Write.set record).run t ctx
  get : ∀ ctx key, Call.Mirrors (t.model.AtomOf t.spec) (t.get ctx key) (t.getAtom ctx key)
  query : ∀ ctx q params, Call.Mirrors (List.Forall₂ (t.model.AtomOf t.spec)) (t.query ctx q params)
    (t.queryAtoms ctx q params)
  select : ∀ ctx q params, Call.Mirrors (t.model.AtomOf t.spec) (t.select ctx q params)
    (t.selectAtom ctx q params)

theorem agree_atomOfRow (h : t.model.AtomicUnder t.spec Legal) (row : Row) :
    Agree (t.model.AtomOf t.spec) (t.ofRow row) (t.atomOfRow row) :=
  h.agree_atomize (.ok (.ofDict (.ofList (t.spec.fields.map fun f : FieldSpec =>
    (f.name, Row.cell row f.column)))))

theorem twoViews (idle : t.model.Hookless) (h : t.model.AtomicUnder t.spec Legal) :
    t.TwoViews Legal where
  set ctx record a legal made := by
    rw [run_set_of_hookless idle, setAtom, rowOfAtom, h.deatomize_of_atomize legal made]
    rfl
  get ctx key := by
    refine Call.mirrors_bind fun key => Call.mirrors_bind fun _ => Call.mirrors_bind fun row => ?_
    rw [load_of_hookless idle]
    exact Call.mirrors_lift (agree_atomOfRow h row)
  query ctx q params := by
    refine Call.mirrors_bind fun bound => Call.mirrors_bind fun _ => Call.mirrors_bind fun rows => ?_
    rw [loadAll_of_hookless idle]
    exact Call.mirrors_lift (Agree.mapM (agree_atomOfRow h) rows)
  select ctx q params := by
    refine Call.mirrors_bind fun bound => Call.mirrors_bind fun _ => Call.mirrors_bind fun row => ?_
    rw [load_of_hookless idle]
    exact Call.mirrors_lift (agree_atomOfRow h row)

end RecordTable

/-! ### All stores -/

/-- For the type and the spec, records and atoms are two views of the same data, whatever the store, its
codec and its backend. -/
structure Model.TwoViews (m : Model ρ) (spec : Spec) (Legal : ρ → Prop) : Prop where
  atom : ∀ record, Legal record →
    ∃ a, m.atomize spec record = .ok a ∧ m.deatomize spec a = .ok record
  store : ∀ {σ : Type} (codec : Codec) (provider : KeyValue.Provider σ),
    RecordStore.TwoViews ⟨m, spec, codec, provider⟩ Legal
  bucket : ∀ {σ : Type} (codec : Codec) (provider : Blob.Provider σ),
    RecordBucket.TwoViews ⟨m, spec, codec, provider⟩ Legal
  index : ∀ {σ : Type} (codec : Codec) (provider : Vector.Provider σ),
    RecordIndex.TwoViews ⟨m, spec, codec, provider⟩ Legal
  table : ∀ {σ : Type} (name : String) (executor : Relational.Executor σ),
    RecordTable.TwoViews ⟨m, ⟨name, spec⟩, executor⟩ Legal

theorem Model.AtomicUnder.twoViews {m : Model ρ} {spec : Spec} (h : m.AtomicUnder spec Legal)
    (idle : m.Hookless) : m.TwoViews spec Legal where
  atom _ legal := h.exists_atom legal
  store _ _ := RecordStore.twoViews idle h
  bucket _ _ := RecordBucket.twoViews idle h
  index _ _ := RecordIndex.twoViews idle h
  table _ _ := RecordTable.twoViews idle h

/-- Records without hooks that are as well atoms are the same data in both views of every store; so are
the records of a layout under each spec that lists its fields with their kinds and lets the optional ones
be null, as long as their numbers are finite. -/
theorem views_show_same_data :
    (∀ {ρ : Type} (m : Model ρ) (spec : Spec) (Legal : ρ → Prop), m.Hookless →
      m.AtomicUnder spec Legal → m.TwoViews spec Legal) ∧
    ∀ (layout : Layout) (spec : Spec) (declaration : Declaration) (hooks : Hooks (Dict Cell)),
      (layout.map Prod.fst).Nodup → spec.Lists layout → spec.Spares layout →
        (layout.model declaration [] hooks).TwoViews spec
          fun record => layout.Fits record ∧ Layout.IsFinite record := by
  refine ⟨fun m spec Legal idle h => h.twoViews idle,
    fun layout spec declaration hooks nodup lists spares => ?_⟩
  exact (Layout.atomicUnder nodup lists spares declaration [] hooks).twoViews rfl

namespace Orders

theorem spares : spec.Spares layout := by
  intro f mem type listed optional
  simp only [spec, List.mem_cons, List.not_mem_nil, or_false] at mem
  rcases mem with rfl | rfl | rfl | rfl | rfl <;>
    simp [layout, number, FieldSpec.plain, FieldSpec.asKey, FieldSpec.inColumn, FieldSpec.orNull]
      at listed ⊢ <;>
    subst listed <;> cases optional

/-- The session in which an order was saved to the table. -/
def placed : Session Relational.Connection :=
  ((RecordTable.Write.set (order 1 "open")).run table context opened).2

theorem get_placed : (table.get context "1" placed).1 = .ok (order 1 "open") := rfl

end Orders

theorem views_show_same_data_orders :
    ∃ a, Orders.model.atomize Orders.spec (Orders.order 1 "open") = .ok a ∧
      Orders.model.deatomize Orders.spec a = .ok (Orders.order 1 "open") ∧
      (Orders.table.setAtom Orders.context a Orders.opened).2 = Orders.placed ∧
      (Orders.table.getAtom Orders.context "1" Orders.placed).1 = .ok a := by
  have views := views_show_same_data.2 Orders.layout Orders.spec
    { typeName := "Order", package := Catalog.package, fields := Orders.spec.fields } {} (by decide)
    Orders.lists Orders.spares
  have legal := Orders.legal_order 1 "open"
  obtain ⟨a, made, whole⟩ := views.atom (Orders.order 1 "open") legal
  have table := views.table "orders" Orders.table.executor
  have written := table.set Orders.context (Orders.order 1 "open") a legal made
  obtain ⟨b, answer, also⟩ :=
    (table.get Orders.context "1" Orders.placed).1.eq_ok_of_left Orders.get_placed
  obtain rfl : b = a := Except.ok.inj (also.symm.trans made)
  exact ⟨b, made, whole, congrArg (fun call => (call Orders.opened).2) written, answer⟩

end Depot
