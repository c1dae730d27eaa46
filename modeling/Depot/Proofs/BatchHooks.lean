import Depot.KeyValue.RecordStore
import Depot.Proofs.Record.Batch
import Depot.Proofs.Record.ReadBack
import Depot.Vector.RecordIndex

/-!
# Hooks around a batch

Stores and indexes write and delete many records at once. What their batches have in common is what
becomes of the hooks, and it is said by `BatchEnds` for each of the four, whatever the provider is: the
hooks before run one by one in the order of the items, the first item that is not ready stops the batch
before the provider is called, and once the provider has done it the hooks after run for all items. A
hook is given the session that the hooks before it left, so an item is taken as it is at its turn
(`BatchItem.inTurn`), and one key given twice may be refused the second time.
-/

namespace Depot

variable {ρ σ : Type} {ctx : Context}

namespace Model

variable {m : Model ρ}

/-- The type has a hook for every role. -/
def ProvidesAll (m : Model ρ) : Prop :=
  ∀ role, m.provides role = true

/-- The hook after the delete of a key. -/
def deletedFiring (m : Model ρ) (key : String) (now : Occasion) : Firing :=
  .of .afterDelete key (m.hooks.afterDelete now key)

/-- The hook after the save of a record. -/
def savedFiring (m : Model ρ) (item : String × ρ) (now : Occasion) : Firing :=
  .of .afterSave item.1 (m.hooks.afterSave now item.2)

/-- A key whose record is to be deleted. -/
def deleteItem (m : Model ρ) (now : Occasion) (key : String) : BatchItem String Unit where
  given := key
  check := checkKey key
  before := .of .beforeDelete key (m.hooks.beforeDelete now key)
  left := key
  entry := .ok ()
  after := m.deletedFiring key

theorem beforeSave_apply (h : m.ProvidesAll) (key : String) (record : ρ) (s : Session σ) :
    let run := m.hooks.beforeSave (s.occasion ctx) record
    m.beforeSave ctx key record s =
      (.ok (run.result, (Firing.of .beforeSave key run).outcome), s.fired ctx [.of .beforeSave key run]) :=
  dispatch_apply (h .beforeSave) key record _ s

theorem beforeDelete_apply (h : m.ProvidesAll) (key : String) (s : Session σ) :
    let before := (m.deleteItem (s.occasion ctx) key).before
    m.beforeDelete ctx key s = (before.outcome, s.fired ctx [before]) := by
  rw [beforeDelete, Call.bind_apply, dispatch_apply (h .beforeDelete)]
  exact Call.lift_apply _ _

theorem afterSaves_apply (h : m.ProvidesAll) (items : List (String × ρ)) (s : Session σ) :
    let ran := s.firings ctx (items.map m.savedFiring)
    m.afterSaves ctx items s = (.ok (ran.forM Firing.outcome), s.fired ctx ran) := by
  have one (item : String × ρ) (s : Session σ) :
      let own := m.savedFiring item (s.occasion ctx)
      m.afterSave ctx item.1 item.2 s = (.ok own.outcome, s.fired ctx [own]) := by
    rw [afterSave, Call.bind_apply, dispatch_apply (h .afterSave)]
    rfl
  exact Firing.runsAll one rfl (fun _ _ => rfl) items s

theorem afterDeletes_apply (h : m.ProvidesAll) (keys : List String) (s : Session σ) :
    let ran := s.firings ctx (keys.map m.deletedFiring)
    m.afterDeletes ctx keys s = (.ok (ran.forM Firing.outcome), s.fired ctx ran) := by
  have one (key : String) (s : Session σ) :
      let own := m.deletedFiring key (s.occasion ctx)
      m.afterDelete ctx key s = (.ok own.outcome, s.fired ctx [own]) := by
    rw [afterDelete, Call.bind_apply, dispatch_apply (h .afterDelete)]
    rfl
  exact Firing.runsAll one rfl (fun _ _ => rfl) keys s

/-- The check of a key and the hook before its delete. -/
theorem prepareDelete_apply (h : m.ProvidesAll) (key : String) (s : Session σ) :
    let own := m.deleteItem (s.occasion ctx) key
    (do
      Call.lift (checkKey key)
      m.beforeDelete ctx key : Call σ Unit) s = (own.prepared, s.fired ctx own.opened) := by
  have before : m.beforeDelete ctx key s = _ := m.beforeDelete_apply h key s
  simp only [BatchItem.prepared, BatchItem.opened, deleteItem] at before ⊢
  rw [Call.bind_apply, Call.lift_apply]
  cases checkKey key with
  | error e => exact congrArg _ s.fired_nil.symm
  | ok _ =>
      refine before.trans (congrArg (Prod.mk · _) ?_)
      cases (Firing.of .beforeDelete key (m.hooks.beforeDelete (s.occasion ctx) key)).outcome <;> rfl

/-- How a batch of deletes ends, given the loop that comes before it. -/
theorem deletes_end (h : m.ProvidesAll) {s : Session σ} (live : s.refusal? ctx = none)
    (loop : List String → Call σ Unit) (nil : loop [] = pure ())
    (cons : ∀ key rest, loop (key :: rest) = do
      Call.lift (checkKey key)
      m.beforeDelete ctx key
      loop rest)
    (deletes : Call σ Unit) (keys : List String) :
    let r := (do
      Call.check ctx
      loop keys
      deletes
      Call.lift (← m.afterDeletes ctx keys) : Call σ Unit) s
    BatchEnds ctx (BatchItem.inTurn ctx m.deleteItem keys s) (fun _ => deletes) s keys r.1 r.2 := by
  intro r
  let items := BatchItem.inTurn ctx m.deleteItem keys s
  have prepared := BatchItem.preparesEach (m.prepareDelete_apply h) nil
    (fun key rest => (cons key rest).trans (bind_assoc _ _ _).symm) keys s
  have after : items.map BatchItem.after = keys.map m.deletedFiring := by
    refine BatchItem.map_inTurn (fun _ _ => ?_) keys s
    rfl
  have ends := BatchItem.ends_of_provide ctx items (fun _ => deletes) (m.afterDeletes ctx keys) s
    fun _ t => after ▸ m.afterDeletes_apply h keys t
  have left : BatchItem.leave items = keys := by
    have given : items.map BatchItem.given = keys.map id := by
      refine BatchItem.map_inTurn (fun _ _ => ?_) keys s
      rfl
    have same : ∀ i ∈ items, i.left = i.given := by
      refine BatchItem.forall_inTurn (fun _ _ => ?_) keys s
      rfl
    rw [BatchItem.leave_of_same same, given, List.map_id]
  rw [left] at ends
  have same : r = (do
      let _ ← Call.lift (items.mapM BatchItem.prepared)
      deletes
      Call.lift (← m.afterDeletes ctx keys) : Call σ Unit) (s.fired ctx (BatchItem.trace items)) := by
    show (Call.check ctx >>= _) s = _
    rw [Call.check_bind_of_live live, Call.bind_apply, prepared]
    show _ = (Call.lift (items.mapM BatchItem.prepared) >>= _) _
    cases items.mapM BatchItem.prepared <;> rfl
  rw [same]
  exact ends

end Model

namespace RecordStore

variable {store : RecordStore ρ σ}

/-- A record that is to be saved under its key. -/
def saveItem (store : RecordStore ρ σ) (now : Occasion) (item : String × ρ) :
    BatchItem (String × ρ) (String × List UInt8) :=
  let run := store.model.hooks.beforeSave now item.2
  { given := item
    check := checkKey item.1
    before := .of .beforeSave item.1 run
    left := (item.1, run.result)
    entry := (store.encode run.result).map fun bytes => (item.1, bytes)
    after := store.model.savedFiring (item.1, run.result) }

/-- The check of an item, the hook before its save and its encoding. -/
def prepareItem (store : RecordStore ρ σ) (ctx : Context) (item : String × ρ) :
    Call σ ((String × ρ) × Except Error (String × List UInt8)) :=
  match checkKey item.1 with
  | .error e => pure (item, .error e)
  | .ok () => do
    let p ← store.prepare ctx item.1 item.2
    return ((item.1, p.1), p.2.map fun bytes => (item.1, bytes))

theorem prepareItem_apply (h : store.model.ProvidesAll) (item : String × ρ) (s : Session σ) :
    let own := store.saveItem (s.occasion ctx) item
    store.prepareItem ctx item s = (.ok (own.turned, own.prepared), s.fired ctx own.opened) := by
  simp only [BatchItem.prepared, BatchItem.opened, BatchItem.turned, saveItem]
  rw [prepareItem]
  cases checkKey item.1 with
  | error e => exact congrArg _ s.fired_nil.symm
  | ok _ =>
      dsimp only
      rw [Call.bind_apply, prepare, Call.bind_apply, Model.beforeSave_apply h]
      cases (Firing.of .beforeSave item.1
        (store.model.hooks.beforeSave (s.occasion ctx) item.2)).outcome <;> rfl

theorem prepareAll_apply (h : store.model.ProvidesAll) (items : List (String × ρ)) (s : Session σ) :
    let all := BatchItem.inTurn ctx store.saveItem items s
    store.prepareAll ctx items s =
      (.ok (BatchItem.leave all, all.mapM BatchItem.prepared), s.fired ctx (BatchItem.trace all)) := by
  refine BatchItem.prepares (store.prepareItem_apply h) id (fun _ _ => rfl) rfl ?_ items s
  intro item rest
  rw [List.map_id, prepareAll, prepareItem]
  cases checkKey item.1 with
  | error e => rfl
  | ok _ =>
      simp only [bind_assoc, pure_bind]
      refine congrArg _ (funext fun p => ?_)
      cases p.2 <;> rfl

/-- How a batch of saves ends. -/
theorem setBatch_ends (h : store.model.ProvidesAll) {s : Session σ} (live : s.refusal? ctx = none)
    (items : List (String × ρ)) (span : Time) :
    ∃ left outcome t, store.setBatch ctx items span s = (.ok (left, outcome), t) ∧
      BatchEnds ctx (BatchItem.inTurn ctx store.saveItem items s)
        (fun entries => store.provider.setBatch ctx (.ofList entries) span) s left outcome t := by
  let all := BatchItem.inTurn ctx store.saveItem items s
  have ends := BatchItem.ends_of_provide ctx all
    (fun entries => store.provider.setBatch ctx (.ofList entries) span)
    (store.model.afterSaves ctx (BatchItem.leave all)) s ?_
  · refine ⟨_, _, _, ?_, ends⟩
    rw [setBatch, Call.bind_apply, Call.attempt_apply, Call.check_of_live live]
    dsimp only
    rw [Call.bind_apply, prepareAll_apply h]
    rfl
  · intro left t
    have after : all.map BatchItem.after = (all.map BatchItem.left).map store.model.savedFiring := by
      have own : ∀ i ∈ all, i.after = store.model.savedFiring i.left := by
        refine BatchItem.forall_inTurn (fun _ _ => ?_) items s
        rfl
      rw [List.map_map]
      exact List.map_congr_left own
    rw [left, after]
    exact Model.afterSaves_apply h _ t

theorem deleteBatch_ends (h : store.model.ProvidesAll) {s : Session σ} (live : s.refusal? ctx = none)
    (keys : List String) :
    BatchEnds ctx (BatchItem.inTurn ctx store.model.deleteItem keys s)
      (fun _ => store.provider.deleteBatch ctx keys) s keys (store.deleteBatch ctx keys s).1
      (store.deleteBatch ctx keys s).2 :=
  Model.deletes_end h live (store.prepareDeletes ctx) rfl (fun _ _ => rfl) _ keys

end RecordStore

namespace RecordIndex

variable {index : RecordIndex ρ σ}

/-- A vector that is to be saved. -/
def saveItem (index : RecordIndex ρ σ) (now : Occasion) (v : VectorOf ρ) :
    BatchItem (VectorOf ρ) Vector.Entry :=
  let run := index.model.hooks.beforeSave now v.metadata
  { given := v
    check := checkEntry v.id v.vector
    before := .of .beforeSave v.id run
    left := { v with metadata := run.result }
    entry := (index.encode run.result).map fun bytes => ⟨v.id, v.vector, bytes⟩
    after := index.model.savedFiring (v.id, run.result) }

theorem prepare_apply (h : index.model.ProvidesAll) (v : VectorOf ρ) (s : Session σ) :
    let own := index.saveItem (s.occasion ctx) v
    index.prepare ctx v s = (.ok (own.turned, own.prepared), s.fired ctx own.opened) := by
  simp only [BatchItem.prepared, BatchItem.opened, BatchItem.turned, saveItem]
  rw [prepare]
  cases checkEntry v.id v.vector with
  | error e => exact congrArg _ s.fired_nil.symm
  | ok _ =>
      dsimp only
      rw [Call.bind_apply, Model.beforeSave_apply h]
      cases (Firing.of .beforeSave v.id
        (index.model.hooks.beforeSave (s.occasion ctx) v.metadata)).outcome <;> rfl

theorem prepareAll_apply (h : index.model.ProvidesAll) (vectors : List (VectorOf ρ)) (s : Session σ) :
    let all := BatchItem.inTurn ctx index.saveItem vectors s
    index.prepareAll ctx vectors s =
      (.ok (BatchItem.leave all, all.mapM BatchItem.prepared), s.fired ctx (BatchItem.trace all)) := by
  refine BatchItem.prepares (index.prepare_apply h) id (fun _ _ => rfl) rfl ?_ vectors s
  intro v rest
  rw [List.map_id, prepareAll]
  refine congrArg _ (funext fun p => ?_)
  obtain ⟨v, prepared⟩ := p
  cases prepared <;> rfl

/-- How a batch of saves ends. -/
theorem upsertBatch_ends (h : index.model.ProvidesAll) {s : Session σ} (live : s.refusal? ctx = none)
    (vectors : List (VectorOf ρ)) :
    ∃ left outcome t, index.upsertBatch ctx vectors s = (.ok (left, outcome), t) ∧
      BatchEnds ctx (BatchItem.inTurn ctx index.saveItem vectors s) (index.provider.upsertBatch ctx) s left
        outcome t := by
  let all := BatchItem.inTurn ctx index.saveItem vectors s
  have ends := BatchItem.ends_of_provide ctx all (index.provider.upsertBatch ctx)
    (index.model.afterSaves ctx ((BatchItem.leave all).map fun v => (v.id, v.metadata))) s ?_
  · refine ⟨_, _, _, ?_, ends⟩
    rw [upsertBatch, Call.bind_apply, Call.attempt_apply, Call.check_of_live live]
    dsimp only
    rw [Call.bind_apply, prepareAll_apply h]
    rfl
  · intro left t
    have after : all.map BatchItem.after =
        ((all.map BatchItem.left).map fun v => (v.id, v.metadata)).map index.model.savedFiring := by
      have own : ∀ i ∈ all, i.after = index.model.savedFiring (i.left.id, i.left.metadata) := by
        refine BatchItem.forall_inTurn (fun _ _ => ?_) vectors s
        rfl
      rw [List.map_map, List.map_map]
      exact List.map_congr_left own
    rw [left, after]
    exact Model.afterSaves_apply h _ t

theorem deleteBatch_ends (h : index.model.ProvidesAll) {s : Session σ} (live : s.refusal? ctx = none)
    (ids : List String) :
    BatchEnds ctx (BatchItem.inTurn ctx index.model.deleteItem ids s)
      (fun _ => index.provider.deleteBatch ctx ids) s ids (index.deleteBatch ctx ids s).1
      (index.deleteBatch ctx ids s).2 :=
  Model.deletes_end h live (index.prepareDeletes ctx) rfl (fun _ _ => rfl) _ ids

end RecordIndex

/-- For a type with a hook for every role, and a context that is live when they are called, the batches of
stores and indexes end as `BatchEnds` says, whatever the provider and the hooks do. Their items are the
entries of a dictionary in the order of the keys, or vectors, keys and ids as they are given, each of them
with what its hook makes of it when it is its turn. -/
theorem batch_hooks {s : Session σ} (live : s.refusal? ctx = none) :
    (∀ store : RecordStore ρ σ, store.model.ProvidesAll →
      (∀ (records : Dict ρ) (span : Time), ∃ left outcome t,
        store.setBatch ctx records.entries span s = (.ok (left, outcome), t) ∧
          BatchEnds ctx (BatchItem.inTurn ctx store.saveItem records.entries s)
            (fun entries => store.provider.setBatch ctx (.ofList entries) span) s left outcome t) ∧
      ∀ keys, BatchEnds ctx (BatchItem.inTurn ctx store.model.deleteItem keys s)
        (fun _ => store.provider.deleteBatch ctx keys) s keys
        (store.deleteBatch ctx keys s).1 (store.deleteBatch ctx keys s).2) ∧
    ∀ index : RecordIndex ρ σ, index.model.ProvidesAll →
      (∀ vectors, ∃ left outcome t, index.upsertBatch ctx vectors s = (.ok (left, outcome), t) ∧
        BatchEnds ctx (BatchItem.inTurn ctx index.saveItem vectors s) (index.provider.upsertBatch ctx) s
          left outcome t) ∧
      ∀ ids, BatchEnds ctx (BatchItem.inTurn ctx index.model.deleteItem ids s)
        (fun _ => index.provider.deleteBatch ctx ids) s ids
        (index.deleteBatch ctx ids s).1 (index.deleteBatch ctx ids s).2 :=
  ⟨fun _ h => ⟨fun records => RecordStore.setBatch_ends h live records.entries,
      RecordStore.deleteBatch_ends h live⟩,
    fun _ h => ⟨RecordIndex.upsertBatch_ends h live, RecordIndex.deleteBatch_ends h live⟩⟩

/-! ### Orders with hooks -/

namespace WatchedOrders

/-- The status of an order. -/
def status (order : Dict Cell) : String :=
  match order.get? "status" with
  | some (.text status) => status
  | _ => ""

/-- Every hook reports; an order that is void may not be saved, and one that is late is complained about
once it is, as is a key that is deleted again. -/
def model : Model (Dict Cell) :=
  Orders.layout.model { typeName := "Order", package := Catalog.package, fields := Orders.spec.fields }
    [.beforeSave, .afterSave, .afterLoad, .beforeDelete, .afterDelete]
    { beforeSave := fun _ order => ⟨order, ["before " ++ status order], false,
        if status order = "void" then some "void" else none⟩
      afterSave := fun _ order => ⟨(), ["after " ++ status order], false,
        if status order = "late" then some "late" else none⟩
      afterDelete := fun now key => ⟨(), ["gone " ++ key], false,
        if now.session.events.contains ("gone " ++ key) then some "gone again" else none⟩ }

theorem providesAll : model.ProvidesAll := by
  intro role
  cases role <;> rfl

def store : RecordStore (Dict Cell) KeyValue.Memory := .inMemory model Orders.spec .json {}

def index : RecordIndex (Dict Cell) Vector.Memory :=
  .inMemory model Orders.spec .json { codec := StandardCodec.json.codec }

/-- Two orders, of which the first is late. -/
def records (second : String) : Dict (Dict Cell) :=
  .ofList [("a", Orders.order 1 "late"), ("b", Orders.order 2 second)]

end WatchedOrders

theorem batch_hooks_orders :
    let run (second : String) :=
      WatchedOrders.store.setBatch Orders.context (WatchedOrders.records second).entries 0 { backend := {} }
    let keys := ["a", "a"]
    let start : Session Vector.Memory := { backend := {} }
    let deleted := WatchedOrders.index.deleteBatch Orders.context keys start
    (∃ left t, run "open" = (.ok (left, .error (.hook .afterSave "late")), t) ∧
      t.events = ["before late", "before open", "after late", "after open"] ∧
      t.warnings = ["after_save hook failed for 'a' after commit: late"]) ∧
    (∃ left t, run "void" = (.ok (left, .error (.hook .beforeSave "void")), t) ∧
      t.events = ["before late", "before void"] ∧ t.backend = {}) ∧
    BatchEnds Orders.context
        (BatchItem.inTurn Orders.context WatchedOrders.model.deleteItem keys start)
        (fun _ => WatchedOrders.index.provider.deleteBatch Orders.context keys) start keys deleted.1
        deleted.2 ∧
      deleted.1 = .error (.hook .afterDelete "gone again") ∧ deleted.2.events = ["gone a", "gone a"] ∧
      deleted.2.warnings = ["after_delete hook failed for 'a' after commit: gone again"] := by
  intro run keys start deleted
  have live : ({ backend := {} } : Session KeyValue.Memory).refusal? Orders.context = none := rfl
  have alive : start.refusal? Orders.context = none := rfl
  have ends (second : String) :=
    ((batch_hooks live).1 WatchedOrders.store WatchedOrders.providesAll).1 (WatchedOrders.records second) 0
  refine ⟨?late, ?void, ((batch_hooks alive).2 WatchedOrders.index WatchedOrders.providesAll).2 keys, rfl,
    rfl, rfl⟩
  case late =>
    obtain ⟨left, outcome, t, ran, -⟩ := ends "open"
    have result : (run "open").1.map Prod.snd = .ok (.error (.hook .afterSave "late")) := rfl
    have events : (run "open").2.events =
      ["before late", "before open", "after late", "after open"] := rfl
    have warnings : (run "open").2.warnings =
      ["after_save hook failed for 'a' after commit: late"] := rfl
    rw [show run "open" = _ from ran] at result events warnings
    cases Except.ok.inj result
    exact ⟨left, t, ran, events, warnings⟩
  case void =>
    obtain ⟨left, outcome, t, ran, -⟩ := ends "void"
    have result : (run "void").1.map Prod.snd = .ok (.error (.hook .beforeSave "void")) := rfl
    have events : (run "void").2.events = ["before late", "before void"] := rfl
    have untouched : (run "void").2.backend = {} := rfl
    rw [show run "void" = _ from ran] at result events untouched
    cases Except.ok.inj result
    exact ⟨left, t, ran, events, untouched⟩

end Depot
