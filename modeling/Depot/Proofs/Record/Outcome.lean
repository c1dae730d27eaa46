import Depot.Proofs.Blob.Memory
import Depot.Proofs.KeyValue.Memory
import Depot.Proofs.Relational.Connection
import Depot.Proofs.Vector.Memory

/-!
# Outcomes of writes, in all stores

The stores in memory do all or nothing, so the outcome of a write through any store of records tells
whether it took effect, whatever the hooks of the record type do.
-/

namespace Depot

/-- An error of a write that is not post-commit means that nothing was written and that no hook after
the write ran; any other outcome means that the provider's own write took place, of the record as the
hook before the save left it. This holds for key-value stores, buckets, indexes and tables in memory,
for tables in a transaction or without one. -/
theorem outcome_tells_effect {ρ : Type} (model : Model ρ) (spec : Spec) {codec : Codec}
    (honest : codec.Honest) (ctx : Context) :
    (∀ config (w : RecordStore.Write ρ) s,
      let store : RecordStore ρ KeyValue.Memory :=
        ⟨model, spec, codec, KeyValue.Memory.provider config⟩
      Truthful KeyValue.Memory.contents (fun after => w.run (store.withAfter after) ctx)
        model.afterHooks (w.bare store ctx s) s) ∧
    (∀ (w : RecordBucket.Write ρ) s,
      let bucket : RecordBucket ρ Blob.Memory := ⟨model, spec, codec, Blob.Memory.provider⟩
      Truthful (fun _ m => m) (fun after => w.run (bucket.withAfter after) ctx)
        model.afterHooks (w.bare bucket ctx s) s) ∧
    (∀ settings (w : RecordIndex.Write ρ) s,
      let index : RecordIndex ρ Vector.Memory :=
        ⟨model, spec, codec, Vector.Memory.provider settings⟩
      Truthful (fun _ m => m) (fun after => w.run (index.withAfter after) ctx)
        model.afterHooks (w.bare index ctx s) s) ∧
    (∀ name (w : RecordTable.Write ρ) s,
      let table : RecordTable ρ Relational.Connection :=
        ⟨model, ⟨name, spec⟩, Relational.Connection.executor⟩
      Truthful Relational.Connection.contents (fun after => w.run (table.withAfter after) ctx)
        model.afterHooks (w.bare table ctx s) s) := by
  refine ⟨?store, ?bucket, ?index, ?table⟩
  case store =>
    intro config w s
    exact RecordStore.truthful honest (KeyValue.Memory.sound config) w s
  case bucket =>
    intro w s
    exact RecordBucket.truthful honest Blob.Memory.sound w s
  case index =>
    intro settings w s
    exact RecordIndex.truthful honest (Vector.Memory.sound settings) w s
  case table =>
    intro name w s
    exact RecordTable.truthful Relational.Connection.sound w s

/-- A type of texts. What is saved after something was reported gets a mark, and the hooks after a write
always fail. -/
def Model.unlucky : Model String where
  declaration := .ofPath "Text" []
  roles := [.beforeSave, .afterSave, .afterDelete]
  read? := Value.asString?
  write := .string
  hooks := {
    beforeSave := fun now text =>
      ⟨if now.session.events = [] then text else text ++ "*", ["saving"], false, none⟩
    afterSave := fun _ _ => ⟨(), [], false, some "disk full"⟩
    afterDelete := fun _ _ => ⟨(), [], false, some "disk full"⟩ }

namespace Unlucky

open Relational

def store : RecordStore String KeyValue.Memory :=
  ⟨.unlucky, notes.spec, .plainText, KeyValue.Memory.provider {}⟩

def index : RecordIndex String Vector.Memory :=
  ⟨.unlucky, notes.spec, .plainText, Vector.Memory.provider { codec := .plainText }⟩

def table : RecordTable String Connection := ⟨.unlucky, notes, Connection.executor⟩

def save : RecordStore.Write String := .set "greeting" "hello" 0

/-- The same text with two vectors. -/
def batch (second : Components) : RecordIndex.Write String :=
  .upsertBatch [⟨"a", [.one], .zero, "hello"⟩, ⟨"b", second, .zero, "hello"⟩]

def removal : RecordTable.Write String := .delete "hello"

def saved : Except Error Unit × Session KeyValue.Memory := save.run store now { backend := {} }

def upserted (second : Components) : Except Error Unit × Session Vector.Memory :=
  (batch second).run index now { backend := {} }

/-- A session with a table of one note. -/
def noted : Session Connection :=
  let held : Table := { spec := notes.spec, rows := [note "hello"] }
  { backend := ⟨{ tables := .ofList [("notes", held)] }, none⟩ }

def removed : Except Error Unit × Session Connection := removal.run table now noted

end Unlucky

open Unlucky Relational

/-- Three writes that took effect, although their last hook failed, and a batch that did not, since its
vectors differ in length. The second text of a batch is saved with a mark. -/
theorem outcome_tells_effect_unlucky :
    (saved.1 = .error (.hook .afterSave "disk full") ∧
        ∃ call t, save.bare store now { backend := {} } = .ok call ∧ call { backend := {} } = (.ok (), t) ∧
          saved.2.backend = t.backend) ∧
      ((upserted [.one]).1 = .error (.hook .afterSave "disk full") ∧
        (upserted [.one]).2.backend.vectors.entries.map (fun e => Text.Utf8.decode? e.2.metadata) =
          [some "hello", some "hello*"] ∧
        ∃ call t, (batch [.one]).bare index now { backend := {} } = .ok call ∧
          call { backend := {} } = (.ok (), t) ∧ (upserted [.one]).2.backend = t.backend) ∧
      ((upserted [.one, .one]).1 = .error (.dimensionMismatch 1 2) ∧
        (upserted [.one, .one]).2.backend = {}) ∧
      removed.1 = .error (.hook .afterDelete "disk full") ∧
        ∃ call t, removal.bare table now noted = .ok call ∧ call noted = (.ok (), t) ∧
          removed.2.backend = t.backend := by
  obtain ⟨stores, -, indexes, tables⟩ :=
    outcome_tells_effect .unlucky notes.spec Codec.honest_plainText now
  have inStore : Truthful KeyValue.Memory.contents (fun after => save.run (store.withAfter after) now)
      store.model.afterHooks (save.bare store now { backend := {} }) { backend := {} } :=
    stores {} save { backend := {} }
  have inIndex (second : Components) : Truthful (fun _ m => m)
      (fun after => (batch second).run (index.withAfter after) now) index.model.afterHooks
      ((batch second).bare index now { backend := {} }) { backend := {} } :=
    indexes { codec := .plainText } (batch second) { backend := {} }
  have inTable : Truthful Connection.contents (fun after => removal.run (table.withAfter after) now)
      table.model.afterHooks (removal.bare table now noted) noted := tables "notes" removal noted
  have sameStore : store.withAfter store.model.afterHooks = store := rfl
  have sameIndex : index.withAfter index.model.afterHooks = index := rfl
  have sameTable : table.withAfter table.model.afterHooks = table := rfl
  have written := inStore.done rfl
  have put := (inIndex [.one]).done (by decide +kernel)
  have refused := (inIndex [.one, .one]).unchanged (by decide +kernel)
  have gone := inTable.done rfl
  rw [sameStore] at written
  rw [sameIndex] at put refused
  rw [sameTable] at gone
  unfold saved upserted removed
  exact ⟨⟨rfl, written⟩, ⟨rfl, by decide +kernel, put⟩, ⟨rfl, refused⟩, rfl, gone⟩

end Depot
