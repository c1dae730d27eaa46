import Depot.Proofs.Blob.Named
import Depot.Proofs.KeyValue.Named
import Depot.Proofs.Record.ReadBack
import Depot.Proofs.Relational.Named
import Depot.Proofs.Vector.Named

/-!
# Nothing is stored without a name

Stores, buckets and indexes of records refuse the empty key in every operation that is given one, so what
is kept in their providers has a name after every run, whatever the hooks do. Tables refuse it where a key
is given as a text, but not where a record is saved under the key that it holds: a row under the empty
text comes of such a save and of nothing else (`no_entry_under_empty_key`), and then no operation under a
key text reaches it (`empty_key_saved`).
-/

namespace Depot

open RecordTable Relational

/-- Nothing is ever stored under an empty key, but for rows that are saved under one. Every run of
operations of stores, buckets and indexes, of both views and of any number of record types, keeps what the
provider keeps under keys that are not empty; so providers in memory hold nothing under the empty key. An
operation that is given it refuses it before its provider is called. On tables the operations under a key
text do so too, and a run that saves no record or atom under the empty text, as the hook before the save
leaves it, leaves no row under it in the table and its copies. A save that takes effect leaves such a row
exactly if the key that it saves is the empty text. -/
theorem no_entry_under_empty_key {ρ : Type} (model : Model ρ) (table : TableDef) :
    ((∀ {σ : Type} (p : KeyValue.Provider σ) (P : σ → Prop), p.KeepsNamed P →
          Step.RunsKeep (RecordStore.IsUse p) P) ∧
        (∀ config, (KeyValue.Memory.provider config).KeepsNamed fun m => m.entries.get? "" = none) ∧
        ∀ {τ σ : Type} (store : RecordStore τ σ) (ctx : Context), store.RefusesEmpty ctx) ∧
      ((∀ {σ : Type} (p : Blob.Provider σ) (P : σ → Prop), p.KeepsNamed P →
          Step.RunsKeep (RecordBucket.IsUse p) P) ∧
        (Blob.Memory.provider.KeepsNamed fun m => m.objects.get? "" = none) ∧
        ∀ {τ σ : Type} (bucket : RecordBucket τ σ) (ctx : Context) (op : RecordBucket.Use τ),
          op.key? = some "" → op.run bucket ctx = Call.refuseKey) ∧
      ((∀ {σ : Type} (p : Vector.Provider σ) (P : σ → Prop), p.KeepsNamed P →
          Step.RunsKeep (RecordIndex.IsUse p) P) ∧
        (∀ settings, (Vector.Memory.provider settings).KeepsNamed fun m => m.vectors.get? "" = none) ∧
        ∀ {τ σ : Type} (index : RecordIndex τ σ) (ctx : Context), index.RefusesEmpty ctx) ∧
      (∀ {τ σ : Type} (t : RecordTable τ σ) (ctx : Context) (op : RecordTable.Use τ),
          op.key? = some "" → op.run t ctx = Call.refuseKey) ∧
      (∀ (turns : List (Turn ρ)) (s : Session System),
          s.backend.All table.name (Table.AllRows table.spec (Named table.spec)) →
          (∀ turn ∈ turns, turn.SavesNamed (inMemory model table)) →
            (Turn.run (inMemory model table) turns s).backend.All table.name
              (Table.AllRows table.spec (Named table.spec))) ∧
      ∀ (ctx : Context) (s : Session Connection) (t : Table), seen? table s = some t →
        t.AllRows table.spec (Named table.spec) →
          (∀ record, let saved := (Write.set record).run (inMemory model table) ctx s
            tookEffect saved.1 = true →
              ∃ row after,
                (inMemory model table).toRow (model.saved (s.occasion ctx) record) = .ok row ∧
                (Connection.contents s.now saved.2.backend).table? table.name = some after ∧
                (after.AllRows table.spec (Named table.spec) ↔ Named table.spec row)) ∧
          ∀ a, let saved := (inMemory model table).setAtom ctx a s
            saved.1 = .ok () →
              ∃ row after, (inMemory model table).rowOfAtom a = .ok row ∧
                (Connection.contents s.now saved.2.backend).table? table.name = some after ∧
                (after.AllRows table.spec (Named table.spec) ↔ Named table.spec row) := by
  refine ⟨⟨fun p P h => ?_, KeyValue.Memory.keepsNamed, RecordStore.refusesEmpty⟩,
    ⟨fun p P h => ?_, Blob.Memory.keepsNamed, fun bucket ctx op => bucket.refuses_empty ctx⟩,
    ⟨fun p P h => ?_, Vector.Memory.keepsNamed, RecordIndex.refusesEmpty⟩,
    fun t ctx op => t.refuses_empty ctx, fun turns s => Turn.named_run,
    fun ctx s t seen all => ⟨fun record => named_iff_of_set seen all, fun a => named_iff_of_setAtom seen all⟩⟩
  · exact Step.runsKeep fun f use ctx => use.keeps h ctx
  · exact Step.runsKeep fun f use ctx => use.keeps h ctx
  · exact Step.runsKeep fun f use ctx => use.keeps h ctx

/-! ### Users under their names -/

namespace Users

def layout : Layout :=
  [("id", .text), ("email", .text), ("age", .int), ("nickname", .optional .text)]

/-- Users are known by a text. -/
def name : FieldSpec := (FieldSpec.plain "id" .string).asKey

/-- The spec of users, each of whom has an address of their own. -/
def spec : Spec where
  typeName := "User"
  package := Catalog.package
  fields := [name, (FieldSpec.plain "email" .string).asUnique.required, .plain "age" .integer,
    (FieldSpec.plain "nickname" .string).orNull]
  key := name
  names_ne := by decide
  names_nodup := by decide
  columns_nodup := by decide
  keys_eq := rfl
  key_nullable := rfl

def model : Model (Dict Cell) :=
  layout.model { typeName := "User", package := Catalog.package, fields := spec.fields } [] {}

def table : RecordTable (Dict Cell) Connection := .inMemory model ⟨"users", spec⟩

def store : RecordStore (Dict Cell) KeyValue.Memory := .inMemory model spec .json {}

/-- A user without a nickname. -/
def user (id email : String) : Dict Cell :=
  .ofList [("id", .text id), ("email", .text email), ("age", .int 3), ("nickname", .absent)]

/-- A session with the table of users, which has no rows. -/
def opened : Session Connection :=
  { backend := ⟨{ tables := .ofList [("users", { spec })] }, none⟩ }

def founded : Session System :=
  { backend := { database := { tables := .ofList [("users", { spec })] } } }

/-- Users are written to a store, one of them under no name. -/
def writes : List (Step (Context → Call KeyValue.Memory Unit)) :=
  [.call Orders.context fun ctx => (RecordStore.Use.write (.set "" (user "a" "a@x") 0)).run store ctx,
    .wait 5,
    .call Orders.context fun ctx => (RecordStore.Use.write (.set "a" (user "a" "a@x") 0)).run store ctx]

def stored : Session KeyValue.Memory :=
  Depot.Step.run (fun ctx (f : Context → Call KeyValue.Memory Unit) => f ctx) writes { backend := {} }

theorem isUse_writes : ∀ ctx f, .call ctx f ∈ writes → RecordStore.IsUse (KeyValue.Memory.provider {}) f := by
  intro ctx f mem
  simp only [writes, List.mem_cons, List.not_mem_nil, or_false, Step.call.injEq, reduceCtorEq, false_or]
    at mem
  rcases mem with ⟨-, rfl⟩ | ⟨-, rfl⟩ <;> exact ⟨_, store, _, rfl, rfl⟩

/-- A user is saved, and another one in a transaction. -/
def saves : List (Turn (Dict Cell)) :=
  [.use none Orders.context (.write (.set (user "a" "a@x"))), .other (.begin "t"),
    .use (some "t") Orders.context (.write (.set (user "b" "b@x"))), .other (.commit "t")]

theorem saved_eq (now : Occasion) (record : Dict Cell) : table.model.saved now record = record := rfl

theorem savesNamed_saves : ∀ turn ∈ saves, turn.SavesNamed table := by
  intro turn mem
  simp only [saves, List.mem_cons, List.not_mem_nil, or_false] at mem
  rcases mem with rfl | rfl | rfl | rfl
  · intro now row made
    rw [saved_eq] at made
    cases made
    exact fun same => absurd (Value.string.inj same) (by decide)
  · trivial
  · intro now row made
    rw [saved_eq] at made
    cases made
    exact fun same => absurd (Value.string.inj same) (by decide)
  · trivial

end Users

theorem no_entry_under_empty_key_users :
    Users.stored.backend.entries.get? "" = none ∧
      (Turn.run Users.table Users.saves Users.founded).backend.All "users"
        (Table.AllRows Users.spec (Named Users.spec)) ∧
      ((Turn.run Users.table Users.saves Users.founded).backend.database.tables.get? "users").map
        (fun t => t.rows.map fun row => Row.cell row "id") = some [.string "a", .string "b"] := by
  obtain ⟨⟨runs, memory, -⟩, -, -, -, saves, -⟩ := no_entry_under_empty_key Users.model Users.table.table
  exact ⟨runs _ _ (memory {}) Users.writes { backend := {} } Users.isUse_writes rfl,
    saves Users.saves Users.founded (System.All.fresh Users.table.table _) Users.savesNamed_saves, rfl⟩

/-- A user with an empty name is saved, and can be neither read nor deleted. -/
theorem empty_key_saved :
    let saved := (Write.set (Users.user "" "a@x")).run Users.table Orders.context Users.opened
    saved.1 = .ok () ∧
      ((saved.2.backend.database.tables.get? "users").map fun t =>
        t.rows.map fun row => Row.cell row "id") = some [.string ""] ∧
      (Users.table.get Orders.context "" saved.2).1 = .error (.invalidKey "key is empty") ∧
      (Users.table.delete Orders.context "" saved.2).1 = .error (.invalidKey "key is empty") :=
  ⟨rfl, rfl, rfl, rfl⟩

end Depot
