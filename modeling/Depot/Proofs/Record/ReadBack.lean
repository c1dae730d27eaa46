import Depot.Proofs.Blob.Holding
import Depot.Proofs.KeyValue.Holding
import Depot.Proofs.Relational.Holding
import Depot.Proofs.Vector.Holding

/-!
# Reading what was written

A record that was written under a key, and neither written over, deleted nor expired since, is what a get
of the key answers with, in every store and after every run; if no record stands under the key, the get
reports that there is none (`Model.ReadsBack`, `Model.ReadsBackRows`). This holds of every record type
without hooks that reads what it writes, because the four backends hold what was written last.

An empty key is never looked up, and neither is anything under a context that is cancelled or past its
deadline. MessagePack loses a text that is too long for the header it is written under.
-/

namespace Depot

/-- The answer is the record that stands, in its normal form, or reports that none does. Of records that
are not legal nothing is said. -/
def Answers {ρ : Type} (Legal : ρ → Prop) (normal : ρ → ρ) (missing : Error)
    (standing : Option (Kept ρ)) (answer : Except Error ρ) : Prop :=
  match standing with
  | some kept => Legal kept.record → answer = .ok (normal kept.record)
  | none => answer = .error missing

namespace Answers

variable {ρ : Type} {Legal : ρ → Prop} {normal : ρ → ρ} {missing : Error}
  {standing : Option (Kept ρ)} {answer : Except Error ρ}

theorem of_eq_some (h : Answers Legal normal missing standing answer) (k : Kept ρ)
    (same : standing = some k) (legal : Legal k.record) : answer = .ok (normal k.record) := by
  subst same
  exact h legal

theorem of_eq_none (h : Answers Legal normal missing standing answer) (same : standing = none) :
    answer = .error missing := by
  subst same
  exact h

end Answers

variable {ρ : Type}

/-- Whatever was done to stores, buckets and indexes that started without records, they answer with the
records that stand. The settings of an index may say how long its vectors are. -/
structure Model.ReadsBack (m : Model ρ) (Legal : ρ → Prop) (normal : ρ → ρ) : Prop where
  store : ∀ (spec : Spec) (c : StandardCodec) (config : KeyValueConfig)
    (steps : List (Step (RecordStore.Write ρ))) (start : Session KeyValue.Memory) (ctx : Context)
    (key : String),
    let store := RecordStore.inMemory m spec c config
    let call := fun ctx (w : RecordStore.Write ρ) => w.run store ctx
    let later := Step.run call steps start
    let noted := Step.history call RecordStore.Write.notes steps start
    start.backend = {} → key ≠ "" → later.refusal? ctx = none →
      Answers (fun r => Legal r ∧ c.Carries (m.toValue r)) normal (.notFound key)
        ((noted.stands (· == key) none).filter (Kept.isThere later.now)) (store.get ctx key later).1
  bucket : ∀ (spec : Spec) (c : StandardCodec) (steps : List (Step (RecordBucket.Write ρ)))
    (start : Session Blob.Memory) (ctx : Context) (key : String),
    let bucket := RecordBucket.inMemory m spec c
    let call := fun ctx (w : RecordBucket.Write ρ) => w.run bucket ctx
    let later := Step.run call steps start
    let noted := Step.history call (fun _ w => w.notes) steps start
    start.backend = {} → key ≠ "" → later.refusal? ctx = none →
      Answers (fun r => Legal r ∧ c.Carries (m.toValue r)) normal (.notFound key)
        (noted.stands (· == key) none) ((bucket.get ctx key later).1.map ObjectOf.data)
  index : ∀ (spec : Spec) (c : StandardCodec) (settings : Vector.Settings)
    (steps : List (Step (RecordIndex.Write ρ))) (start : Session Vector.Memory) (ctx : Context)
    (id : String),
    let index := RecordIndex.inMemory m spec c settings
    let call := fun ctx (w : RecordIndex.Write ρ) => w.run index ctx
    let later := Step.run call steps start
    let noted := Step.history call (fun _ w => w.notes) steps start
    start.backend = .initial settings → id ≠ "" → later.refusal? ctx = none →
      Answers (fun r => Legal r ∧ c.Carries (m.toValue r)) normal (.notFound id)
        (noted.stands (· == id) none) ((index.get ctx id later).1.map VectorOf.metadata)

/-- Whatever was done to a table that started without rows, updates apart, it answers with the records
that stand; it does so in a transaction, too. The key is a text or a whole number, and the text of the
key of a record addresses that record. -/
structure Model.ReadsBackRows (m : Model ρ) (Legal : ρ → Prop) (normal : ρ → ρ) : Prop where
  table : ∀ (table : TableDef) (steps : List (Step (RecordTable.Write ρ)))
    (start : Session Relational.Connection) (ctx : Context) (text : String) (v : Value),
    let records := RecordTable.inMemory m table
    let call := fun ctx (w : RecordTable.Write ρ) => w.run records ctx
    let later := Step.run call steps start
    let noted := Step.history call (fun _ w => w.notes m table.spec) steps start
    table.spec.key.IsDiscrete →
    (∃ t, (Relational.Connection.contents start.now start.backend).table? table.name = some t ∧
      t.spec = table.spec ∧ t.rows = []) →
    (∀ ctx w, .call ctx w ∈ steps → w.IsKeyed m table.spec) →
    table.spec.key.keyOf text = .ok v → later.refusal? ctx = none →
      Answers Legal normal (Relational.rowNotFound table.name v)
        (noted.stands (fun key => key.equal v) none) (records.get ctx text later).1
  addressed : ∀ (spec : Spec) (record : ρ), spec.key.IsDiscrete → Legal record →
    spec.Describes (m.toValue record) →
    let key := RecordTable.keyCell m spec record
    key.isNull = false → key.keyText ≠ "" → spec.key.keyOf key.keyText = .ok key

namespace Model

variable {m : Model ρ} {Legal : ρ → Prop} {normal : ρ → ρ}

/-- A type that reads what it writes recalls the record that stands. -/
theorem Faithful.answers_retrieve (h : m.Faithful Legal normal) (c : StandardCodec) (missing : Error)
    (standing : Option (Kept ρ)) :
    Answers (fun r => Legal r ∧ c.Carries (m.toValue r)) normal missing standing
      (m.retrieve c missing (standing.map fun kept => m.bytes c kept.record)) := by
  cases standing with
  | none => rfl
  | some kept =>
      intro legal
      rw [Option.map_some, retrieve_bytes c missing (h.isWritten _ legal.1) legal.2]
      exact h.ofValue_toValue legal.1

/-- Record types without hooks that read what they write read it back from stores, buckets and indexes. -/
theorem Faithful.readsBack (h : m.Faithful Legal normal) (idle : m.Hookless) :
    m.ReadsBack Legal normal where
  store spec c config steps start ctx key := by
    intro store call later noted empty named live
    have begun : RecordStore.Holds m c (fun _ => none) start.now start.backend [] := by
      intro key
      rw [empty]
      rfl
    have holds := Step.history_run RecordStore.Holds.later steps
      (fun ctx w _ => RecordStore.adds_run spec config ctx idle w) begun
    rw [List.nil_append] at holds
    rw [RecordStore.get_of_holds idle holds named live, RecordStore.bytes_entryOf]
    exact h.answers_retrieve c _ _
  bucket spec c steps start ctx key := by
    intro bucket call later noted empty named live
    have begun : RecordBucket.Holds m c (fun _ => none) start.now start.backend [] := by
      intro key
      rw [empty]
      rfl
    have holds := Step.history_run (fun _ _ _ _ _ h => h) steps
      (fun ctx w _ => RecordBucket.adds_run spec ctx idle w) begun
    rw [List.nil_append] at holds
    rw [RecordBucket.get_of_holds idle holds named live, Notes.stands_map_none]
    exact h.answers_retrieve c _ _
  index spec c settings steps start ctx id := by
    intro index call later noted empty named live
    have begun : RecordIndex.Holds m c (fun _ => none) start.now start.backend [] := by
      intro key
      rw [empty]
      rfl
    have holds := Step.history_run (fun _ _ _ _ _ h => h) steps
      (fun ctx w _ => RecordIndex.adds_run spec settings ctx idle w) begun
    rw [List.nil_append] at holds
    rw [RecordIndex.get_of_holds idle holds named live, Notes.stands_map_none]
    exact h.answers_retrieve c _ _

/-- Record types without hooks that read what they write read it back from tables. -/
theorem Faithful.readsBackRows (h : m.Faithful Legal normal) (idle : m.Hookless) :
    m.ReadsBackRows Legal normal where
  table table steps start ctx text v := by
    intro records call later noted discrete empty keyed read live
    obtain ⟨t, seen, same, none⟩ := empty
    have begun : RecordTable.Holds m table (fun _ => .none) start.now start.backend [] := by
      refine ⟨t, seen, same, Relational.Table.keyed_of_rows_eq_nil none, fun v _ => ?_⟩
      rw [Relational.Table.find?_eq, none]
      rfl
    have holds := Step.history_run RecordTable.Holds.later steps
      (fun ctx w mem => RecordTable.adds_run ctx idle discrete w (keyed ctx w mem)) begun
    rw [List.nil_append] at holds
    rw [RecordTable.get_of_holds idle discrete holds read live, Notes.stands_map_none]
    cases stood : noted.stands (fun key => key.equal v) .none with
    | none => rfl
    | some kept =>
        intro legal
        have described := RecordTable.describes_of_stands keyed stood
        exact (RecordTable.ofRow_rowOf (t := RecordTable.inMemory m table) described).trans
          (h.ofValue_toValue legal)
  addressed spec record := by
    intro discrete legal described key filled named
    exact discrete.keyOf_keyText (described.kinds _ spec.key_mem filled)
      (Value.plain_content (h.isWritten record legal).plain _) named

end Model

/-! ### Before anything is looked up -/

/-- A get looks at the key first, refusing an empty one and one that addresses nothing, and at the context
next; neither failure touches the session. -/
structure Guarded {σ α κ : Type} (key? : String → Except Error κ) (get : Context → String → Call σ α) :
    Prop where
  empty : ∀ ctx s, get ctx "" s = (.error (.invalidKey "key is empty"), s)
  unfit : ∀ ctx key s e, key? key = .error e → get ctx key s = (.error e, s)
  dead : ∀ ctx key s k e, key? key = .ok k → s.refusal? ctx = some e → get ctx key s = (.error e, s)

theorem guarded_of_eq {σ α κ : Type} {key? : String → Except Error κ} {get : Context → String → Call σ α}
    (next : Context → String → κ → Call σ α)
    (h : ∀ ctx key, get ctx key = Call.lift (key? key) >>= fun k =>
      Call.check ctx >>= fun _ => next ctx key k)
    (empty : key? "" = .error (.invalidKey "key is empty")) : Guarded key? get where
  empty ctx s := by
    rw [h, empty]
    rfl
  unfit ctx key s e failed := by
    rw [h, failed]
    rfl
  dead ctx key s k e read refused := by
    rw [h, read, Call.lift_ok, pure_bind, Call.check_bind_of_refusal refused]

theorem RecordStore.guarded {σ : Type} (store : RecordStore ρ σ) : Guarded checkKey store.get :=
  guarded_of_eq _ (fun _ _ => rfl) rfl

theorem RecordBucket.guarded {σ : Type} (bucket : RecordBucket ρ σ) : Guarded checkKey bucket.get :=
  guarded_of_eq _ (fun _ _ => rfl) rfl

theorem RecordIndex.guarded {σ : Type} (index : RecordIndex ρ σ) : Guarded checkKey index.get :=
  guarded_of_eq _ (fun _ _ => rfl) rfl

theorem RecordTable.guarded {σ : Type} (t : RecordTable ρ σ) : Guarded t.spec.key.keyOf t.get :=
  guarded_of_eq _ (fun _ _ => rfl) rfl

/-- Every record type without hooks that reads what it writes reads it back from every store. The records
of a layout come back as they are if their numbers are finite, from tables, too, if the spec of the table
lists the layout; data without fixed fields comes back in its interchange form. Under an empty key and a
dead context nothing is looked up, whatever the type. -/
theorem read_back_standing :
    (∀ {ρ : Type} (m : Model ρ) (Legal : ρ → Prop) (normal : ρ → ρ), m.Hookless →
      m.Faithful Legal normal → m.ReadsBack Legal normal ∧ m.ReadsBackRows Legal normal) ∧
    (∀ (layout : Layout) (declaration : Declaration) (hooks : Hooks (Dict Cell)),
      (layout.map Prod.fst).Nodup →
        let m := layout.model declaration [] hooks
        let Legal := fun record => layout.Fits record ∧ Layout.IsFinite record
        m.ReadsBack Legal id ∧ m.ReadsBackRows Legal id ∧
          ∀ spec : Spec, spec.Lists layout → ∀ record, layout.Fits record →
            spec.Describes (m.toValue record)) ∧
    (∀ (declaration : Declaration) (hooks : Hooks Value),
      (Model.dynamic declaration [] hooks).ReadsBack Value.Ordered (Value.interchange .numbers)) ∧
    ∀ {ρ σ : Type}, (∀ store : RecordStore ρ σ, Guarded checkKey store.get) ∧
      (∀ bucket : RecordBucket ρ σ, Guarded checkKey bucket.get) ∧
      (∀ index : RecordIndex ρ σ, Guarded checkKey index.get) ∧
      ∀ t : RecordTable ρ σ, Guarded t.spec.key.keyOf t.get := by
  refine ⟨fun m Legal normal idle faithful => ?_, fun layout declaration hooks nodup => ?_,
    fun declaration hooks => ?_, RecordStore.guarded, RecordBucket.guarded, RecordIndex.guarded,
    RecordTable.guarded⟩
  · exact ⟨faithful.readsBack idle, faithful.readsBackRows idle⟩
  · have faithful := Layout.faithful_model nodup declaration [] hooks
    exact ⟨faithful.readsBack rfl, faithful.readsBackRows rfl,
      fun spec lists record fits => lists.describes fits⟩
  · exact (Model.faithful_dynamic declaration [] hooks).readsBack rfl

namespace Orders

def context : Context := ⟨0, none⟩

/-- Two orders are written to a store, one of them twice, and the other one is deleted. -/
def writes : List (Step (RecordStore.Write (Dict Cell))) :=
  [.call context (.set "a" (order 1 "open") 0), .call context (.set "b" (order 2 "open") 0), .wait 5,
    .call context (.set "a" (order 1 "paid") 0), .call context (.delete "b")]

/-- The same in a table. -/
def saves : List (Step (RecordTable.Write (Dict Cell))) :=
  [.call context (.set (order 1 "open")), .call context (.set (order 2 "open")), .wait 5,
    .call context (.set (order 1 "paid")), .call context (.delete "2")]

def store : RecordStore (Dict Cell) KeyValue.Memory := .inMemory model spec .json {}

def table : RecordTable (Dict Cell) Relational.Connection := .inMemory model ⟨"orders", spec⟩

/-- A session with the table of orders, which has no rows. -/
def opened : Session Relational.Connection :=
  { backend := ⟨{ tables := .ofList [("orders", { spec })] }, none⟩ }

def stored : Session KeyValue.Memory := Step.run (fun ctx w => w.run store ctx) writes { backend := {} }

def saved : Session Relational.Connection := Step.run (fun ctx w => w.run table ctx) saves opened

/-- What the writes noted. -/
def noted : Notes String (Kept (Dict Cell)) :=
  Step.history (fun ctx w => w.run store ctx) RecordStore.Write.notes writes { backend := {} }

def notedRows : Notes Value (Kept (Dict Cell)) :=
  Step.history (fun ctx w => w.run table ctx) (fun _ w => w.notes model spec) saves opened

end Orders

theorem read_back_standing_orders :
    (Orders.store.get Orders.context "a" Orders.stored).1 = .ok (Orders.order 1 "paid") ∧
      (Orders.store.get Orders.context "b" Orders.stored).1 = .error (.notFound "b") ∧
      (Orders.table.get Orders.context "1" Orders.saved).1 = .ok (Orders.order 1 "paid") ∧
      (Orders.table.get Orders.context "2" Orders.saved).1 = .error (.notFound "orders/2") := by
  obtain ⟨-, layouts, -⟩ := read_back_standing
  obtain ⟨back, rows, described⟩ := layouts Orders.layout
    { typeName := "Order", package := Catalog.package, fields := Orders.spec.fields } {} (by decide)
  let paid : Kept (Dict Cell) := ⟨Orders.order 1 "paid", none⟩
  have legal := Orders.legal_order 1 "paid"
  have keyed : ∀ ctx w, .call ctx w ∈ Orders.saves → w.IsKeyed Orders.model Orders.spec := by
    intro ctx w mem
    simp only [Orders.saves, List.mem_cons, List.not_mem_nil, or_false, Step.call.injEq, reduceCtorEq,
      false_or] at mem
    rcases mem with ⟨-, rfl⟩ | ⟨-, rfl⟩ | ⟨-, rfl⟩ | ⟨-, rfl⟩
    · exact described Orders.spec Orders.lists _ (Orders.legal_order 1 "open").1
    · exact described Orders.spec Orders.lists _ (Orders.legal_order 2 "open").1
    · exact described Orders.spec Orders.lists _ legal.1
    · trivial
  have live : Orders.stored.refusal? Orders.context = none :=
    Option.isNone_iff_eq_none.1 (by decide +kernel)
  have also : Orders.saved.refusal? Orders.context = none :=
    Option.isNone_iff_eq_none.1 (by decide +kernel)
  have seen : ∃ t, (Relational.Connection.contents 0 Orders.opened.backend).table? "orders" = some t ∧
      t.spec = Orders.spec ∧ t.rows = [] := ⟨{ spec := Orders.spec }, rfl, rfl, rfl⟩
  have a := back.store Orders.spec .json {} Orders.writes { backend := {} } Orders.context "a" rfl
    (by decide) live
  have b := back.store Orders.spec .json {} Orders.writes { backend := {} } Orders.context "b" rfl
    (by decide) live
  have one := rows.table ⟨"orders", Orders.spec⟩ Orders.saves Orders.opened Orders.context "1"
    (.integer 1) (.inr rfl) seen keyed rfl also
  have two := rows.table ⟨"orders", Orders.spec⟩ Orders.saves Orders.opened Orders.context "2"
    (.integer 2) (.inr rfl) seen keyed rfl also
  have standing : (Orders.noted.stands (· == "a") none).filter (Kept.isThere Orders.stored.now) =
    some paid := rfl
  have gone : (Orders.noted.stands (· == "b") none).filter (Kept.isThere Orders.stored.now) = none := rfl
  have row : Orders.notedRows.stands (fun key => key.equal (.integer 1)) none = some paid := rfl
  have flat : StandardCodec.json.Carries (Orders.model.toValue paid.record) :=
    ⟨show (Orders.model.toValue paid.record).nesting ≤ 127 by decide +kernel,
      show Json.KeepsFloats (Orders.model.toValue paid.record) by decide +kernel⟩
  have without : Orders.notedRows.stands (fun key => key.equal (.integer 2)) none = none := rfl
  exact ⟨a.of_eq_some paid standing ⟨legal, flat⟩, b.of_eq_none gone,
    one.of_eq_some paid row legal, two.of_eq_none without⟩

/-! ### What is not read back -/

namespace MessagePack

/-- A text too long for its header is written under what is left of its size, and is lost. -/
theorem decode?_write_long {s : String} (long : (Text.Utf8.encode s).length = 2 ^ 32) :
    decode? (write (.string s)) = some (.string "") := by
  have header : stringHeader (2 ^ 32) = 0xdb :: bigEndian 4 0 := by decide
  have read := readScalar?_sizedString 4 (by decide) (rfl : ([] : List UInt8).length = 0)
    (Text.Utf8.encode s)
  have whole : readValue? maxNesting (0xdb :: (bigEndian 4 0 ++ Text.Utf8.encode s)) =
      some (textValue [], Text.Utf8.encode s) := readValue?_of_readScalar? read
  have empty : textValue [] = .string "" := textValue_encode ""
  rw [write, writeString, long, header, decode?, List.cons_append, whole, empty]
  rfl

theorem length_encode_replicate (n : Nat) :
    (Text.Utf8.encode (String.ofList (List.replicate n 'a'))).length = n := by
  have one : 'a'.utf8Size = 1 := rfl
  simp [Text.Utf8.encode, String.toUTF8, String.ofList, List.utf8Encode, one]

end MessagePack

/-- What MessagePack keeps of such a text is recalled as the empty one. -/
theorem Model.retrieve_long (declaration : Declaration) (roles : List Role) (hooks : Hooks Value)
    (missing : Error) {s : String} (long : (Text.Utf8.encode s).length = 2 ^ 32) :
    let m := Model.dynamic declaration roles hooks
    m.retrieve .messagePack missing (some (m.bytes .messagePack (.string s))) = .ok (.string "") := by
  have decoded : StandardCodec.messagePack.codec.decode (MessagePack.write (.string s)) =
      .ok (.string "") := by
    simp [StandardCodec.codec, Codec.messagePack, MessagePack.decode?_write_long long]
  exact (congrArg (· >>= _) decoded).trans rfl

/-- In a store without records an empty key is refused and a cancelled get ends before it looks, so
neither reports that there is no record; and a text longer than a header can tell is read back empty,
though it is not nested at all. -/
theorem read_back_refused :
    let empty : Session KeyValue.Memory := { backend := {} }
    let m := Model.dynamic { typeName := "Any" } [] {}
    let text := String.ofList (List.replicate (2 ^ 32) 'a')
    (Orders.store.get Orders.context "" empty).1 = .error (.invalidKey "key is empty") ∧
      (Orders.store.get Orders.context "a" (empty.cancel Orders.context)).1 = .error .cancelled ∧
      m.retrieve .messagePack (.notFound "a") (some (m.bytes .messagePack (.string text))) =
        .ok (.string "") :=
  ⟨rfl, rfl, Model.retrieve_long _ [] {} _ (MessagePack.length_encode_replicate (2 ^ 32))⟩

end Depot
