import Depot.Proofs.Record.Atoms
import Depot.Proofs.Record.ReadBack

/-!
# What a store has accepted

A write of records without hooks looks at keys, contexts and vectors but never at what the record holds:
every record is encoded and kept. So what the next get answers is settled by the record type alone, which
reads what it wrote (`Model.Rereads`). For records with fixed fields this is the record without those
optional numbers that are not finite, unless a number that a record must have is not finite; then the
record was accepted and cannot be read.
-/

namespace Depot

section

variable {ρ : Type} {model : Model ρ} {spec : Spec} {c : StandardCodec} {ctx other : Context}
  {key : String} {kept : Kept ρ}

/-! ### Keys of what was written -/

/-- No record is put under an empty key. -/
theorem RecordStore.named_of_run (h : model.Hookless) {config : KeyValueConfig} {w : Write ρ}
    {s : Session KeyValue.Memory} (done : (w.run (inMemory model spec c config) ctx s).1 = .ok ())
    (noted : (key, some kept) ∈ w.notes s.now) : key ≠ "" := by
  have idle : (inMemory model spec c config).model.Hookless := h
  cases w with
  | set own record span =>
      cases List.mem_singleton.1 noted
      rw [run_set_of_hookless idle, underKey] at done
      obtain ⟨_, named, _⟩ := Call.of_lift_bind_eq_ok done
      exact ne_of_checkKey_eq_ok named
  | setBatch items span =>
      obtain ⟨item, mem, same⟩ := List.mem_map.1 noted
      rw [run_setBatch_of_hookless idle] at done
      obtain ⟨encoded, made, _⟩ := Call.of_lift_bind_eq_ok (Call.of_check_bind_eq_ok done)
      obtain ⟨_, encodedItem⟩ := Fallible.exists_mapM_iff.1 ⟨encoded, made⟩ item mem
      rw [encodeItem, Fallible.bind_eq_ok_iff] at encodedItem
      obtain ⟨_, named, _⟩ := encodedItem
      cases same
      exact ne_of_checkKey_eq_ok named
  | delete own => cases List.mem_singleton.1 noted
  | deleteBatch keys =>
      obtain ⟨_, _, same⟩ := List.mem_map.1 noted
      cases same

theorem RecordBucket.named_of_run (h : model.Hookless) {w : Write ρ} {s : Session Blob.Memory}
    (done : (w.run (inMemory model spec c) ctx s).1 = .ok ()) (noted : (key, some kept) ∈ w.notes) :
    key ≠ "" := by
  have idle : (inMemory model spec c).model.Hookless := h
  cases w with
  | put object =>
      cases List.mem_singleton.1 noted
      rw [run_put_of_hookless idle, underKey] at done
      obtain ⟨_, named, _⟩ := Call.of_lift_bind_eq_ok done
      exact ne_of_checkKey_eq_ok named
  | delete own => cases List.mem_singleton.1 noted

theorem RecordIndex.named_of_run (h : model.Hookless) {settings : Vector.Settings} {w : Write ρ}
    {s : Session Vector.Memory} (done : (w.run (inMemory model spec c settings) ctx s).1 = .ok ())
    (noted : (key, some kept) ∈ w.notes) : key ≠ "" := by
  have idle : (inMemory model spec c settings).model.Hookless := h
  have named {v : VectorOf ρ} {entry : Vector.Entry}
      (made : (inMemory model spec c settings).entryFor v = .ok entry) : v.id ≠ "" := by
    rw [entryFor, Fallible.bind_eq_ok_iff] at made
    obtain ⟨_, checked, _⟩ := made
    rw [checkEntry, Fallible.bind_eq_ok_iff] at checked
    obtain ⟨_, named, _⟩ := checked
    exact ne_of_checkKey_eq_ok named
  cases w with
  | upsert id vector record =>
      cases List.mem_singleton.1 noted
      rw [run_upsert_of_hookless idle] at done
      obtain ⟨_, made, _⟩ := Call.of_lift_bind_eq_ok (Call.of_check_bind_eq_ok done)
      exact named made
  | upsertBatch vectors =>
      obtain ⟨v, mem, same⟩ := List.mem_map.1 noted
      rw [run_upsertBatch_of_hookless idle] at done
      obtain ⟨entries, made, _⟩ := Call.of_lift_bind_eq_ok (Call.of_check_bind_eq_ok done)
      obtain ⟨_, entry⟩ := Fallible.exists_mapM_iff.1 ⟨entries, made⟩ v mem
      cases same
      exact named entry
  | delete id => cases List.mem_singleton.1 noted
  | deleteBatch ids =>
      obtain ⟨_, _, same⟩ := List.mem_map.1 noted
      cases same

/-! ### The next get -/

/-- Whatever a store held before, what it has accepted under a key is what it recalls next. -/
theorem RecordStore.get_after_run (h : model.Hookless) {config : KeyValueConfig} {w : Write ρ}
    {s later : Session KeyValue.Memory}
    (done : (w.run (inMemory model spec c config) ctx s).1 = .ok ())
    (noted : (w.notes s.now).stands (· == key) none = some kept)
    (same : later.backend = (w.run (inMemory model spec c config) ctx s).2.backend)
    (le : s.now ≤ later.now) (there : kept.isThere later.now = true)
    (live : later.refusal? other = none) :
    ((inMemory model spec c config).get other key later).1 =
      model.retrieve c (.notFound key) (some (model.bytes c kept.record)) := by
  obtain ⟨own, sameKey, mem⟩ := Notes.exists_mem_of_stands noted
  obtain rfl := eq_of_beq sameKey
  have begun : Holds model c (s.backend.find? s.now) s.now s.backend [] :=
    fun key => s.backend.find?_later (Nat.le_refl _) key
  obtain ⟨-, added⟩ := adds_run spec config ctx h w s [] begun
  rw [done, List.nil_append, ← same] at added
  have holds := Holds.later s.now later.now _ _ le added
  rw [get_of_holds h holds (named_of_run h done mem) live, Notes.stands_map_of_stands_none noted,
    Option.filter_some, isLive_entryOf, there]
  rfl

/-- Whatever a bucket held before, what it has accepted under a key is what it recalls next. -/
theorem RecordBucket.get_after_run (h : model.Hookless) {w : Write ρ} {s later : Session Blob.Memory}
    (done : (w.run (inMemory model spec c) ctx s).1 = .ok ())
    (noted : w.notes.stands (· == key) none = some kept)
    (same : later.backend = (w.run (inMemory model spec c) ctx s).2.backend)
    (live : later.refusal? other = none) :
    ((inMemory model spec c).get other key later).1.map ObjectOf.data =
      model.retrieve c (.notFound key) (some (model.bytes c kept.record)) := by
  obtain ⟨own, sameKey, mem⟩ := Notes.exists_mem_of_stands noted
  obtain rfl := eq_of_beq sameKey
  have begun : Holds model c (bytes? s.backend) s.now s.backend [] := fun _ => rfl
  obtain ⟨-, added⟩ := adds_run spec ctx h w s [] begun
  rw [done, List.nil_append, ← same] at added
  rw [get_of_holds h added (named_of_run h done mem) live, Notes.stands_map_of_stands_none noted]

/-- Whatever an index held before, what it has accepted under an id is what it recalls next. -/
theorem RecordIndex.get_after_run (h : model.Hookless) {settings : Vector.Settings} {w : Write ρ}
    {s later : Session Vector.Memory}
    (done : (w.run (inMemory model spec c settings) ctx s).1 = .ok ())
    (noted : w.notes.stands (· == key) none = some kept)
    (same : later.backend = (w.run (inMemory model spec c settings) ctx s).2.backend)
    (live : later.refusal? other = none) :
    ((inMemory model spec c settings).get other key later).1.map VectorOf.metadata =
      model.retrieve c (.notFound key) (some (model.bytes c kept.record)) := by
  obtain ⟨own, sameKey, mem⟩ := Notes.exists_mem_of_stands noted
  obtain rfl := eq_of_beq sameKey
  have begun : Holds model c (metadata? s.backend) s.now s.backend [] := fun _ => rfl
  obtain ⟨-, added⟩ := adds_run spec settings ctx h w s [] begun
  rw [done, List.nil_append, ← same] at added
  rw [get_of_holds h added (named_of_run h done mem) live, Notes.stands_map_of_stands_none noted]

end

/-- What a store, a bucket or an index has accepted under a key is what a get answers next with: the
record as its type reads what it wrote. Between the two the backend may not change, and the record may not
expire. -/
structure Model.Rereads (m : Model ρ) : Prop where
  store : ∀ (spec : Spec) (c : StandardCodec) (config : KeyValueConfig) (w : RecordStore.Write ρ)
    (ctx other : Context) (s later : Session KeyValue.Memory) (key : String) (kept : Kept ρ),
    let store := RecordStore.inMemory m spec c config
    (w.run store ctx s).1 = .ok () → (w.notes s.now).stands (· == key) none = some kept →
    later.backend = (w.run store ctx s).2.backend → s.now ≤ later.now →
    kept.isThere later.now = true → later.refusal? other = none →
    (m.write kept.record).IsWritten → c.Carries (m.toValue kept.record) →
      (store.get other key later).1 = m.ofValue (m.toValue kept.record)
  bucket : ∀ (spec : Spec) (c : StandardCodec) (w : RecordBucket.Write ρ) (ctx other : Context)
    (s later : Session Blob.Memory) (key : String) (kept : Kept ρ),
    let bucket := RecordBucket.inMemory m spec c
    (w.run bucket ctx s).1 = .ok () → w.notes.stands (· == key) none = some kept →
    later.backend = (w.run bucket ctx s).2.backend → later.refusal? other = none →
    (m.write kept.record).IsWritten → c.Carries (m.toValue kept.record) →
      (bucket.get other key later).1.map ObjectOf.data = m.ofValue (m.toValue kept.record)
  index : ∀ (spec : Spec) (c : StandardCodec) (settings : Vector.Settings) (w : RecordIndex.Write ρ)
    (ctx other : Context) (s later : Session Vector.Memory) (id : String) (kept : Kept ρ),
    let index := RecordIndex.inMemory m spec c settings
    (w.run index ctx s).1 = .ok () → w.notes.stands (· == id) none = some kept →
    later.backend = (w.run index ctx s).2.backend → later.refusal? other = none →
    (m.write kept.record).IsWritten → c.Carries (m.toValue kept.record) →
      (index.get other id later).1.map VectorOf.metadata = m.ofValue (m.toValue kept.record)

theorem Model.Hookless.rereads {m : Model ρ} (h : m.Hookless) : m.Rereads where
  store _ c _ _ _ _ _ _ _ _ done noted same le there live written within :=
    (RecordStore.get_after_run h done noted same le there live).trans (retrieve_bytes c _ written within)
  bucket _ c _ _ _ _ _ _ _ done noted same live written within :=
    (RecordBucket.get_after_run h done noted same live).trans (retrieve_bytes c _ written within)
  index _ c _ _ _ _ _ _ _ _ done noted same live written within :=
    (RecordIndex.get_after_run h done noted same live).trans (retrieve_bytes c _ written within)

/-! ### Records with fixed fields -/

theorem Value.nestingItems_le {n : Nat} {items : List Value} (h : ∀ v ∈ items, v.nesting ≤ n) :
    nestingItems items ≤ n := by
  induction items with
  | nil => exact Nat.zero_le n
  | cons v rest ih =>
      rw [List.forall_mem_cons] at h
      exact Nat.max_le.2 ⟨h.1, ih h.2⟩

theorem Value.nestingMembers_le {n : Nat} {members : List (String × Value)}
    (h : ∀ e ∈ members, e.2.nesting ≤ n) : nestingMembers members ≤ n := by
  induction members with
  | nil => exact Nat.zero_le n
  | cons e rest ih =>
      rw [List.forall_mem_cons] at h
      exact Nat.max_le.2 ⟨h.1, ih h.2⟩

theorem Cell.nesting_write (cell : Cell) : cell.write.nesting ≤ 1 := by
  cases cell with
  | nat u =>
      rw [write, Value.ofUInt64]
      split <;> exact Nat.zero_le _
  | real x =>
      rw [write]
      split <;> exact Nat.zero_le _
  | bytes b =>
      exact Nat.succ_le_succ (Value.nestingItems_le (List.forall_mem_map.2 fun _ _ => Nat.le_refl 0))
  | texts list =>
      exact Nat.succ_le_succ (Value.nestingItems_le (List.forall_mem_map.2 fun _ _ => Nat.le_refl 0))
  | counts dict =>
      exact Nat.succ_le_succ (Value.nestingMembers_le (List.forall_mem_map.2 fun _ _ => Nat.le_refl 0))
  | _ => exact Nat.zero_le _

/-- Records with fixed fields are hardly nested. -/
theorem Layout.nesting_write (record : Dict Cell) : (Layout.write record).nesting ≤ 2 :=
  Nat.succ_le_succ (Value.nestingMembers_le (List.forall_mem_map.2 fun e _ => e.2.nesting_write))

/-- What a record with fixed fields is reread as. -/
def Layout.reread (layout : Layout) (record : Dict Cell) : Except Error (Dict Cell) :=
  if Expressible layout record then .ok (settled record)
  else .error (.decode .value "the value does not fit the record type")

theorem Layout.ofValue_toValue {layout : Layout} {record : Dict Cell}
    (nodup : (layout.map Prod.fst).Nodup) (fits : Fits layout record) (declaration : Declaration)
    (roles : List Role) (hooks : Hooks (Dict Cell)) :
    (layout.model declaration roles hooks).ofValue
      ((layout.model declaration roles hooks).toValue record) = layout.reread record := by
  have read : (layout.model declaration roles hooks).read? (write record) =
      if Expressible layout record then some (settled record) else none := read?_write nodup fits
  refine (Model.ofValue_of_isWritten (isWritten_write record)).trans ?_
  rw [read, reread]
  by_cases expressible : Expressible layout record
  · rw [if_pos expressible, if_pos expressible]
  · rw [if_neg expressible, if_neg expressible]

theorem Layout.reread_eq_ok_iff {layout : Layout} {record : Dict Cell} :
    layout.reread record = .ok record ↔ IsFinite record := by
  rw [reread]
  constructor
  · intro same
    split at same
    · exact settled_eq_iff.1 (Except.ok.inj same)
    · cases same
  · intro finite
    have expressible : Expressible layout record := fun _ _ cell held => .inl (finite _ cell held)
    rw [if_pos expressible, settled_eq_iff.2 finite]

/-- Every record is encoded, and what was accepted is reread as its type reads what it wrote, as long as the
codec carries it; JSON carries a record if it reads the texts of its floats as those floats. What is reread
is the same record exactly if all its numbers are finite, and it cannot be read at all exactly if one that it
must have is not. -/
theorem accepted_is_reread (layout : Layout) (declaration : Declaration) (hooks : Hooks (Dict Cell))
    (nodup : (layout.map Prod.fst).Nodup) :
    let m := layout.model declaration [] hooks
    m.Rereads ∧ (∀ (c : StandardCodec) (v : Value), ∃ bytes, c.codec.encode v = .ok bytes) ∧
      ∀ record, layout.Fits record →
        (m.write record).IsWritten ∧
          (Json.KeepsFloats (m.toValue record) → StandardCodec.json.Carries (m.toValue record)) ∧
          ((m.toValue record).Short → StandardCodec.messagePack.Carries (m.toValue record)) ∧
          m.ofValue (m.toValue record) = layout.reread record ∧
          (layout.reread record = .ok record ↔ Layout.IsFinite record) ∧
          ((∃ detail, layout.reread record = .error (.decode .value detail)) ↔
            ¬ layout.Expressible record) := by
  have idle : (layout.model declaration [] hooks).Hookless := rfl
  refine ⟨idle.rereads, fun c v => ⟨_, c.encode_eq_ok v⟩, fun record fits => ?_⟩
  have flat := Layout.nesting_write record
  refine ⟨Layout.isWritten_write record, fun kept => ⟨Nat.le_trans flat (by decide), kept⟩,
    fun short => ⟨Nat.lt_of_le_of_lt flat (by decide), short⟩,
    Layout.ofValue_toValue nodup fits declaration [] hooks, Layout.reread_eq_ok_iff, ?_⟩
  rw [Layout.reread]
  split
  · next expressible => simp [expressible]
  · next refused => simp [refused]

/-! ### Readings -/

namespace Readings

/-- A number that a reading has to have, and one that it may have. -/
def layout : Layout := [("id", .text), ("level", .real), ("drift", .optional .real)]

/-- Readings are known by the gauge they come from. -/
def gauge : FieldSpec := (FieldSpec.plain "id" .string).asKey

def spec : Spec where
  typeName := "Reading"
  package := Catalog.package
  fields := [gauge, .plain "level" .float, (FieldSpec.plain "drift" .float).orNull]
  key := gauge
  names_ne := by decide
  names_nodup := by decide
  columns_nodup := by decide
  keys_eq := rfl
  key_nullable := rfl

def model : Model (Dict Cell) :=
  layout.model { typeName := "Reading", package := Catalog.package, fields := spec.fields } [] {}

def reading (level : Binary64) (drift : Cell) : Dict Cell :=
  .ofList [("id", .text "r"), ("level", .real level), ("drift", drift)]

theorem fits_reading (level drift : Binary64) : layout.Fits (reading level (.real drift)) := by
  apply Layout.fits_ofList (by decide)
  exact .cons ⟨rfl, trivial⟩ (.cons ⟨rfl, trivial⟩ (.cons ⟨rfl, .inr trivial⟩ .nil))

def store (c : StandardCodec) : RecordStore (Dict Cell) KeyValue.Memory := .inMemory model spec c {}

/-- The session in which a reading was written to an empty store. -/
def stored (c : StandardCodec) (record : Dict Cell) : Session KeyValue.Memory :=
  ((RecordStore.Write.set "r" record 0).run (store c) Orders.context { backend := {} }).2

/-- The atom of a reading. -/
def atom (drift : Option Binary64) : Atom :=
  (((Atom.ofType "Reading").setString "id" "r").setFloat "level" .zero).setNullableFloat "drift" drift

/-- An atom whose drift is infinite is written as the record without it. -/
theorem setAtom_endless (c : StandardCodec) :
    (store c).setAtom Orders.context "r" (atom (some (.infinity false))) 0 =
      (RecordStore.Write.set "r" (reading .zero .absent) 0).run (store c) Orders.context := by
  have whole : (atom (some (.infinity false))).toValue spec =
      .ok (.map [("drift", .float (.infinity false)), ("id", .string "r"), ("level", .float .zero)]) := by
    have declared : ∀ name, spec.declares name = false →
        (atom (some (.infinity false))).Lacks name := by
      intro name undeclared
      have other : name ∉ spec.fields.map FieldSpec.name := by
        rw [← Spec.declares_iff, undeclared]
        exact Bool.false_ne_true
      simp only [spec, gauge, FieldSpec.plain, FieldSpec.asKey, FieldSpec.orNull, List.map_cons,
        List.map_nil, List.mem_cons, List.not_mem_nil, or_false, not_or] at other
      simp [Atom.Lacks, Atom.slots, atom, Atom.ofType, Atom.setString, Atom.setFloat,
        Atom.setNullableFloat, Dict.get?_insert_of_ne, other]
    have found : ∀ f ∈ spec.fields, (atom (some (.infinity false))).lookup? f =
        some (((atom (some (.infinity false))).lookup? f).getD .null) := by
      intro f mem
      simp only [spec, List.mem_cons, List.not_mem_nil, or_false] at mem
      rcases mem with rfl | rfl | rfl <;> rfl
    exact (Atom.toValue_of_lookup? declared found).trans rfl
  have read : model.deatomize spec (atom (some (.infinity false))) = .ok (reading .zero .absent) := by
    rw [Model.deatomize, whole]
    rfl
  have idle : (store c).model.Hookless := rfl
  rw [RecordStore.run_set_of_hookless idle, RecordStore.setAtom, RecordStore.encodeAtom]
  show RecordStore.underKey _ _ (Call.lift (model.deatomize spec _ >>= _) >>= _) = _
  rw [read]
  rfl

end Readings

theorem accepted_is_reread_readings :
    ((Readings.store .json).get Orders.context "r"
        (Readings.stored .json (Readings.reading .zero (.real .zero)))).1 =
        .ok (Readings.reading .zero (.real .zero)) ∧
      ∃ detail, ((Readings.store .json).get Orders.context "r"
        (Readings.stored .json (Readings.reading .nan (.real .zero)))).1 =
        .error (.decode .value detail) := by
  obtain ⟨rereads, -, outcomes⟩ := accepted_is_reread Readings.layout
    { typeName := "Reading", package := Catalog.package, fields := Readings.spec.fields } {} (by decide)
  have again (level : Binary64)
      (kept : Json.KeepsFloats (Readings.model.toValue (Readings.reading level (.real .zero))))
      (accepted : ((RecordStore.Write.set "r" (Readings.reading level (.real .zero)) 0).run
        (Readings.store .json) Orders.context { backend := {} }).1 = .ok ()) :
      ((Readings.store .json).get Orders.context "r"
        (Readings.stored .json (Readings.reading level (.real .zero)))).1 =
          Readings.layout.reread (Readings.reading level (.real .zero)) := by
    obtain ⟨written, carried, -, read, -, -⟩ := outcomes _ (Readings.fits_reading level .zero)
    refine Eq.trans ?_ read
    exact rereads.store Readings.spec .json {} (.set "r" _ 0) Orders.context
      Orders.context { backend := {} } (Readings.stored .json _) "r" ⟨_, none⟩ accepted rfl rfl
      (Nat.le_refl 0) rfl rfl written (carried kept)
  obtain ⟨-, -, -, -, same, -⟩ := outcomes _ (Readings.fits_reading .zero .zero)
  obtain ⟨-, -, -, -, -, refused⟩ := outcomes _ (Readings.fits_reading .nan .zero)
  obtain ⟨detail, unread⟩ := refused.2 (by decide)
  refine ⟨(again .zero (by decide +kernel) rfl).trans (same.2 ?_), detail,
    (again .nan (by decide +kernel) rfl).trans unread⟩
  exact Layout.isFinite_ofList (by simp) (by decide)

/-- A reading whose level is no number is accepted and cannot be read, though no atom is made of it. One
whose drift is infinite is accepted and read without its drift, be it written as a record or as an atom. -/
theorem accepted_not_reread :
    let store := Readings.store .messagePack
    let endless : Binary64 := .infinity false
    let settled := Readings.stored .messagePack (Readings.reading .zero .absent)
    (((RecordStore.Write.set "r" (Readings.reading .nan .absent) 0).run store Orders.context
          { backend := {} }).1 = .ok () ∧
        (store.get Orders.context "r"
          (Readings.stored .messagePack (Readings.reading .nan .absent))).1 =
            .error (.decode .value "the value does not fit the record type") ∧
        Readings.model.atomize Readings.spec (Readings.reading .nan .absent) =
          .error (.encode .value "non-nullable field 'level' has no value")) ∧
      (((RecordStore.Write.set "r" (Readings.reading .zero (.real endless)) 0).run store Orders.context
          { backend := {} }).1 = .ok () ∧
        (store.get Orders.context "r"
          (Readings.stored .messagePack (Readings.reading .zero (.real endless)))).1 =
            .ok (Readings.reading .zero .absent)) ∧
      store.setAtom Orders.context "r" (Readings.atom (some endless)) 0 { backend := {} } =
          (.ok (), settled) ∧
        (store.getAtom Orders.context "r" settled).1 = .ok (Readings.atom none) :=
  ⟨⟨rfl, rfl, rfl⟩, ⟨rfl, rfl⟩, congrFun (Readings.setAtom_endless .messagePack) _, rfl⟩

end Depot
