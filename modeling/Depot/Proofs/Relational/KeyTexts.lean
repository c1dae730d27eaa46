import Depot.Proofs.Record.Reread
import Depot.Proofs.Relational.Rows

/-!
# Key texts and the rows they name

A row is saved under the key that its record writes, and addressed by a value that is read from a text.
The two conversions are separate, and they meet under loose equality: for every kind of key but bytes a
text that denotes the key of a saved record (`FieldKind.Denotes`) addresses the row of the record
(`RecordTable.Addresses`). Bytes are written as an array of numbers and read from a text as bytes, which
equal no array, so no text addresses a row by a key of that kind (`RecordTable.Misses`).
-/

namespace Depot

/-! ### Texts that denote keys -/

/-- An equal number is equal to the same numbers. -/
theorem Binary64.equal_congr {x y : Binary64} (same : y.equal x = true) (z : Binary64) :
    z.equal y = z.equal x := by
  obtain ⟨hy, hx, rank⟩ := equal_eq_true_iff.1 same
  rw [equal, equal, hy, hx, rank]

/-- The text denotes a key of the kind, as it is written in a row: a number in one of its forms, bytes by
the text that they encode. -/
def FieldKind.Denotes : FieldKind → String → Value → Prop
  | string, text, v => v = .string text
  | integer, text, .integer i => Literal.int? text = some i.toInt
  | integer, text, .uinteger u => Literal.int? text = some (u.toNat : Int)
  | float, text, .float x => ∃ y, Literal.real? text = some y ∧ y.equal x = true
  | bool, text, .bool b => text = toString b
  | bytes, text, v => v = Atom.bytesValue (Text.Utf8.encode text)
  | _, _, _ => False

/-- To loose equality the values are one. -/
structure Value.SameKey (key v : Value) : Prop where
  own : v.looseEqual key = true
  others : ∀ other : Value, other.looseEqual key = other.looseEqual v

/-- A text that denotes a key, bytes apart, is read as that key or as a number equal to it. -/
theorem FieldKind.Denotes.exists_readKey? {kind : FieldKind} {text : String} {v : Value}
    (denotes : kind.Denotes text v) (notBytes : kind ≠ .bytes) (plain : v.Plain) :
    ∃ key, kind.readKey? text = some key ∧ key.SameKey v := by
  cases kind with
  | string =>
      cases denotes
      exact ⟨_, rfl, beq_self_eq_true text, fun _ => rfl⟩
  | integer =>
      cases v with
      | integer i =>
          have denotes : Literal.int? text = some i.toInt := denotes
          refine ⟨.integer i, ?_, beq_self_eq_true i, fun _ => rfl⟩
          rw [readKey?, denotes, Option.bind_some, Json.ofInt?_toInt]
      | uinteger u =>
          have denotes : Literal.int? text = some (u.toNat : Int) := denotes
          refine ⟨.uinteger u, ?_, beq_self_eq_true u, fun _ => rfl⟩
          rw [readKey?, denotes, Option.bind_some, Json.ofInt?_toNat plain]
      | _ => exact denotes.elim
  | float =>
      cases v with
      | float x =>
          obtain ⟨y, read, same⟩ := denotes
          refine ⟨.float y, by rw [readKey?, read, Option.map_some], ?_, fun other => ?_⟩
          · exact (Binary64.equal_comm x y).trans same
          · cases other <;> first | rfl | exact Binary64.equal_congr same _
      | _ => exact denotes.elim
  | bool =>
      cases v with
      | bool b =>
          cases denotes
          exact ⟨.bool b, by cases b <;> rfl, beq_self_eq_true b, fun _ => rfl⟩
      | _ => exact denotes.elim
  | bytes => exact absurd rfl notBytes
  | composite => exact denotes.elim

/-! ### The place of a key -/

namespace Relational

section

variable {α : Type} {p : α → Bool} {xs : List α} {x : α}

theorem findIdx?_set {i : Nat} (found : xs.findIdx? p = some i) (hx : p x = true) :
    (xs.set i x).findIdx? p = some i := by
  obtain ⟨lt, _, before⟩ := List.findIdx?_eq_some_iff_getElem.1 found
  refine List.findIdx?_eq_some_iff_getElem.2 ⟨by rwa [List.length_set], ?_, fun j earlier => ?_⟩
  · rwa [List.getElem_set_self]
  · rw [List.getElem_set_of_ne (by omega)]
    exact before j earlier

theorem findIdx?_append_singleton (absent : xs.findIdx? p = none) (hx : p x = true) :
    (xs ++ [x]).findIdx? p = some xs.length := by
  simp [List.findIdx?_append, absent, List.findIdx?_cons, hx]

end

namespace Table

variable {t : Table} {key v : Value} {row : Row}

theorem position?_congr (same : key.SameKey v) (t : Table) : t.position? key = t.position? v := by
  simp only [position?, same.others]

/-- A row that was put in the place of its key is the first one with the key. -/
theorem exists_position?_place (held : row.get? t.keyColumn = some v) (own : v.looseEqual v = true) :
    ∃ i, (t.place (t.position? v) row).bump.position? v = some i ∧
      (t.place (t.position? v) row).bump.rows[i]? = some row := by
  have hit : t.addresses v row = true := by rw [addresses, held]; exact own
  cases place : t.position? v with
  | some i =>
      obtain ⟨lt, _, _⟩ := List.findIdx?_eq_some_iff_getElem.1 place
      exact ⟨i, findIdx?_set place hit, List.getElem?_set_self lt⟩
  | none => exact ⟨t.rows.length, findIdx?_append_singleton place hit, List.getElem?_concat_length⟩

end Table

/-! ### Operations under a key text -/

namespace Connection

/-- An upsert that succeeds does so on the table that statements see. -/
theorem upsert_of_seen {ctx : Context} {table : TableDef} {s : Session Connection} {t : Table} {row : Row}
    (seen : (contents s.now s.backend).table? table.name = some t)
    (done : (upsert ctx table row s).1 = .ok ()) :
    ∃ after, t.upsert row = .ok after ∧
      (contents s.now (upsert ctx table row s).2.backend).table? table.name = some after := by
  cases refused : s.refusal? ctx with
  | some e =>
      rw [upsert, Call.check_bind_of_refusal refused] at done
      cases done
  | none =>
      have wrote := wrote_upsert refused seen row
      cases put : t.upsert row with
      | error e =>
          rw [put] at wrote
          cases wrote.answer.symm.trans done
      | ok changed =>
          rw [put] at wrote
          exact ⟨changed, rfl, wrote.table () changed rfl⟩

/-- A delete takes the first row with the key out of the table that statements see, if there is one. -/
theorem delete_of_seen {ctx : Context} {table : TableDef} {s : Session Connection} {t : Table}
    (live : s.refusal? ctx = none) (seen : (contents s.now s.backend).table? table.name = some t)
    (key : Value) :
    (delete ctx table key s).1 =
        (match t.delete? key with
        | some _ => .ok ()
        | none => .error (rowNotFound table.name key)) ∧
      (contents s.now (delete ctx table key s).2.backend).table? table.name =
        some ((t.delete? key).getD t) ∧
      ∀ other ≠ table.name, (contents s.now (delete ctx table key s).2.backend).table? other =
        (contents s.now s.backend).table? other := by
  have wrote := wrote_delete live seen key
  cases gone : t.delete? key with
  | some after =>
      rw [gone] at wrote
      exact ⟨wrote.answer, wrote.table () after rfl, wrote.others⟩
  | none =>
      rw [gone] at wrote
      have kept := wrote.kept _ rfl
      exact ⟨wrote.answer, (congrArg (fun held => held.table? table.name) kept).trans seen, wrote.others⟩

end Connection

end Relational

namespace RecordTable

open Relational

variable {ρ : Type} {model : Model ρ} {table : TableDef} {ctx : Context} {s : Session Connection}
  {t : Table} {text : String} {key : Value}

/-- The table that statements see. -/
def seen? (table : TableDef) (s : Session Connection) : Option Table :=
  (Connection.contents s.now s.backend).table? table.name

theorem has_of_seen (seen : seen? table s = some t) (read : table.spec.key.keyOf text = .ok key)
    (live : s.refusal? ctx = none) :
    ((inMemory model table).has ctx text s).1 = .ok (t.position? key).isSome := by
  have addressed : (inMemory model table).spec.key.keyOf text = .ok key := read
  have answer := (Connection.visit_of_seen seen false fun t => (Except.ok (t.position? key).isSome, t)).1
  rw [has, underKey, addressed, Call.lift_ok, pure_bind, Call.check_bind_of_live live]
  show (Connection.has ctx table key s).1 = _
  rw [Connection.has, Call.check_bind_of_live live, Connection.read_apply]
  exact answer

theorem delete_of_live (idle : model.Hookless) (read : table.spec.key.keyOf text = .ok key)
    (live : s.refusal? ctx = none) :
    (inMemory model table).delete ctx text s = Connection.delete ctx table key s := by
  have addressed : (inMemory model table).spec.key.keyOf text = .ok key := read
  have bare : (inMemory model table).delete ctx text =
      (inMemory model table).underKey ctx text (Connection.delete ctx table) :=
    run_delete_of_hookless (t := inMemory model table) idle text
  rw [bare, underKey, addressed, Call.lift_ok, pure_bind, Call.check_bind_of_live live]

/-- Under a live context the text addresses the row of a record: a get reads the record, the row is said
to be there, and a delete takes this row out, and no other one of any table. -/
structure Addresses (model : Model ρ) (table : TableDef) (text : String) (record : ρ)
    (s : Session Connection) : Prop where
  get : ∀ ctx, s.refusal? ctx = none →
    ((inMemory model table).get ctx text s).1 = model.ofValue (model.toValue record)
  has : ∀ ctx, s.refusal? ctx = none → ((inMemory model table).has ctx text s).1 = .ok true
  delete : ∀ ctx, s.refusal? ctx = none →
    let deleted := (inMemory model table).delete ctx text s
    deleted.1 = .ok () ∧
      (∃ t i, seen? table s = some t ∧
        t.rows[i]? = some (rowOf table.spec (model.toValue record)) ∧
        (Connection.contents s.now deleted.2.backend).table? table.name =
          some ({ t with rows := t.rows.eraseIdx i } : Table).bump) ∧
      ∀ other ≠ table.name, (Connection.contents s.now deleted.2.backend).table? other =
        (Connection.contents s.now s.backend).table? other

/-- Under a live context the text addresses no row: neither a get nor a delete finds one, none is said to
be there, and nothing that is held changes. -/
structure Misses (model : Model ρ) (table : TableDef) (text : String) (s : Session Connection) :
    Prop where
  get : ∀ ctx, s.refusal? ctx = none →
    ∃ missing, ((inMemory model table).get ctx text s).1 = .error (.notFound missing)
  has : ∀ ctx, s.refusal? ctx = none → ((inMemory model table).has ctx text s).1 = .ok false
  delete : ∀ ctx, s.refusal? ctx = none →
    let deleted := (inMemory model table).delete ctx text s
    (∃ missing, deleted.1 = .error (.notFound missing)) ∧
      Connection.contents s.now deleted.2.backend = Connection.contents s.now s.backend

theorem addresses_of_position? (idle : model.Hookless) {record : ρ} {i : Nat}
    (described : table.spec.Describes (model.toValue record)) (seen : seen? table s = some t)
    (read : table.spec.key.keyOf text = .ok key) (place : t.position? key = some i)
    (held : t.rows[i]? = some (rowOf table.spec (model.toValue record))) :
    Addresses model table text record s where
  get ctx live := by
    have found : t.find? key = some (rowOf table.spec (model.toValue record)) := by
      rw [Table.find?, place, Option.bind_some, held]
    rw [get_of_seen idle seen read live, found]
    exact ofRow_rowOf (t := inMemory model table) described
  has ctx live := by rw [has_of_seen seen read live, place, Option.isSome_some]
  delete ctx live := by
    have gone : t.delete? key = some ({ t with rows := t.rows.eraseIdx i } : Table).bump :=
      Table.delete?_eq_some_iff.2 ⟨i, place, rfl⟩
    obtain ⟨answer, after, others⟩ := Connection.delete_of_seen live seen key
    rw [gone] at answer after
    dsimp only
    rw [delete_of_live idle read live]
    exact ⟨answer, ⟨t, i, seen, held, after⟩, others⟩

theorem misses_of_position? (idle : model.Hookless) (seen : seen? table s = some t)
    (read : table.spec.key.keyOf text = .ok key) (place : t.position? key = none) :
    Misses model table text s where
  get ctx live := by
    have lost : t.find? key = none := by rw [Table.find?, place, Option.bind_none]
    exact ⟨_, by rw [get_of_seen idle seen read live, lost]; rfl⟩
  has ctx live := by rw [has_of_seen seen read live, place, Option.isSome_none]
  delete ctx live := by
    have stays : t.delete? key = none := by rw [Table.delete?, place, Option.map_none]
    obtain ⟨answer, -⟩ := Connection.delete_of_seen live seen key
    rw [stays] at answer
    have failed : Connection.delete ctx table key s =
        (.error (rowNotFound table.name key), (Connection.delete ctx table key s).2) :=
      Prod.ext answer rfl
    dsimp only
    rw [delete_of_live idle read live]
    exact ⟨⟨_, answer⟩, ((Connection.sound.delete ctx table key).of_error failed).2⟩

theorem set_of_done (idle : model.Hookless) {record : ρ}
    (done : ((Write.set record).run (inMemory model table) ctx s).1 = .ok ()) :
    (Write.set record).run (inMemory model table) ctx s =
      Connection.upsert ctx table (rowOf table.spec (model.toValue record)) s := by
  have short : (Write.set record).run (inMemory model table) ctx = (do
      Call.check ctx
      let row ← Call.lift ((inMemory model table).toRow record)
      Connection.upsert ctx table row) :=
    run_set_of_hookless (t := inMemory model table) idle record
  rw [short] at done ⊢
  cases refused : s.refusal? ctx with
  | some e =>
      rw [Call.check_bind_of_refusal refused] at done
      cases done
  | none =>
      rw [Call.check_bind_of_live refused] at done
      obtain ⟨row, made, _⟩ := Call.of_lift_bind_eq_ok done
      have same : row = rowOf table.spec (model.toValue record) := toRow_eq_ok made
      rw [Call.check_bind_of_live refused, made, Call.lift_ok, pure_bind, same]

/-- A record without hooks that is saved is put in the place of its key, which is not null. -/
theorem seen?_of_set (idle : model.Hookless) {record : ρ} (seen : seen? table s = some t)
    (isOf : t.spec = table.spec)
    (done : ((Write.set record).run (inMemory model table) ctx s).1 = .ok ()) :
    (keyCell model table.spec record).isNull = false ∧
      (Connection.contents s.now ((Write.set record).run (inMemory model table) ctx s).2.backend).table?
          table.name =
        some (t.place (t.position? (keyCell model table.spec record))
          (rowOf table.spec (model.toValue record))).bump := by
  have same := set_of_done idle done
  rw [same] at done ⊢
  obtain ⟨after, put, later⟩ := Connection.upsert_of_seen seen done
  obtain ⟨normal, normalized, checked, rfl⟩ := Table.upsert_eq_ok_iff.1 put
  obtain rfl := normalize_rowOf isOf normalized
  have cell : Row.cell (rowOf table.spec (model.toValue record)) t.keyColumn =
      keyCell model table.spec record := by
    rw [Table.keyColumn, isOf]
    exact cell_rowOf table.spec.key_mem _
  have filled := (Table.admits_of_checkRow normalized checked).filled t.spec.key t.spec.key_mem
    (.inl t.spec.isKey_key)
  rw [show t.spec.key.column = t.keyColumn from rfl, cell] at filled
  rw [later, cell]
  exact ⟨filled, rfl⟩

variable {record : ρ} {later : Session Connection}

/-- A text that denotes the key of a saved record addresses its row, for keys other than bytes. -/
theorem addresses_of_set (idle : model.Hookless) (plain : (model.toValue record).Plain)
    (described : table.spec.Describes (model.toValue record)) (seen : seen? table s = some t)
    (isOf : t.spec = table.spec)
    (done : ((Write.set record).run (inMemory model table) ctx s).1 = .ok ())
    (same : later.backend = ((Write.set record).run (inMemory model table) ctx s).2.backend)
    (notBytes : table.spec.key.kind ≠ .bytes) (named : text ≠ "")
    (denotes : table.spec.key.kind.Denotes text (keyCell model table.spec record)) :
    Addresses model table text record later := by
  obtain ⟨-, after⟩ := seen?_of_set idle seen isOf done
  rw [← same] at after
  obtain ⟨key, read, sameKey⟩ := denotes.exists_readKey? notBytes (Value.plain_content plain _)
  have held : (rowOf table.spec (model.toValue record)).get? t.keyColumn =
      some (keyCell model table.spec record) := by
    rw [Table.keyColumn, isOf]
    exact get?_rowOf table.spec.key_mem _
  have own := sameKey.own
  rw [sameKey.others] at own
  obtain ⟨i, place, found⟩ := Table.exists_position?_place held own
  refine addresses_of_position? idle described after (FieldSpec.keyOf_eq_ok named read) ?_ found
  rw [Table.position?_congr sameKey, place]

/-- The key cells of all rows are of the kind of the key. -/
def KeysOfKind (spec : Spec) (t : Table) : Prop :=
  t.AllRows spec fun row => spec.key.kind.Takes (Row.cell row spec.key.column)

/-- No text addresses a row by a key of bytes. -/
theorem misses_of_set (idle : model.Hookless) (described : table.spec.Describes (model.toValue record))
    (seen : seen? table s = some t) (kinds : KeysOfKind table.spec t)
    (done : ((Write.set record).run (inMemory model table) ctx s).1 = .ok ())
    (same : later.backend = ((Write.set record).run (inMemory model table) ctx s).2.backend)
    (isBytes : table.spec.key.kind = .bytes) (named : text ≠ "") : Misses model table text later := by
  obtain ⟨filled, after⟩ := seen?_of_set idle seen kinds.isOf done
  rw [← same] at after
  have own : table.spec.key.kind.Takes
      (Row.cell (rowOf table.spec (model.toValue record)) table.spec.key.column) := by
    rw [cell_rowOf table.spec.key_mem]
    exact described.kinds _ table.spec.key_mem filled
  have all := Table.AllRows.place kinds own (t.position? (keyCell model table.spec record))
  have read : table.spec.key.keyOf text = .ok (.bytes (Text.Utf8.encode text)) :=
    FieldSpec.keyOf_eq_ok named (by rw [isBytes]; rfl)
  refine misses_of_position? idle after read (List.findIdx?_eq_none_iff.2 fun row mem => ?_)
  have takes := all.rows row mem
  rw [isBytes] at takes
  obtain ⟨b, cell⟩ := takes
  have column : (t.place (t.position? (keyCell model table.spec record))
      (rowOf table.spec (model.toValue record))).bump.keyColumn = table.spec.key.column := by
    show (t.place _ _).spec.key.column = _
    rw [all.isOf]
  rw [column]
  rw [Row.cell] at cell
  cases held : row.get? table.spec.key.column with
  | none => rfl
  | some v =>
      rw [held, Option.getD_some] at cell
      rw [cell]
      rfl

end RecordTable

open RecordTable Relational

/-- A record that its spec describes, of a type without hooks, is saved to a table in memory, direct or in
a transaction. Every text that denotes its key addresses its row, unless keys are bytes; then, in a table
all of whose keys are of their kind, no text addresses any row. Records with fixed fields are described by
the specs that list their fields, and a get reads the record that was saved exactly if all its numbers are
finite. -/
theorem key_text_addresses_row (table : TableDef) :
    (∀ {ρ : Type} (m : Model ρ) (ctx : Context) (record : ρ) (s later : Session Connection) (t : Table),
      m.Hookless → (m.toValue record).Plain →
      table.spec.Describes (m.toValue record) → seen? table s = some t → t.spec = table.spec →
      ((Write.set record).run (inMemory m table) ctx s).1 = .ok () →
      later.backend = ((Write.set record).run (inMemory m table) ctx s).2.backend →
        (table.spec.key.kind ≠ .bytes → ∀ text ≠ "",
          table.spec.key.kind.Denotes text (keyCell m table.spec record) →
            Addresses m table text record later) ∧
        (table.spec.key.kind = .bytes → KeysOfKind table.spec t → ∀ text ≠ "",
          Misses m table text later)) ∧
    ∀ (layout : Layout) (declaration : Declaration) (hooks : Hooks (Dict Cell)) (record : Dict Cell),
      (layout.map Prod.fst).Nodup → layout.Fits record →
        let m := layout.model declaration [] hooks
        (m.toValue record).Plain ∧
          (table.spec.Lists layout → table.spec.Describes (m.toValue record)) ∧
          (m.ofValue (m.toValue record) = .ok record ↔ Layout.IsFinite record) := by
  constructor
  · intro ρ m ctx record s later t idle plain described seen isOf done same
    constructor
    · intro notBytes text named denotes
      exact addresses_of_set idle plain described seen isOf done same notBytes named denotes
    · intro isBytes kinds text named
      exact misses_of_set idle described seen kinds done same isBytes named
  · intro layout declaration hooks record nodup fits m
    refine ⟨(Layout.isWritten_write record).plain, fun lists => lists.describes fits, ?_⟩
    rw [Layout.ofValue_toValue nodup fits declaration [] hooks]
    exact Layout.reread_eq_ok_iff

theorem key_text_addresses_row_orders :
    let placed := ((Write.set (Orders.order 1 "open")).run Orders.table Orders.context Orders.opened).2
    (Orders.table.get Orders.context "+01" placed).1 = .ok (Orders.order 1 "open") ∧
      (Orders.table.has Orders.context "+01" placed).1 = .ok true ∧
      (Orders.table.delete Orders.context "+01" placed).1 = .ok () := by
  intro placed
  obtain ⟨addresses, layouts⟩ := key_text_addresses_row Orders.table.table
  obtain ⟨fits, finite⟩ := Orders.legal_order 1 "open"
  obtain ⟨plain, described, same⟩ := layouts Orders.layout
    { typeName := "Order", package := Catalog.package, fields := Orders.spec.fields } {}
    (Orders.order 1 "open") (by decide) fits
  have named := (addresses Orders.model Orders.context (Orders.order 1 "open") Orders.opened placed
    { spec := Orders.spec } rfl plain (described Orders.lists) rfl rfl rfl rfl).1 (by decide) "+01"
      (by decide) rfl
  exact ⟨(named.get Orders.context rfl).trans (same.2 finite), named.has Orders.context rfl,
    (named.delete Orders.context rfl).1⟩

/-! ### Files under their digests -/

namespace Digests

def layout : Layout := [("digest", .bytes), ("title", .text)]

/-- Files are known by their digest. -/
def digest : FieldSpec := (FieldSpec.plain "digest" .bytes).asKey

def spec : Spec where
  typeName := "File"
  package := Catalog.package
  fields := [digest, .plain "title" .string]
  key := digest
  names_ne := by decide
  names_nodup := by decide
  columns_nodup := by decide
  keys_eq := rfl
  key_nullable := rfl

def model : Model (Dict Cell) :=
  layout.model { typeName := "File", package := Catalog.package, fields := spec.fields } [] {}

def table : RecordTable (Dict Cell) Connection := .inMemory model ⟨"files", spec⟩

/-- A file whose digest is the bytes of `ab`. -/
def file : Dict Cell := .ofList [("digest", .bytes [97, 98]), ("title", .text "t")]

/-- The session in which the file was saved to a table without rows. -/
def placed : Session Connection :=
  ((Write.set file).run table Orders.context
    { backend := ⟨{ tables := .ofList [("files", { spec })] }, none⟩ }).2

end Digests

/-- A file is saved, and its digest, written as a text, addresses nothing. -/
theorem bytes_key_not_addressed :
    FieldKind.bytes.Denotes "ab" (keyCell Digests.model Digests.spec Digests.file) ∧
      ((Digests.placed.backend.database.tables.get? "files").map fun t => t.rows.length) = some 1 ∧
      (Digests.table.get Orders.context "ab" Digests.placed).1 =
        .error (.notFound "files/Bytes([97, 98])") ∧
      (Digests.table.has Orders.context "ab" Digests.placed).1 = .ok false ∧
      (Digests.table.delete Orders.context "ab" Digests.placed).1 =
        .error (.notFound "files/Bytes([97, 98])") :=
  ⟨rfl, rfl, rfl, rfl, rfl⟩

end Depot
