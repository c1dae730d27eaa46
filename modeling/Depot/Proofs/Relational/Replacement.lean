import Depot.Proofs.Relational.Acceptance
import Depot.Proofs.Relational.KeyTexts
import Depot.Proofs.Value.Reflexive

/-!
# Upserts as replacements

An upsert puts a complete row in the place of a row with its key, or behind all others if there is none
(`Table.Replaced`). Keys of different kinds of numbers can be equal without being equal to the same
others, so a new key may meet several rows of a valid table. Then the row may not stand anywhere: it
would stand beside another row with its key. Where the table is valid with the row, there is only one
place for it (`Replaced.unique`), and the upsert, which takes the first one, puts it there.
-/

namespace Depot.Relational

namespace Table

variable {t after whole other : Table} {row full : Row} {key : Value}

/-- The tables in which a row replaces one with its key, or comes behind all rows if none has it. -/
inductive Replaced (t : Table) (row : Row) : Table → Prop
  | inPlace {i : Nat} {old : Row} (found : t.rows[i]? = some old)
      (same : (t.keyCell old).looseEqual (t.keyCell row) = true) : Replaced t row (t.place (some i) row)
  | appended (fresh : ∀ old ∈ t.rows, (t.keyCell old).looseEqual (t.keyCell row) = false) :
      Replaced t row (t.place none row)

/-- A row with a key is addressed by the values that its key equals. -/
theorem addresses_eq (held : row.contains t.keyColumn = true) (key : Value) :
    t.addresses key row = (t.keyCell row).looseEqual key := by
  obtain ⟨v, found⟩ := Option.isSome_iff_exists.1 held
  rw [addresses, keyCell, Row.cell, found, Option.getD_some]

theorem Valid.addresses_eq (valid : t.Valid) (mem : row ∈ t.rows) (key : Value) :
    t.addresses key row = (t.keyCell row).looseEqual key := by
  refine Table.addresses_eq (((valid.admits row mem).columns _).2 ?_) key
  exact List.mem_map_of_mem t.spec.key_mem

/-- No row of a valid table is null in its key. -/
theorem Valid.filled_key (valid : t.Valid) (mem : row ∈ t.rows) : (t.keyCell row).isNull = false :=
  (valid.admits row mem).filled t.spec.key t.spec.key_mem (.inl t.spec.isKey_key)

/-- No two rows of a valid table have the same key. -/
theorem Valid.apart_keys (valid : t.Valid) {i j : Nat} {a b : Row} (ne : i ≠ j)
    (ha : t.rows[i]? = some a) (hb : t.rows[j]? = some b) :
    (t.keyCell a).looseEqual (t.keyCell b) = false :=
  valid.apart t.spec.key t.spec.key_mem (.inl t.spec.isKey_key) i j a b ne ha hb
    (valid.filled_key (List.mem_of_getElem? ha)) (valid.filled_key (List.mem_of_getElem? hb))

/-- An upsert puts a row where it replaces one with its key, or where it comes last. -/
theorem Valid.replaced (valid : t.Valid) (row : Row) :
    t.Replaced row (t.place (t.position? (t.keyCell row)) row) := by
  cases found : t.position? (t.keyCell row) with
  | some i =>
      obtain ⟨lt, same, _⟩ := List.findIdx?_eq_some_iff_getElem.1 found
      exact .inPlace (List.getElem?_eq_getElem lt)
        ((valid.addresses_eq (List.getElem_mem lt) _).symm.trans same)
  | none =>
      exact .appended fun old mem =>
        (valid.addresses_eq mem _).symm.trans (List.findIdx?_eq_none_iff.1 found old mem)

/-- A row that replaces another one may replace no other: that one would still be there beside it. -/
theorem Replaced.unique (h : t.Replaced row whole) (valid : whole.Valid) (h' : t.Replaced row other) :
    other = whole := by
  cases h with
  | inPlace found same =>
      cases h' with
      | inPlace found' same' =>
          next i _ j old =>
          by_cases here : j = i
          · rw [here]
          · have inside := (List.getElem?_eq_some_iff.1 found).1
            have own : (t.place (some i) row).rows[i]? = some row := List.getElem?_set_self inside
            have left : (t.place (some i) row).rows[j]? = some old :=
              getElem?_place_of_ne found' fun eq => here (Option.some.inj eq).symm
            exact absurd (same'.symm.trans (valid.apart_keys here left own)) (by decide)
      | appended fresh => exact absurd (same.symm.trans (fresh _ (List.mem_of_getElem? found))) (by decide)
  | appended fresh =>
      cases h' with
      | inPlace found same => exact absurd (same.symm.trans (fresh _ (List.mem_of_getElem? found))) (by decide)
      | appended _ => rfl

/-- An upsert succeeds exactly if the table is valid with the completed row in it, and makes that
table. -/
theorem Valid.upsert_eq_ok_iff (valid : t.Valid) (h : t.Replaced (t.spec.complete row) whole) :
    t.upsert row = .ok after ↔ (t.spec.Knows row ∧ whole.Valid) ∧ after = whole.bump := by
  have put := valid.replaced (t.spec.complete row)
  have checks : (t.place (t.position? (t.keyCell (t.spec.complete row))) (t.spec.complete row)).Valid ↔
      t.checkRow (t.spec.complete row) (t.position? (t.keyCell (t.spec.complete row))) = .ok () := by
    refine valid_place_iff valid (Spec.contains_complete t.spec row) fun i found => ?_
    exact (List.findIdx?_eq_some_iff_getElem.1 found).1
  rw [Table.upsert_eq_ok_iff]
  constructor
  · intro done
    obtain ⟨full, normalized, checked, rfl⟩ := done
    obtain ⟨known, rfl⟩ := normalize_eq_ok_iff.1 normalized
    have placed := checks.2 checked
    rw [put.unique placed h]
    exact ⟨⟨known, placed⟩, rfl⟩
  · rintro ⟨⟨known, stands⟩, rfl⟩
    have here := h.unique stands put
    refine ⟨_, normalize_eq_ok_iff.2 ⟨known, rfl⟩, checks.1 (here ▸ stands), ?_⟩
    rw [← here]
    rfl

/-- After an upsert the completed row is what its key finds, unless there is a NaN in the key. -/
theorem find?_of_upsert (put : t.upsert row = .ok after)
    (number : (t.keyCell (t.spec.complete row)).hasNaN = false) :
    after.find? (t.keyCell (t.spec.complete row)) = some (t.spec.complete row) := by
  obtain ⟨full, normalized, _, rfl⟩ := Table.upsert_eq_ok_iff.1 put
  obtain ⟨_, rfl⟩ := normalize_eq_ok_iff.1 normalized
  have key : t.keyColumn ∈ t.spec.columns := List.mem_map_of_mem t.spec.key_mem
  have held : (t.spec.complete row).get? t.keyColumn = some (t.keyCell (t.spec.complete row)) := by
    rw [keyCell, Spec.cell_complete key, Spec.get?_complete, if_pos key]
  obtain ⟨i, found, own⟩ := exists_position?_place held ((Value.looseEqual_self_iff _).2 number)
  rw [find?, show Row.cell (t.spec.complete row) t.keyColumn = t.keyCell (t.spec.complete row) from rfl,
    found]
  exact own

end Table

variable {ctx : Context} {table : TableDef} {s : Session Connection} {t : Table}

/-- In a valid table an upsert of a row replaces the row with its key as a whole, or adds it behind all
others, and leaves the other rows where they are. It succeeds exactly if the table knows the row's
columns and is valid with it. Then the row is found under its key, completed by nulls, unless there
is a NaN in the key. Otherwise the error says which rule the row breaks, and nothing has changed. -/
theorem upsert_replaces_row (live : s.refusal? ctx = none)
    (seen : (Connection.contents s.now s.backend).table? table.name = some t) (valid : t.Valid)
    (row : Row) :
    let full := t.spec.complete row
    let r := Connection.upsert ctx table row s
    let later := Connection.contents r.2.now r.2.backend
    (∃ whole, t.Replaced full whole) ∧ ∀ whole, t.Replaced full whole →
      (r.1 = .ok () ↔ t.spec.Knows row ∧ whole.Valid) ∧
      (r.1 = .ok () → later.table? table.name = some whole.bump ∧
        (∀ other ≠ table.name,
          later.table? other = (Connection.contents s.now s.backend).table? other) ∧
        ((t.keyCell full).hasNaN = false →
          (Connection.get ctx table (t.keyCell full) r.2).1 = .ok full)) ∧
      ∀ e, r.1 = .error e →
        Table.isBreach e = true ∧ later = Connection.contents s.now s.backend := by
  intro full r later
  have wrote : Connection.Wrote s table.name ((t.upsert row).map fun t => ((), t)) r :=
    Connection.wrote_upsert live seen row
  refine ⟨⟨_, valid.replaced full⟩, fun whole replaced => ?_⟩
  have succeeds {after : Table} : t.upsert row = .ok after ↔
      (t.spec.Knows row ∧ whole.Valid) ∧ after = whole.bump := valid.upsert_eq_ok_iff replaced
  cases put : t.upsert row with
  | ok after =>
      rw [put] at wrote
      obtain ⟨accepted, rfl⟩ := succeeds.1 put
      have placed := wrote.table () whole.bump rfl
      refine ⟨⟨fun _ => accepted, fun _ => wrote.answer⟩, fun _ => ⟨placed, wrote.others, ?_⟩, ?_⟩
      · intro number
        have live' : r.2.refusal? ctx = none := by rw [wrote.refusal, live]
        have own : whole.bump.find? (t.keyCell full) = some full := Table.find?_of_upsert put number
        rw [Connection.get_of_seen live' placed, own]
      · intro e failed
        cases wrote.answer.symm.trans failed
  | error e =>
      rw [put] at wrote
      have failed : r.1 = .error e := wrote.answer
      refine ⟨⟨fun done => ?_, fun accepted => ?_⟩, fun done => ?_, fun e' failed' => ?_⟩
      · cases failed.symm.trans done
      · cases put.symm.trans (succeeds.2 ⟨accepted, rfl⟩)
      · cases failed.symm.trans done
      · cases failed.symm.trans failed'
        exact ⟨Table.isBreach_of_upsert put, wrote.kept e rfl⟩

/-- A row whose key is the same number of another kind takes the place of the whole ticket. -/
theorem upsert_replaces_row_tickets :
    let row : Row := .ofList [("number", .float (.ofInt 1)), ("holder", .string "c")]
    let full := Tickets.ticket (.float (.ofInt 1)) .null "c"
    let r := Connection.upsert Tickets.context Tickets.table row (Tickets.holding Tickets.sold)
    r.1 = .ok () ∧
      (Connection.contents r.2.now r.2.backend).table? "tickets" =
        some { Tickets.sold with rows := [full, Tickets.ticket (.integer 2) .null "b"], version := 3 } ∧
      (Connection.get Tickets.context Tickets.table (.float (.ofInt 1)) r.2).1 = .ok full := by
  intro row full r
  have seen : (Connection.contents 0 (Tickets.holding Tickets.sold).backend).table?
    Tickets.table.name = some Tickets.sold := rfl
  have completed : Tickets.sold.spec.complete row = full := rfl
  have first : Tickets.sold.rows[0]? = some (Tickets.ticket (.integer 1) (.integer 7) "a") := rfl
  have replaced : Tickets.sold.Replaced full (Tickets.sold.place (some 0) full) :=
    .inPlace first (by decide +kernel)
  have live : (Tickets.holding Tickets.sold).refusal? Tickets.context = none := rfl
  obtain ⟨-, replacing⟩ := upsert_replaces_row live seen Tickets.valid_sold row
  rw [completed] at replacing
  obtain ⟨-, changed, -⟩ := replacing _ replaced
  have done : r.1 = .ok () := by decide +kernel
  obtain ⟨placed, -, found⟩ := changed done
  exact ⟨done, placed, found rfl⟩

/-- A number that two keys are rounded to meets both of their tickets and replaces neither. -/
example :
    let rows := [Tickets.ticket (.integer (2 ^ 53)) .null "a",
      Tickets.ticket (.integer (2 ^ 53 + 1)) .null "b"]
    let row := Tickets.ticket (.float (.ofInt (2 ^ 53))) .null "c"
    (Connection.upsert Tickets.context Tickets.table row
        (Tickets.holding { spec := Tickets.table.spec, rows })).1 =
      .error (.duplicate "column 'number' already holds Float(9007199254740992.0)") := by
  decide +kernel

end Depot.Relational
