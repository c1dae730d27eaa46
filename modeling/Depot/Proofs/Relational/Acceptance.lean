import Depot.Proofs.Dict.Lookup
import Depot.Proofs.Relational.Constraints

/-!
# Which rows a table accepts

Before its checks a row is completed: it gets all columns of the table, null where it says nothing. The
checks look at one row only, against the others. In a valid table they pass exactly if the table is
still valid with the row at its place (`valid_place_iff`), whatever was at the place before.
-/

namespace Depot

namespace Spec

/-- A row of all columns: what the row says, and null where it says nothing. -/
def complete (spec : Spec) (row : Row) : Row :=
  .ofList (spec.columns.map fun column => (column, Row.cell row column))

/-- A row says nothing in columns that are not declared. -/
def Knows (spec : Spec) (row : Row) : Prop :=
  ∀ column, row.contains column = true → column ∈ spec.columns

variable {spec : Spec} {row : Row} {column : String}

theorem get?_complete (spec : Spec) (row : Row) (column : String) :
    (spec.complete row).get? column =
      if column ∈ spec.columns then some (Row.cell row column) else none := by
  have nodup : ((spec.columns.map fun column => (column, Row.cell row column)).map Prod.fst).Nodup := by
    rw [List.map_map]
    exact (List.map_id spec.columns).symm ▸ spec.columns_nodup
  rw [complete, Dict.get?_ofList nodup]
  split
  · next mem => exact Entries.lookup_of_mem_of_nodup nodup (List.mem_map.2 ⟨column, mem, rfl⟩)
  · next absent =>
      rw [Option.eq_none_iff_forall_ne_some]
      intro v found
      obtain ⟨own, mem, same⟩ := List.mem_map.1 (Entries.mem_of_lookup found)
      cases same
      exact absent mem

theorem cell_complete (mem : column ∈ spec.columns) :
    Row.cell (spec.complete row) column = Row.cell row column := by
  rw [Row.cell, get?_complete, if_pos mem, Option.getD_some]

theorem contains_complete (spec : Spec) (row : Row) (column : String) :
    (spec.complete row).contains column = true ↔ column ∈ spec.columns := by
  rw [Dict.contains, get?_complete]
  split <;> simp [*]

/-- A row of exactly the columns is complete. -/
theorem complete_eq_self (whole : ∀ column, row.contains column = true ↔ column ∈ spec.columns) :
    spec.complete row = row := by
  apply Dict.ext_get?
  intro column
  rw [get?_complete]
  split
  · next mem =>
      obtain ⟨v, held⟩ := Option.isSome_iff_exists.1 ((whole column).2 mem)
      rw [Row.cell, held, Option.getD_some]
  · next absent =>
      have missing : row.contains column = false := by
        rw [Bool.eq_false_iff]
        exact fun held => absent ((whole column).1 held)
      exact (Option.isSome_eq_false_iff.1 missing |> Option.isNone_iff_eq_none.1).symm

theorem isSome_fieldByColumn?_iff :
    (spec.fieldByColumn? column).isSome = true ↔ column ∈ spec.columns := by
  simp [fieldByColumn?, columns]

end Spec

namespace Relational.Table

variable {t : Table} {row normal : Row} {slot : Option Nat}

/-- A table takes in the rows of its columns, completed. -/
theorem normalize_eq_ok_iff :
    t.normalize row = .ok normal ↔ t.spec.Knows row ∧ normal = t.spec.complete row := by
  have whole : t.spec.complete row =
      .ofList (t.spec.fields.map fun f => (f.column, Row.cell row f.column)) := by
    rw [Spec.complete, Spec.columns, List.map_map]
    rfl
  have known : t.spec.Knows row ↔
      row.keys.find? (fun column => (t.spec.fieldByColumn? column).isNone) = none := by
    rw [List.find?_eq_none]
    simp only [Option.isNone_iff_eq_none, ← Option.not_isSome_iff_eq_none,
      Spec.isSome_fieldByColumn?_iff, Decidable.not_not, Dict.mem_keys_iff]
    rfl
  rw [known, whole, normalize]
  cases row.keys.find? fun column => (t.spec.fieldByColumn? column).isNone with
  | none => simp [eq_comm]
  | some column => simp

/-- A complete row is taken in as it is. -/
theorem normalize_of_columns
    (whole : ∀ column, row.contains column = true ↔ column ∈ t.spec.columns) :
    t.normalize row = .ok row :=
  normalize_eq_ok_iff.2 ⟨fun column held => (whole column).1 held, (Spec.complete_eq_self whole).symm⟩

/-- A row may stand at a place: it has a value where one is required, and it is apart from all rows
that stand at other places. -/
structure Accepts (t : Table) (slot : Option Nat) (row : Row) : Prop where
  filled : ∀ f ∈ t.spec.fields, f.isKey = true ∨ f.notNull = true ∨ f.nullable = false →
    (Row.cell row f.column).isNull = false
  apart : ∀ f ∈ t.spec.fields, Distinguishes f → ∀ (i : Nat) (other : Row),
    t.rows[i]? = some other → slot ≠ some i → Apart f.column other row

theorem checkRow_eq_ok_iff : t.checkRow row slot = .ok () ↔ t.Accepts slot row := by
  constructor
  · intro checked
    exact ⟨fun f mem => (checkField_eq_ok_iff.1 (Fallible.forM_eq_ok_iff.1 checked f mem)).1,
      fun f mem distinguishes i other found notSlot =>
        apart_of_checkRow checked mem distinguishes found notSlot⟩
  · intro accepted
    refine Fallible.forM_eq_ok_iff.2 fun f mem => checkField_eq_ok_iff.2 ⟨accepted.filled f mem, ?_⟩
    intro distinguishes filled
    rw [isTaken_eq_false_iff]
    intro i other found notSlot w held
    have cell : Row.cell other f.column = w := by rw [Row.cell, held, Option.getD_some]
    cases null : w.isNull with
    | true =>
        -- Null equals nothing but null.
        rw [Value.isNull_eq_true_iff.1 null]
        cases v : Row.cell row f.column with
        | null =>
            rw [v] at filled
            cases filled
        | _ => rfl
    | false =>
        rw [← cell] at null ⊢
        exact accepted.apart f mem distinguishes i other found notSlot null filled

/-- The row that was put in is at its place. -/
theorem getElem?_place_self (inside : ∀ i, slot = some i → i < t.rows.length) :
    (t.place slot row).rows[slot.getD t.rows.length]? = some row := by
  cases slot with
  | none => exact List.getElem?_concat_length
  | some i => exact List.getElem?_set_self (inside i rfl)

/-- The other rows are where they were. -/
theorem getElem?_place_of_ne {i : Nat} {other : Row} (found : t.rows[i]? = some other)
    (notSlot : slot ≠ some i) : (t.place slot row).rows[i]? = some other := by
  cases slot with
  | none =>
      have inside := (List.getElem?_eq_some_iff.1 found).1
      exact (List.getElem?_append_left inside).trans found
  | some k =>
      have apart : k ≠ i := fun same => notSlot (congrArg some same)
      exact (List.getElem?_set_ne apart).trans found

/-- A complete row passes the checks of a valid table exactly if the table is valid with it. -/
theorem valid_place_iff (valid : t.Valid)
    (whole : ∀ column, row.contains column = true ↔ column ∈ t.spec.columns)
    (inside : ∀ i, slot = some i → i < t.rows.length) :
    (t.place slot row).Valid ↔ t.checkRow row slot = .ok () := by
  constructor
  · intro after
    have own : (t.place slot row).rows[slot.getD t.rows.length]? = some row :=
      getElem?_place_self inside
    rw [checkRow_eq_ok_iff]
    constructor
    · intro f mem
      have admitted := after.admits row (List.mem_of_getElem? own)
      rw [spec_place] at admitted
      exact admitted.filled f mem
    · intro f mem distinguishes i other found notSlot
      have elsewhere : i ≠ slot.getD t.rows.length := by
        cases slot with
        | none =>
            have lt := (List.getElem?_eq_some_iff.1 found).1
            rw [Option.getD_none]
            omega
        | some k => exact fun same => notSlot (congrArg some same.symm)
      rw [← spec_place t slot row] at mem
      exact after.apart f mem distinguishes i _ other row elsewhere
        (getElem?_place_of_ne found notSlot) own
  · intro checked
    exact valid.place (normalize_of_columns whole) checked

end Relational.Table

/-! ### A table to try things on -/

namespace Tickets

open Relational

/-- Tickets are numbered, no two of them are for the same seat, and some are for none. -/
def table : TableDef where
  name := "tickets"
  spec := {
    typeName := "Ticket"
    package := ""
    fields := [(FieldSpec.plain "number" .integer).asKey, (FieldSpec.plain "seat" .float).orNull.asUnique,
      .plain "holder" .string]
    key := (FieldSpec.plain "number" .integer).asKey
    names_ne := by decide
    names_nodup := by decide
    columns_nodup := by decide
    keys_eq := rfl
    key_nullable := rfl }

def ticket (number seat : Value) (holder : String) : Row :=
  .ofList [("number", number), ("seat", seat), ("holder", .string holder)]

/-- A table into which two tickets were put. -/
theorem valid_of_two {t u : Table} (a b : Row) (first : ({ spec := table.spec } : Table).upsert a = .ok t)
    (second : t.upsert b = .ok u) : u.Valid :=
  ((Table.Valid.empty table.spec).upsert first).upsert second

/-- Two tickets, one of them without a seat. -/
def sold : Table where
  spec := table.spec
  rows := [ticket (.integer 1) (.integer 7) "a", ticket (.integer 2) .null "b"]
  version := 2

theorem valid_sold : sold.Valid :=
  valid_of_two (ticket (.integer 1) (.integer 7) "a") (ticket (.integer 2) .null "b") rfl rfl

/-- A session with a table of tickets. -/
def holding (t : Table) : Session Connection :=
  { backend := ⟨{ tables := .ofList [(table.name, t)] }, none⟩ }

def context : Context := ⟨0, none⟩

end Tickets

end Depot
