import Depot.Proofs.Json.Number
import Depot.Proofs.Record.Described
import Depot.Proofs.Relational.Connection
import Depot.Proofs.Relational.Constraints
import Depot.Proofs.Relational.Hookless
import Depot.Proofs.Relational.Keys
import Depot.Proofs.Session.History

/-!
# What a table of records holds

A table in memory, direct or inside a transaction, used through the typed view of records without hooks,
holds under every key the row of the record that its writes noted under the key (`Holds`). The notes are
kept under the key cells that the records write, and a get looks under the cell that its text stands for;
the two meet if the key is a text or a whole number (`FieldSpec.IsDiscrete`) and the records are described
by the spec.
-/

namespace Depot

/-- The field holds a text or a whole number. -/
def FieldSpec.IsDiscrete (f : FieldSpec) : Prop := f.kind = .string ∨ f.kind = .integer

theorem FieldSpec.IsDiscrete.of_takes {f : FieldSpec} (h : f.IsDiscrete) {v : Value}
    (takes : f.kind.Takes v) : v.isDiscrete = true := by
  rcases h with kind | kind <;> rw [kind] at takes <;> cases v <;>
    first | rfl | exact takes.elim

/-- A text that addresses rows by a discrete key stands for a discrete value. -/
theorem FieldSpec.IsDiscrete.of_keyOf {f : FieldSpec} (h : f.IsDiscrete) {text : String} {v : Value}
    (read : f.keyOf text = .ok v) : v.isDiscrete = true := by
  rw [keyOf, Fallible.bind_eq_ok_iff] at read
  obtain ⟨_, _, read⟩ := read
  rcases h with kind | kind
  · rw [kind] at read
    cases read
    rfl
  · rw [kind, FieldKind.readKey?] at read
    cases whole : (Literal.int? text).bind Value.ofInt? with
    | none =>
        rw [whole] at read
        cases read
    | some w =>
        rw [whole] at read
        cases read
        obtain ⟨i, _, made⟩ := Option.bind_eq_some_iff.1 whole
        rw [Value.ofInt?] at made
        split at made
        · cases made
          rfl
        · split at made <;> cases made
          rfl

/-- A text that is not empty stands for the value that its kind reads. -/
theorem FieldSpec.keyOf_eq_ok {f : FieldSpec} {text : String} {key : Value} (named : text ≠ "")
    (read : f.kind.readKey? text = some key) : f.keyOf text = .ok key := by
  have passed : checkKey text = .ok () := if_neg named
  simp only [keyOf, passed, read]
  rfl

/-- The text of a discrete key addresses its row. -/
theorem FieldSpec.IsDiscrete.keyOf_keyText {f : FieldSpec} (h : f.IsDiscrete) {v : Value}
    (takes : f.kind.Takes v) (plain : v.Plain) (filled : v.keyText ≠ "") : f.keyOf v.keyText = .ok v := by
  refine keyOf_eq_ok filled ?_
  rcases h with kind | kind <;> rw [kind] at takes ⊢
  · cases v with
    | string text => rw [FieldKind.readKey?, Value.keyText]
    | _ => exact takes.elim
  · cases v with
    | integer i =>
        rw [FieldKind.readKey?, Value.keyText, Literal.int?_toString, Option.bind_some,
          Json.ofInt?_toInt]
    | uinteger u =>
        rw [FieldKind.readKey?, Value.keyText, show toString u.toNat = toString (u.toNat : Int) from rfl,
          Literal.int?_toString, Option.bind_some, Json.ofInt?_toNat plain]
    | _ => exact takes.elim

namespace Relational.Connection

variable {c : Connection} {now : Time} {name : String} {t : Table} {α : Type}

/-- A visit changes the table that statements see, and answers from it. -/
theorem visit_of_seen (seen : (contents now c).table? name = some t) (isWrite : Bool)
    (f : Table → Except Error α × Table) :
    (c.visit name isWrite f).1 = (f t).1 ∧
      (contents now (c.visit name isWrite f).2).table? name = some (f t).2 := by
  obtain ⟨db, tx⟩ := c
  cases tx with
  | none =>
      have found : db.tables.get? name = some t := seen
      simp [visit, Database.visit, found, contents]
  | some tx =>
      have viewed : tx.view db name = some t := seen
      rw [Transaction.view_eq, Option.map_eq_some_iff] at viewed
      obtain ⟨copy, worked, rfl⟩ := viewed
      simp [visit, Transaction.visit, Transaction.copyOf_eq, worked, contents, Transaction.view]

/-- A visit of one table changes nothing of what statements see of the others. -/
theorem table?_visit_of_ne {other : String} (ne : other ≠ name) (isWrite : Bool)
    (f : Table → Except Error α × Table) :
    (contents now (c.visit name isWrite f).2).table? other = (contents now c).table? other := by
  obtain ⟨db, tx⟩ := c
  cases tx with
  | none =>
      cases found : db.tables.get? name with
      | none => simp [visit, Database.visit, found, contents]
      | some t => simp [visit, Database.visit, found, contents, Dict.get?_insert_of_ne _ ne]
  | some tx =>
      cases worked : tx.working? db name with
      | none => simp [visit, Transaction.visit, Transaction.copyOf_eq, worked, contents]
      | some copy =>
          simp [visit, Transaction.visit, Transaction.copyOf_eq, worked, contents, Transaction.view,
            Dict.get?_insert_of_ne _ ne]

/-- What a write comes to that makes something of a table of a name, or fails on it. -/
structure Wrote (s : Session Connection) (name : String) (result : Except Error (α × Table))
    (r : Except Error α × Session Connection) : Prop where
  answer : r.1 = result.map Prod.fst
  table : ∀ a after, result = .ok (a, after) →
    (contents r.2.now r.2.backend).table? name = some after
  others : ∀ other ≠ name,
    (contents r.2.now r.2.backend).table? other = (contents s.now s.backend).table? other
  kept : ∀ e, result = .error e → contents r.2.now r.2.backend = contents s.now s.backend
  refusal : r.2.refusal? = s.refusal?

/-- A write in a live context does to the table that statements see what it does to a table. -/
theorem wrote_of_seen {ctx : Context} {s : Session Connection} {f : Table → Except Error (α × Table)}
    (live : s.refusal? ctx = none) (seen : (contents s.now s.backend).table? name = some t)
    (early : ∀ t, Early (f t)) :
    Wrote s name (f t) ((Call.under ctx fun _ c => visit c name true fun t => t.settle (f t)) s) := by
  rw [Call.under_of_live _ live]
  obtain ⟨answer, after⟩ := visit_of_seen seen true fun t => t.settle (f t)
  have settled : (t.settle (f t)).1 = (f t).map Prod.fst := by cases f t <;> rfl
  constructor
  · exact answer.trans settled
  · intro a changed done
    rw [done] at after
    exact after
  · intro other ne
    exact table?_visit_of_ne ne true _
  · intro e failed
    refine (allOrNothing_write name early s.now s.backend e ?_).2
    rw [answer, settled, failed]
    rfl
  · rfl

section

variable {ctx : Context} {table : TableDef} {s : Session Connection}

theorem wrote_upsert (live : s.refusal? ctx = none)
    (seen : (contents s.now s.backend).table? table.name = some t) (row : Row) :
    Wrote s table.name ((t.upsert row).map fun t => ((), t)) (upsert ctx table row s) := by
  rw [upsert_eq]
  exact wrote_of_seen live seen (early_upsert row)

theorem wrote_delete (live : s.refusal? ctx = none)
    (seen : (contents s.now s.backend).table? table.name = some t) (key : Value) :
    Wrote s table.name (match t.delete? key with
      | some t => .ok ((), t)
      | none => .error (rowNotFound table.name key)) (delete ctx table key s) := by
  rw [delete_eq]
  exact wrote_of_seen live seen (early_delete table key)

theorem wrote_update (live : s.refusal? ctx = none)
    (seen : (contents s.now s.backend).table? table.name = some t) (u : BoundUpdate) :
    Wrote s table.name (t.update u) (update ctx table u s) := by
  rw [update_eq]
  exact wrote_of_seen live seen (early_update u)

end

/-- A write keeps the connection with its notes if the change keeps the table it sees with them. -/
theorem adds_write {κ β : Type} {Q : Table → Notes κ β → Prop} {notes : Time → Notes κ β}
    {ctx : Context} {f : Table → Except Error (α × Table)}
    (h : ∀ t past a changed now, f t = .ok (a, changed) → Q t past → Q changed (past ++ notes now)) :
    (Call.under ctx fun _ c => visit c name true fun t => t.settle (f t)).Adds
      (fun now c past => ∃ t, (contents now c).table? name = some t ∧ Q t past) notes := by
  refine Call.adds_under fun now c past related => ?_
  obtain ⟨t, seen, kept⟩ := related
  obtain ⟨answer, after⟩ := visit_of_seen seen true fun t => t.settle (f t)
  rcases visited : c.visit name true fun t => t.settle (f t) with ⟨result, later⟩
  rw [visited] at answer after
  cases changed : f t with
  | error e =>
      rw [changed] at answer after
      cases answer
      exact ⟨t, after, kept⟩
  | ok r =>
      rw [changed] at answer after
      cases answer
      exact ⟨r.2, after, h t past r.1 r.2 now changed kept⟩

/-- A get answers from the table that statements see. -/
theorem get_of_seen {ctx : Context} {table : TableDef} {s : Session Connection}
    (live : s.refusal? ctx = none) (seen : (contents s.now s.backend).table? table.name = some t)
    (key : Value) :
    (get ctx table key s).1 =
      match t.find? key with
      | some row => .ok row
      | none => .error (rowNotFound table.name key) := by
  rw [get, Call.check_bind_of_live live, read_apply]
  exact (visit_of_seen seen false _).1

end Relational.Connection

namespace RecordTable

open Relational

variable {ρ : Type}

/-- A table in memory. -/
def inMemory (model : Model ρ) (table : TableDef) : RecordTable ρ Connection :=
  ⟨model, table, Connection.executor⟩

/-- The row of a value: what it holds in every declared field, in the column of the field. -/
def rowOf (spec : Spec) (v : Value) : Row :=
  .ofList (spec.fields.map fun f => (f.column, v.content f.name))

theorem toRow_eq_ok {σ : Type} {t : RecordTable ρ σ} {record : ρ} {row : Row}
    (h : t.toRow record = .ok row) : row = rowOf t.spec (t.model.toValue record) := by
  rw [toRow, Fallible.bind_eq_ok_iff] at h
  obtain ⟨members, passed, filled⟩ := h
  obtain ⟨whole, _⟩ := Atom.recordMembers_eq_ok_iff.1 passed
  cases filled
  rw [whole]
  rfl

variable {spec : Spec} {v : Value}

theorem get?_rowOf {f : FieldSpec} (mem : f ∈ spec.fields) (v : Value) :
    (rowOf spec v).get? f.column = some (v.content f.name) := by
  have nodup : ((spec.fields.map fun f => (f.column, v.content f.name)).map Prod.fst).Nodup := by
    rw [List.map_map]
    exact spec.columns_nodup
  rw [rowOf, Dict.get?_ofList nodup]
  exact Entries.lookup_of_mem_of_nodup nodup (List.mem_map.2 ⟨f, mem, rfl⟩)

theorem cell_rowOf {f : FieldSpec} (mem : f ∈ spec.fields) (v : Value) :
    Row.cell (rowOf spec v) f.column = v.content f.name := by
  rw [Row.cell, get?_rowOf mem]
  rfl

/-- A row with all columns is not changed by being put into form. -/
theorem normalize_rowOf {t : Table} {normal : Row} (same : t.spec = spec)
    (h : t.normalize (rowOf spec v) = .ok normal) : normal = rowOf spec v := by
  subst same
  rw [Table.normalize] at h
  split at h
  · cases h
  · cases h
    refine congrArg Dict.ofList (List.map_congr_left fun f mem => ?_)
    rw [cell_rowOf mem]

/-- The record of a row is the one whose value the row is of. -/
theorem ofRow_rowOf {σ : Type} {t : RecordTable ρ σ} (described : t.spec.Describes v) :
    t.ofRow (rowOf t.spec v) = t.model.ofValue v := by
  have same : t.spec.fields.map (fun f => (f.name, Row.cell (rowOf t.spec v) f.column)) =
      t.spec.fields.map fun f => (f.name, v.content f.name) :=
    List.map_congr_left fun f mem => by rw [cell_rowOf mem]
  rw [ofRow, same, described.eq_ofDict]

/-! ### Notes -/

variable {model : Model ρ} {table : TableDef} {ctx : Context}

/-- The key cell of a record. -/
def keyCell (model : Model ρ) (spec : Spec) (record : ρ) : Value :=
  (model.toValue record).content spec.key.name

/-- What a write notes of keys. An update names no key, and nothing is noted of it. -/
def Write.notes (model : Model ρ) (spec : Spec) : Write ρ → Notes Value (Kept ρ)
  | set record => [(keyCell model spec record, some ⟨record, none⟩)]
  | delete text =>
    match spec.key.keyOf text with
    | .ok v => [(v, none)]
    | .error _ => []
  | update _ _ => []

/-- The write is a delete, or it saves a record that the spec describes. -/
def Write.IsKeyed (model : Model ρ) (spec : Spec) : Write ρ → Prop
  | set record => spec.Describes (model.toValue record)
  | delete _ => True
  | update _ _ => False

/-- The row that is kept of a record. -/
def rowFor (model : Model ρ) (spec : Spec) (kept : Kept ρ) : Row :=
  rowOf spec (model.toValue kept.record)

/-- A table with the rows that were noted, over those of before. -/
structure Stocks (model : Model ρ) (spec : Spec) (base : Value → Option Row) (t : Table)
    (past : Notes Value (Kept ρ)) : Prop where
  isOf : t.spec = spec
  keyed : t.Keyed
  rows : ∀ v : Value, v.isDiscrete = true →
    t.find? v = (past.map (rowFor model spec)).stands (fun key => key.equal v) (base v)

/-- Statements see a table with the rows that were noted. -/
def Holds (model : Model ρ) (table : TableDef) (base : Value → Option Row) (now : Time) (c : Connection)
    (past : Notes Value (Kept ρ)) : Prop :=
  ∃ t, (Connection.contents now c).table? table.name = some t ∧ Stocks model table.spec base t past

theorem Holds.later {base : Value → Option Row} (now later : Time) (c : Connection)
    (past : Notes Value (Kept ρ)) (_ : now ≤ later) (h : Holds model table base now c past) :
    Holds model table base later c past := h

variable {base : Value → Option Row}

namespace Stocks

variable {t changed : Table} {past : Notes Value (Kept ρ)}

/-- The row of a described record that was put in is noted under its key cell. -/
theorem upsert (h : Stocks model spec base t past) (discrete : spec.key.IsDiscrete) {record : ρ}
    (described : spec.Describes (model.toValue record))
    (put : t.upsert (rowOf spec (model.toValue record)) = .ok changed) :
    Stocks model spec base changed (past ++ [(keyCell model spec record, some ⟨record, none⟩)]) := by
  obtain ⟨normal, normalized, checked, rfl⟩ := Table.upsert_eq_ok_iff.1 put
  obtain rfl := normalize_rowOf h.isOf normalized
  have cell : t.keyCell (rowOf spec (model.toValue record)) = keyCell model spec record := by
    rw [Table.keyCell, Table.keyColumn, h.isOf]
    exact cell_rowOf spec.key_mem _
  have own : (t.keyCell (rowOf spec (model.toValue record))).isDiscrete = true := by
    rw [cell]
    apply discrete.of_takes
    apply described.kinds _ spec.key_mem
    have filled := (Table.admits_of_checkRow normalized checked).filled t.spec.key t.spec.key_mem
      (.inl t.spec.isKey_key)
    rw [h.isOf, cell_rowOf spec.key_mem] at filled
    exact filled
  constructor
  · show (t.place _ _).spec = _
    rw [Table.spec_place, h.isOf]
  · exact h.keyed.place own
  · intro v isDiscrete
    refine (Table.find?_place h.keyed own isDiscrete).trans ?_
    rw [h.rows v isDiscrete, cell, Notes.map_append, Notes.stands_append]
    rfl

/-- A row that was deleted is noted as gone. -/
theorem delete (h : Stocks model spec base t past) {key : Value} (isDiscrete : key.isDiscrete = true)
    (deleted : t.delete? key = some changed) :
    Stocks model spec base changed (past ++ [(key, none)]) := by
  constructor
  · obtain ⟨i, _, rfl⟩ := Table.delete?_eq_some_iff.1 deleted
    exact h.isOf
  · exact h.keyed.delete deleted
  · intro v also
    rw [Table.find?_delete h.keyed isDiscrete also deleted, h.rows v also, Notes.map_append,
      Notes.stands_append]
    rfl

end Stocks

/-- Every write but an update keeps the table with its notes. -/
theorem adds_run (ctx : Context) (h : model.Hookless) (discrete : table.spec.key.IsDiscrete) (w : Write ρ)
    (keyed : w.IsKeyed model table.spec) :
    (w.run (inMemory model table) ctx).Adds (Holds model table base)
      fun _ => w.notes model table.spec := by
  have idle : (inMemory model table).model.Hookless := h
  cases w with
  | set record =>
      rw [run_set_of_hookless idle]
      refine Call.adds_check_bind (Call.adds_lift_bind fun row made => ?_)
      obtain rfl := toRow_eq_ok made
      show Call.Adds _ (Connection.upsert ctx table (rowOf table.spec (model.toValue record))) _
      rw [Connection.upsert_eq]
      refine Connection.adds_write fun t past _ changed now put stocks => ?_
      cases inserted : t.upsert (rowOf table.spec (model.toValue record)) with
      | error e =>
          rw [inserted] at put
          cases put
      | ok after =>
          rw [inserted] at put
          cases put
          exact stocks.upsert discrete keyed inserted
  | delete text =>
      rw [run_delete_of_hookless idle]
      refine Call.adds_lift_bind fun key read => Call.adds_check_bind ?_
      have read : table.spec.key.keyOf text = .ok key := read
      show Call.Adds _ (Connection.delete ctx table key) _
      rw [Connection.delete_eq]
      refine Connection.adds_write fun t past _ changed now gone stocks => ?_
      cases deleted : t.delete? key with
      | none =>
          rw [deleted] at gone
          cases gone
      | some after =>
          rw [deleted] at gone
          cases gone
          rw [Write.notes, read]
          exact stocks.delete (discrete.of_keyOf read) deleted
  | update u params => exact keyed.elim

/-- A record that stands after keyed writes was saved by one of them, so the spec describes it. -/
theorem describes_of_stands {σ α : Type} {call : Context → Write ρ → Call σ α} {steps : List (Step (Write ρ))}
    {s : Session σ} (keyed : ∀ ctx w, .call ctx w ∈ steps → w.IsKeyed model spec) {kind : Value → Bool}
    {kept : Kept ρ}
    (stood : (Step.history call (fun _ w => w.notes model spec) steps s).stands kind none = some kept) :
    spec.Describes (model.toValue kept.record) := by
  obtain ⟨key, -, mem⟩ := Notes.exists_mem_of_stands stood
  obtain ⟨ctx, w, now, step, saved⟩ := Step.exists_of_mem_history mem
  have described := keyed ctx w step
  cases w with
  | set record =>
      cases List.mem_singleton.1 saved
      exact described
  | delete text =>
      rw [Write.notes] at saved
      split at saved <;> simp at saved
  | update u params => cases saved

/-- A get under a live context reads the row that the table has under the key. -/
theorem get_of_seen (h : model.Hookless) {s : Session Connection} {t : Table}
    (seen : (Connection.contents s.now s.backend).table? table.name = some t) {text : String} {v : Value}
    (read : table.spec.key.keyOf text = .ok v) (live : s.refusal? ctx = none) :
    ((inMemory model table).get ctx text s).1 =
      match t.find? v with
      | some row => (inMemory model table).ofRow row
      | none => .error (rowNotFound table.name v) := by
  have idle : (inMemory model table).model.Hookless := h
  have addressed : (inMemory model table).spec.key.keyOf text = .ok v := read
  have asked : (inMemory model table).executor.get ctx (inMemory model table).table v =
    Connection.get ctx table v := rfl
  have answer := Connection.get_of_seen live seen v
  rw [get, underKey, addressed, Call.lift_ok, pure_bind, Call.check_bind_of_live live, Call.bind_apply,
    asked]
  rcases found : Connection.get ctx table v s with ⟨result, after⟩
  rw [found] at answer
  cases held : t.find? v with
  | none =>
      rw [held] at answer
      cases answer
      rfl
  | some row =>
      rw [held] at answer
      cases answer
      dsimp only
      rw [load_of_hookless idle, Call.lift_apply]

/-- A get under a live context reads the row that the table holds under the key. -/
theorem get_of_holds (h : model.Hookless) (discrete : table.spec.key.IsDiscrete)
    {s : Session Connection} {past : Notes Value (Kept ρ)}
    (holds : Holds model table base s.now s.backend past) {text : String} {v : Value}
    (read : table.spec.key.keyOf text = .ok v) (live : s.refusal? ctx = none) :
    ((inMemory model table).get ctx text s).1 =
      match (past.map (rowFor model table.spec)).stands (fun key => key.equal v) (base v) with
      | some row => (inMemory model table).ofRow row
      | none => .error (rowNotFound table.name v) := by
  obtain ⟨t, seen, stocks⟩ := holds
  rw [get_of_seen h seen read live, stocks.rows v (discrete.of_keyOf read)]

end RecordTable

end Depot
