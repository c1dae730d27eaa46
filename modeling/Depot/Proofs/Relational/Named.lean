import Depot.Proofs.Relational.KeyTexts
import Depot.Proofs.Relational.Readable

/-!
# Keys of tables

A row is saved under the key that its record holds, and this key is not checked. An operation under the
empty key text is refused before its executor or a hook is called (`RecordTable.refuses_empty`), but a
record whose key is the empty text is saved like any other (`RecordTable.named_iff_of_set`). So a run
leaves no row under the empty text as soon as no record or atom is saved whose key it is, as the hook
before the save leaves it (`Relational.Turn.named_run`).
-/

namespace Depot

namespace Relational.Table

variable {t after : Table} {row : Row}

/-- A row that was put in is one of the rows, as the table took it in. -/
theorem exists_written_of_upsert {spec : Spec} (isOf : t.spec = spec) (put : t.upsert row = .ok after) :
    ∃ normal ∈ after.rows, TakenIn spec row normal := by
  obtain ⟨normal, normalized, checked, rfl⟩ := upsert_eq_ok_iff.1 put
  refine ⟨normal, ?_, takenIn isOf normalized checked⟩
  show normal ∈ (t.place (t.position? (Row.cell normal t.keyColumn)) normal).rows
  cases place : t.position? (Row.cell normal t.keyColumn) with
  | none => exact List.mem_append_right _ (List.mem_singleton_self normal)
  | some i =>
      obtain ⟨inside, _⟩ := List.findIdx?_eq_some_iff_getElem.1 place
      exact List.mem_set inside normal

end Relational.Table

namespace RecordTable

open Relational

variable {ρ σ : Type}

/-- The key of the row is not the empty text. -/
def Named (spec : Spec) (row : Row) : Prop :=
  Row.cell row spec.key.column ≠ .string ""

theorem named_iff_of_takenIn {spec : Spec} {row normal : Row} (taken : TakenIn spec row normal) :
    Named spec normal ↔ Named spec row := by
  rw [Named, Named, taken.cells spec.key spec.key_mem]

/-! ### What is refused -/

/-- The key text that an operation checks before anything else. -/
def Use.key? : Use ρ → Option String
  | write (.delete key) | deleteAtom key | has key | get key | getAtom key => some key
  | _ => none

/-- The operations of a table refuse the empty key text. -/
theorem refuses_empty (t : RecordTable ρ σ) (ctx : Context) {op : Use ρ} (given : op.key? = some "") :
    op.run t ctx = Call.refuseKey := by
  cases op with
  | write w =>
      cases w with
      | delete key =>
          obtain rfl := Option.some.inj given
          rfl
      | set | update => cases given
  | deleteAtom key | has key | get key | getAtom key =>
      obtain rfl := Option.some.inj given
      rfl
  | _ => cases given

/-! ### What is kept -/

/-- No row under the empty text is made of what the operation saves, as the hook before the save leaves
it on any occasion. -/
def Use.SavesNamed (t : RecordTable ρ σ) : Use ρ → Prop
  | write (.set record) => ∀ now row, t.toRow (t.model.saved now record) = .ok row → Named t.spec row
  | setAtom a => ∀ row, t.rowOfAtom a = .ok row → Named t.spec row
  | _ => True

variable {model : Model ρ} {table : TableDef} {ctx : Context}

/-- Updates do not assign to the key. -/
theorem named_of_assign {u : Update} {params : Params} {bound : BoundUpdate} {spec : Spec}
    {row normal : Row} (made : u.bind spec params = .ok bound) (named : Named spec row)
    (taken : TakenIn spec (Table.assign bound.assignments row) normal) : Named spec normal := by
  have spared : bound.assignments.reverse.lookup spec.key.column = none := by
    cases assigned : bound.assignments.reverse.lookup spec.key.column with
    | none => rfl
    | some v =>
        have mem := List.mem_reverse.1 (Entries.mem_of_lookup assigned)
        exact absurd rfl (Update.ne_keyColumn_of_bind made _ mem)
  rw [named_iff_of_takenIn taken, Named, Table.cell_assign, spared]
  exact named

theorem Use.SavesNamed.leaves {op : Use ρ} (h : op.SavesNamed (inMemory model table)) :
    op.Leaves (inMemory model table) (Named table.spec) := by
  cases op with
  | write w =>
      cases w with
      | set record => exact fun now row normal made taken => (named_iff_of_takenIn taken).2 (h now row made)
      | update u params => exact fun bound row normal made named taken => named_of_assign made named taken
      | delete key => trivial
  | setAtom a => exact fun row normal made taken => (named_iff_of_takenIn taken).2 (h row made)
  | _ => trivial

end RecordTable

namespace Relational

open RecordTable

variable {ρ : Type} {model : Model ρ} {table : TableDef}

/-- No row under the empty text is made of what the turn saves, and the database leaves the table to its
records. -/
def Turn.SavesNamed (t : RecordTable ρ Connection) : Turn ρ → Prop
  | use _ _ op => op.SavesNamed t
  | other step => step.Cedes t.table

/-- A run of turns that save nothing under the empty text leaves no such row. -/
theorem Turn.named_run {turns : List (Turn ρ)} {s : Session System}
    (start : s.backend.All table.name (Table.AllRows table.spec (Named table.spec)))
    (named : ∀ turn ∈ turns, turn.SavesNamed (inMemory model table)) :
    (Turn.run (inMemory model table) turns s).backend.All table.name
      (Table.AllRows table.spec (Named table.spec)) := by
  refine Turn.allRows_run start fun turn mem => ?_
  have named := named turn mem
  cases turn with
  | use tx ctx op => exact Use.SavesNamed.leaves named
  | other step => exact named

end Relational

/-! ### What is saved -/

namespace RecordTable

open Relational

variable {ρ : Type} {model : Model ρ} {table : TableDef} {ctx : Context} {s : Session Connection} {t : Table}

/-- A row that is put into a table without rows under the empty text leaves it such a table exactly if its
own key is not the empty text. -/
theorem named_iff_of_upsert {row : Row} (seen : seen? table s = some t)
    (all : t.AllRows table.spec (Named table.spec))
    (done : (Connection.upsert ctx table row s).1 = .ok ()) :
    ∃ after, (Connection.contents s.now (Connection.upsert ctx table row s).2.backend).table? table.name =
        some after ∧ (after.AllRows table.spec (Named table.spec) ↔ Named table.spec row) := by
  obtain ⟨after, put, later⟩ := Connection.upsert_of_seen seen done
  refine ⟨after, later, fun named => ?_, fun named => ?_⟩
  · obtain ⟨normal, mem, taken⟩ := Table.exists_written_of_upsert all.isOf put
    exact (named_iff_of_takenIn taken).1 (named.rows normal mem)
  · exact all.upsert put fun normal taken => (named_iff_of_takenIn taken).2 named

/-- A record whose save took effect is saved as its hook leaves it, also under the empty text. -/
theorem named_iff_of_set {record : ρ} (seen : seen? table s = some t)
    (all : t.AllRows table.spec (Named table.spec))
    (took : tookEffect ((Write.set record).run (inMemory model table) ctx s).1 = true) :
    ∃ row after, (inMemory model table).toRow (model.saved (s.occasion ctx) record) = .ok row ∧
      (Connection.contents s.now ((Write.set record).run (inMemory model table) ctx s).2.backend).table?
        table.name = some after ∧
      (after.AllRows table.spec (Named table.spec) ↔ Named table.spec row) := by
  obtain ⟨call, later, bare, done, same⟩ :=
    (truthful (t := inMemory model table) Connection.sound (.set record) s).done took
  obtain ⟨row, made, same'⟩ := Fallible.bind_eq_ok_iff.1 bare
  cases same'
  have done : Connection.upsert ctx table row s = (.ok (), later) := done
  have put : (Connection.upsert ctx table row s).1 = .ok () := congrArg Prod.fst done
  obtain ⟨after, held, named⟩ := named_iff_of_upsert seen all put
  rw [done] at held
  exact ⟨row, after, made, same ▸ held, named⟩

/-- An atom that is saved is saved as it is, also under the empty text. -/
theorem named_iff_of_setAtom {a : Atom} (seen : seen? table s = some t)
    (all : t.AllRows table.spec (Named table.spec))
    (done : ((inMemory model table).setAtom ctx a s).1 = .ok ()) :
    ∃ row after, (inMemory model table).rowOfAtom a = .ok row ∧
      (Connection.contents s.now ((inMemory model table).setAtom ctx a s).2.backend).table? table.name =
        some after ∧
      (after.AllRows table.spec (Named table.spec) ↔ Named table.spec row) := by
  cases refused : s.refusal? ctx with
  | some e =>
      rw [setAtom, Call.check_bind_of_refusal refused] at done
      cases done
  | none =>
      rw [setAtom, Call.check_bind_of_live refused] at done ⊢
      obtain ⟨row, made, put⟩ := Call.of_lift_bind_eq_ok done
      rw [made, Call.lift_ok, pure_bind]
      obtain ⟨after, held, named⟩ := named_iff_of_upsert seen all put
      exact ⟨row, after, rfl, held, named⟩

end RecordTable

end Depot
