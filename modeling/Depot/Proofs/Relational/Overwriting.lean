import Depot.Proofs.Relational.Acceptance
import Depot.Proofs.Relational.Readable
import Depot.Proofs.Value.Reflexive

/-!
# Updates as overwriting

An update overwrites the assigned columns in all rows that satisfy its predicate (`Table.overwritten`).
It does so row by row, and each row is checked against a table in which some rows are overwritten and
others are still as they were (`Table.overwrittenAt`). All checks pass exactly if the overwritten table
is valid (`update_eq_ok_iff`): a row that still waits holds its old value in an assigned column, and
that value is in nobody's way. If it were equal to the assigned one, then that one would be equal to
itself, and not even two rows could have it.
-/

namespace Depot

namespace BoundUpdate

variable {u : BoundUpdate} {row : Row} {column : String} {v : Value}

/-- What is assigned to a column; of several assignments the last one counts. -/
def assigned? (u : BoundUpdate) (column : String) : Option Value :=
  u.assignments.reverse.lookup column

/-- The row with its assigned columns overwritten. -/
def overwrite (u : BoundUpdate) (row : Row) : Row :=
  .ofList (row.entries.map fun e => (e.1, (u.assigned? e.1).getD e.2))

theorem get?_overwrite (u : BoundUpdate) (row : Row) (column : String) :
    (u.overwrite row).get? column = (row.get? column).map fun v => (u.assigned? column).getD v := by
  have nodup : ((row.entries.map fun e => (e.1, (u.assigned? e.1).getD e.2)).map Prod.fst).Nodup := by
    rw [List.map_map]
    exact row.ordered.nodup
  rw [overwrite, Dict.get?_ofList nodup]
  exact Entries.lookup_map (fun e => (u.assigned? e.1).getD e.2) row.entries column

/-- A column that nothing is assigned to stays as it is. -/
theorem get?_overwrite_of_unassigned (h : u.assigned? column = none) :
    (u.overwrite row).get? column = row.get? column := by
  rw [get?_overwrite, h]
  exact Option.map_id'

theorem cell_overwrite_of_unassigned (h : u.assigned? column = none) :
    Row.cell (u.overwrite row) column = Row.cell row column := by
  rw [Row.cell, Row.cell, get?_overwrite_of_unassigned h]

theorem cell_overwrite_of_assigned (held : row.contains column = true)
    (h : u.assigned? column = some v) : Row.cell (u.overwrite row) column = v := by
  obtain ⟨old, found⟩ := Option.isSome_iff_exists.1 held
  rw [Row.cell, get?_overwrite, found, h]
  rfl

theorem mem_of_assigned? (h : u.assigned? column = some v) : (column, v) ∈ u.assignments :=
  List.mem_reverse.1 (Entries.mem_of_lookup h)

/-- No update that was bound assigns to the key. -/
theorem assigned?_keyColumn {spec : Spec} {params : Params} {update : Update}
    (bound : update.bind spec params = .ok u) : u.assigned? spec.key.column = none := by
  rw [Option.eq_none_iff_forall_ne_some]
  intro v assigned
  exact Update.ne_keyColumn_of_bind bound _ (mem_of_assigned? assigned) rfl

end BoundUpdate

namespace Relational

namespace Table

variable {t next walked : Table} {u : BoundUpdate} {row : Row} {i n : Nat} {places done : List Nat}

/-- The places of the rows that satisfy the predicate of an update. -/
def hits (t : Table) (u : BoundUpdate) : List Nat :=
  (t.rows.zipIdx.filter fun (row, _) => u.predicate.holds row).map Prod.snd

theorem mem_hits_iff :
    i ∈ t.hits u ↔ ∃ row, t.rows[i]? = some row ∧ u.predicate.holds row = true := by
  simp only [hits, List.mem_map, List.mem_filter, Prod.exists, List.mk_mem_zipIdx_iff_getElem?,
    exists_eq_right]

theorem nodup_hits (t : Table) (u : BoundUpdate) : (t.hits u).Nodup := by
  have places : (t.rows.zipIdx.map Prod.snd).Nodup := by
    rw [List.zipIdx_map_snd]
    exact List.nodup_range'
  exact places.sublist (List.filter_sublist.map _)

theorem length_hits (t : Table) (u : BoundUpdate) :
    (t.hits u).length = (t.matching u.predicate).length := by
  have rows : t.rows = t.rows.zipIdx.map Prod.fst := (List.zipIdx_map_fst 0 t.rows).symm
  rw [hits, List.length_map, matching]
  conv_rhs => rw [rows, List.filter_map, List.length_map]
  rfl

/-- The table with the assigned columns overwritten in all rows that satisfy the predicate. -/
def overwritten (t : Table) (u : BoundUpdate) : Table :=
  { t with rows := t.rows.map fun row => if u.predicate.holds row then u.overwrite row else row }

/-- The table with the assigned columns overwritten in the rows at some places. -/
def overwrittenAt (t : Table) (u : BoundUpdate) (done : List Nat) : Table :=
  { t with rows := t.rows.mapIdx fun i row => if i ∈ done then u.overwrite row else row }

theorem getElem?_overwritten (t : Table) (u : BoundUpdate) (i : Nat) :
    (t.overwritten u).rows[i]? =
      t.rows[i]?.map fun row => if u.predicate.holds row then u.overwrite row else row :=
  List.getElem?_map

theorem getElem?_overwrittenAt (t : Table) (u : BoundUpdate) (done : List Nat) (i : Nat) :
    (t.overwrittenAt u done).rows[i]? =
      t.rows[i]?.map fun row => if i ∈ done then u.overwrite row else row :=
  List.getElem?_mapIdx

theorem overwrittenAt_of_rows {rows : List Row}
    (h : ∀ i, rows[i]? = t.rows[i]?.map fun row => if i ∈ done then u.overwrite row else row) :
    t.overwrittenAt u done = { t with rows } := by
  have same : (t.overwrittenAt u done).rows = rows :=
    List.ext_getElem? fun i => (getElem?_overwrittenAt t u done i).trans (h i).symm
  exact congrArg (fun rows => ({ t with rows } : Table)) same

theorem overwrittenAt_nil (t : Table) (u : BoundUpdate) : t.overwrittenAt u [] = t :=
  overwrittenAt_of_rows fun i => by simp

theorem overwrittenAt_of_hits (h : ∀ i, i ∈ done ↔ i ∈ t.hits u) :
    t.overwrittenAt u done = t.overwritten u := by
  refine overwrittenAt_of_rows fun i => ?_
  rw [List.getElem?_map]
  cases found : t.rows[i]? with
  | none => rfl
  | some row =>
      have hit : i ∈ done ↔ u.predicate.holds row = true := by
        rw [h, mem_hits_iff, found]
        simp
      simp only [Option.map_some, hit]

/-- Overwriting one more row. -/
theorem place_overwrittenAt (found : t.rows[i]? = some row) :
    (t.overwrittenAt u done).place (some i) (u.overwrite row) = t.overwrittenAt u (i :: done) := by
  have placed : t.overwrittenAt u (i :: done) =
      { t with rows := (t.overwrittenAt u done).rows.set i (u.overwrite row) } := by
    refine overwrittenAt_of_rows fun j => ?_
    rw [List.getElem?_set]
    split
    · next same =>
        subst same
        obtain ⟨inside, rfl⟩ := List.getElem?_eq_some_iff.1 found
        simp [overwrittenAt, inside]
    · next other =>
        rw [getElem?_overwrittenAt]
        simp [Ne.symm other]
  exact placed.symm

/-! ### One row after the other -/

/-- A row of a valid table needs no completion when it is overwritten. -/
theorem normalize_assign (admits : Admits t.spec row)
    (declared : ∀ a ∈ u.assignments, a.1 ∈ t.spec.columns) :
    t.normalize (assign u.assignments row) = .ok (u.overwrite row) := by
  have get? (column : String) : (assign u.assignments row).get? column =
      (u.assigned? column).or (row.get? column) := get?_assign u.assignments row column
  refine normalize_eq_ok_iff.2 ⟨fun column held => ?_, Dict.ext_get? fun column => ?_⟩
  · rw [Dict.contains, get?] at held
    cases assigned : u.assigned? column with
    | some v => exact declared _ (BoundUpdate.mem_of_assigned? assigned)
    | none =>
        rw [assigned] at held
        exact (admits.columns column).1 held
  · rw [Spec.get?_complete, Row.cell, get?, BoundUpdate.get?_overwrite]
    have held := admits.columns column
    rw [Dict.contains] at held
    split
    · next mem =>
        obtain ⟨v, found⟩ := Option.isSome_iff_exists.1 (held.2 mem)
        rw [found]
        cases u.assigned? column <;> rfl
    · next absent =>
        have missing : row.get? column = none := by
          rw [← Option.not_isSome_iff_eq_none, held]
          exact absent
        rw [missing]
        rfl

/-- One step overwrites its row, if that one may stand in the table as it is by then. -/
theorem updateAt_eq_ok_iff (valid : t.Valid) (declared : ∀ a ∈ u.assignments, a.1 ∈ t.spec.columns)
    (found : t.rows[i]? = some row) (fresh : i ∉ done) :
    (t.overwrittenAt u done).updateAt u.assignments i = .ok next ↔
      (t.overwrittenAt u done).Accepts (some i) (u.overwrite row) ∧
        next = t.overwrittenAt u (i :: done) := by
  have waiting : (t.overwrittenAt u done).rows[i]? = some row := by
    rw [getElem?_overwrittenAt, found, Option.map_some, if_neg fresh]
  have taken : (t.overwrittenAt u done).normalize (assign u.assignments row) =
      .ok (u.overwrite row) :=
    normalize_assign (valid.admits row (List.mem_of_getElem? found)) declared
  rw [← place_overwrittenAt found, ← checkRow_eq_ok_iff]
  simp only [updateAt, waiting, Fallible.bind_eq_ok_iff, taken]
  constructor
  · intro h
    obtain ⟨_, taken, _, checked, made⟩ := h
    cases taken
    cases made
    exact ⟨checked, rfl⟩
  · intro h
    obtain ⟨checked, rfl⟩ := h
    exact ⟨_, rfl, (), checked, rfl⟩

/-- A row that waits is apart from one that is overwritten, if it is so once it is overwritten itself. -/
theorem apart_of_overwrite {column : String} {old : Row} (before : old.contains column = true)
    (held : row.contains column = true) (h : Apart column (u.overwrite old) (u.overwrite row)) :
    Apart column old (u.overwrite row) := by
  rw [Apart] at h ⊢
  cases assigned : u.assigned? column with
  | none =>
      rw [BoundUpdate.cell_overwrite_of_unassigned assigned] at h
      exact h
  | some v =>
      rw [BoundUpdate.cell_overwrite_of_assigned before assigned,
        BoundUpdate.cell_overwrite_of_assigned held assigned] at h
      rw [BoundUpdate.cell_overwrite_of_assigned held assigned]
      intro _ filled
      -- Whatever equals the assigned value, that value equals itself then, and both rows hold it.
      by_contra same
      have itself := Value.looseEqual_self (Bool.not_eq_false _ ▸ same)
      exact Bool.false_ne_true ((h filled filled).symm.trans itself)

/-- In a table that is half overwritten every row may be overwritten that may be so in the end. -/
theorem accepts_overwrittenAt (final : (t.overwritten u).Valid) (valid : t.Valid)
    (before : ∀ j ∈ done, j ∈ t.hits u) (found : t.rows[i]? = some row)
    (hit : u.predicate.holds row = true) :
    (t.overwrittenAt u done).Accepts (some i) (u.overwrite row) := by
  have own : (t.overwritten u).rows[i]? = some (u.overwrite row) := by
    rw [getElem?_overwritten, found, Option.map_some, if_pos hit]
  refine ⟨(final.admits _ (List.mem_of_getElem? own)).filled, ?_⟩
  intro f mem distinguishes j other there notSlot
  rw [getElem?_overwrittenAt, Option.map_eq_some_iff] at there
  obtain ⟨old, held, rfl⟩ := there
  have stands := getElem?_overwritten t u j
  rw [held, Option.map_some] at stands
  have apart : Apart f.column (if u.predicate.holds old then u.overwrite old else old)
      (u.overwrite row) :=
    final.apart f mem distinguishes j i _ _ (fun same => notSlot (congrArg some same.symm)) stands own
  cases meets : u.predicate.holds old with
  | false =>
      have waits : j ∉ done := by
        intro walked
        obtain ⟨_, same, holds⟩ := mem_hits_iff.1 (before j walked)
        cases held.symm.trans same
        exact Bool.false_ne_true (meets.symm.trans holds)
      rw [meets] at apart
      rw [if_neg waits]
      exact apart
  | true =>
      rw [if_pos meets] at apart
      split
      · exact apart
      · have column : f.column ∈ t.spec.columns := List.mem_map_of_mem mem
        exact apart_of_overwrite
          (((valid.admits old (List.mem_of_getElem? held)).columns _).2 column)
          (((valid.admits row (List.mem_of_getElem? found)).columns _).2 column) apart

/-- A walk overwrites the rows that it meets, and does not fail on the way if they may be overwritten
in the end. -/
theorem foldlM_updateAt (valid : t.Valid) (declared : ∀ a ∈ u.assignments, a.1 ∈ t.spec.columns)
    (ahead : ∀ i ∈ places, i ∈ t.hits u) (before : ∀ i ∈ done, i ∈ t.hits u)
    (nodup : (places.reverse ++ done).Nodup) :
    (∀ walked, places.foldlM (updateAt u.assignments) (t.overwrittenAt u done) = .ok walked →
        walked = t.overwrittenAt u (places.reverse ++ done)) ∧
      ((t.overwritten u).Valid →
        ∃ walked, places.foldlM (updateAt u.assignments) (t.overwrittenAt u done) = .ok walked) := by
  induction places generalizing done with
  | nil => exact ⟨fun walked run => (Except.ok.inj run).symm, fun _ => ⟨_, rfl⟩⟩
  | cons i rest ih =>
      rw [List.reverse_cons, List.append_assoc, List.singleton_append] at nodup ⊢
      have hit := ahead i List.mem_cons_self
      obtain ⟨row, found, holds⟩ := mem_hits_iff.1 hit
      have fresh : i ∉ done := (List.nodup_cons.1 (List.nodup_append.1 nodup).2.1).1
      have step (next : Table) : (t.overwrittenAt u done).updateAt u.assignments i = .ok next ↔ _ :=
        updateAt_eq_ok_iff valid declared found fresh
      obtain ⟨overwrites, succeeds⟩ := ih (fun j mem => ahead j (List.mem_cons_of_mem i mem))
        (List.forall_mem_cons.2 ⟨hit, before⟩) nodup
      constructor
      · intro walked run
        rw [List.foldlM_cons, Fallible.bind_eq_ok_iff] at run
        obtain ⟨next, first, run⟩ := run
        obtain ⟨_, rfl⟩ := (step next).1 first
        exact overwrites walked run
      · intro final
        rw [List.foldlM_cons, (step _).2 ⟨accepts_overwrittenAt final valid before found holds, rfl⟩]
        exact succeeds final

/-- An update succeeds exactly if the overwritten table is valid, and makes that table. -/
theorem update_eq_ok_iff {after : Table} (valid : t.Valid)
    (declared : ∀ a ∈ u.assignments, a.1 ∈ t.spec.columns) :
    t.update u = .ok (n, after) ↔ (t.overwritten u).Valid ∧ n = (t.matching u.predicate).length ∧
      after = if n = 0 then t else (t.overwritten u).bump := by
  obtain ⟨overwrites, succeeds⟩ := foldlM_updateAt valid declared
    (fun i (hit : i ∈ t.hits u) => hit) (List.forall_mem_nil _) (by simpa using t.nodup_hits u)
  rw [overwrittenAt_nil, overwrittenAt_of_hits fun i => by simp] at overwrites
  rw [overwrittenAt_nil] at succeeds
  have made (walked : Table) : (if (t.hits u).isEmpty then walked else walked.bump) =
      if (t.matching u.predicate).length = 0 then walked else walked.bump := by
    simp only [List.isEmpty_iff_length_eq_zero, length_hits]
  have untouched : (t.matching u.predicate).length = 0 → t.overwritten u = t := by
    intro none
    rw [← length_hits, List.length_eq_zero_iff] at none
    exact (overwrittenAt_of_hits fun i => by rw [none]).symm.trans (overwrittenAt_nil t u)
  have run : t.update u = (do
      let walked ← (t.hits u).foldlM (updateAt u.assignments) t
      return ((t.hits u).length, if (t.hits u).isEmpty then walked else walked.bump)) := rfl
  rw [run, Fallible.bind_eq_ok_iff]
  constructor
  · intro h
    obtain ⟨walked, walk, same⟩ := h
    cases same
    have final : walked.Valid := Fallible.foldlM_induction valid (fun _ _ _ => Valid.updateAt) walk
    rw [length_hits, made]
    rw [overwrites walked walk] at final ⊢
    refine ⟨final, rfl, ?_⟩
    split
    · next none => exact untouched none
    · rfl
  · intro h
    obtain ⟨final, rfl, rfl⟩ := h
    obtain ⟨walked, walk⟩ := succeeds final
    refine ⟨walked, walk, ?_⟩
    rw [length_hits, made, overwrites walked walk]
    split
    · next none => rw [untouched none]; rfl
    · rfl

/-- Columns that nothing is assigned to stay as they are, in all rows and in their order. -/
theorem map_get?_overwritten {column : String} (h : u.assigned? column = none) :
    ((t.overwritten u).rows.map fun row => row.get? column) = t.rows.map fun row => row.get? column := by
  rw [overwritten, List.map_map]
  refine List.map_congr_left fun row _ => ?_
  rw [Function.comp_apply]
  split
  · exact BoundUpdate.get?_overwrite_of_unassigned h
  · rfl

end Table

end Relational

namespace Tickets

open Relational

/-- All tickets get a seat. -/
def seat (x : Binary64) : BoundUpdate := ⟨[("seat", .float x)], .all []⟩

/-- Seats that are no number are all different. -/
theorem valid_overwritten_nan : (sold.overwritten (seat .nan)).Valid := by
  have valid : ({ sold with
      rows := [ticket (.integer 1) (.float .nan) "a", ticket (.integer 2) (.float .nan) "b"] } :
        Table).Valid :=
    valid_of_two (ticket (.integer 1) (.float .nan) "a") (ticket (.integer 2) (.float .nan) "b") rfl rfl
  exact valid

theorem not_valid_overwritten_zero : ¬ (sold.overwritten (seat .zero)).Valid := by
  intro valid
  have apart := valid.apart (FieldSpec.plain "seat" .float).orNull.asUnique (by decide) (.inr rfl) 0 1
    _ _ (by decide) rfl rfl rfl rfl
  exact absurd apart (by decide +kernel)

end Tickets

namespace Relational

variable {ctx : Context} {table : TableDef} {s : Session Connection} {t : Table}

/-- An update of a valid table overwrites the assigned columns in all rows that satisfy its predicate and
counts those rows, if the table is valid then. Otherwise it says which rule is broken, and nothing has
changed. Rows keep their order and their keys, and all columns that nothing is assigned to. -/
theorem update_all_or_nothing (live : s.refusal? ctx = none)
    (seen : (Connection.contents s.now s.backend).table? table.name = some t) (valid : t.Valid)
    {u : Update} {params : Params} {b : BoundUpdate} (bound : u.bind t.spec params = .ok b) :
    let final := t.overwritten b
    let count := (t.matching b.predicate).length
    let r := Connection.update ctx table b s
    let later := Connection.contents r.2.now r.2.backend
    (∀ column, column = t.keyColumn ∨ b.assigned? column = none →
        (final.rows.map fun row => row.get? column) = t.rows.map fun row => row.get? column) ∧
      (∀ (i : Nat) (row : Row), t.rows[i]? = some row → b.predicate.holds row = false →
        final.rows[i]? = some row) ∧
      (final.Valid → r.1 = .ok count ∧
        later.table? table.name = some (if count = 0 then t else final.bump) ∧
        ∀ other ≠ table.name,
          later.table? other = (Connection.contents s.now s.backend).table? other) ∧
      (¬ final.Valid → ∃ e, r.1 = .error e ∧ Table.isBreach e = true ∧
        later = Connection.contents s.now s.backend) := by
  intro final count r later
  have wrote : Connection.Wrote s table.name (t.update b) r := Connection.wrote_update live seen b
  have makes {n : Nat} {after : Table} : t.update b = .ok (n, after) ↔
      final.Valid ∧ n = count ∧ after = if n = 0 then t else final.bump :=
    Table.update_eq_ok_iff valid (Update.mem_columns_of_bind bound)
  refine ⟨fun column free => ?_, fun i row found misses => ?_, fun legal => ?_, fun broken => ?_⟩
  · rcases free with rfl | free
    · exact Table.map_get?_overwritten (BoundUpdate.assigned?_keyColumn bound)
    · exact Table.map_get?_overwritten free
  · rw [Table.getElem?_overwritten, found, Option.map_some, misses]
    rfl
  · have done := makes.2 ⟨legal, rfl, rfl⟩
    rw [done] at wrote
    exact ⟨wrote.answer, wrote.table _ _ rfl, wrote.others⟩
  · cases updated : t.update b with
    | ok result => exact absurd (makes.1 updated).1 broken
    | error e =>
        rw [updated] at wrote
        exact ⟨e, wrote.answer, Table.isBreach_of_update updated, wrote.kept e rfl⟩

/-- All tickets get a seat: one that is no number, but not one that is a number. -/
theorem update_all_or_nothing_tickets :
    let move (x : Binary64) :=
      Connection.update Tickets.context Tickets.table (Tickets.seat x) (Tickets.holding Tickets.sold)
    let table? (s : Session Connection) :=
      (Connection.contents s.now s.backend).table? Tickets.table.name
    (move .nan).1 = .ok 2 ∧
      table? (move .nan).2 = some (Tickets.sold.overwritten (Tickets.seat .nan)).bump ∧
      (∃ e, (move .zero).1 = .error e ∧ Table.isBreach e = true) ∧
      table? (move .zero).2 = some Tickets.sold := by
  intro move table?
  have seen : table? (Tickets.holding Tickets.sold) = some Tickets.sold := rfl
  have bound (x : Binary64) :
      (⟨[("seat", "to")], []⟩ : Update).bind Tickets.sold.spec (.ofList [("to", .float x)]) =
        .ok (Tickets.seat x) := rfl
  have live : (Tickets.holding Tickets.sold).refusal? Tickets.context = none := rfl
  have settled (x : Binary64) := update_all_or_nothing live seen Tickets.valid_sold (bound x)
  obtain ⟨-, -, changes, -⟩ := settled .nan
  obtain ⟨done, placed, -⟩ := changes Tickets.valid_overwritten_nan
  obtain ⟨-, -, -, fails⟩ := settled .zero
  obtain ⟨e, failed, breach, kept⟩ := fails Tickets.not_valid_overwritten_zero
  exact ⟨done, placed, ⟨e, failed, breach⟩,
    (congrArg (fun held => held.table? Tickets.table.name) kept).trans seen⟩

end Relational

end Depot
