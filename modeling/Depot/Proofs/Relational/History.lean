import Depot.Proofs.Relational.Commit
import Depot.Proofs.Relational.Table

/-!
# What a step does to a table

Of everything that happens to a system, a committed table is touched in three ways only: it is
created, it is removed, or it is changed, by a direct write or by the commit of a transaction that
wrote it. `Step.effect` says which from the step and its outcome, and `holds_effect` what that means
for the table: a change counts up the version by one, a new table starts at zero, and a step without
an effect leaves the table as it is, its version included.
-/

namespace Depot.Relational

/-- Whether an action with this result counts as a change of its table. An update that meets no row
does not. -/
def Action.changes : Action → Except Error Answer → Bool
  | upsert _, .ok _ | delete _, .ok _ => true
  | update _, .ok (.count n) => n != 0
  | _, _ => false

/-- The version of a table counts the changes. -/
theorem Action.onTable_changes (action : Action) (name : String) (t : Table) :
    if action.changes (action.onTable name t).1 then
      (action.onTable name t).2.version = t.version + 1
    else (action.onTable name t).2 = t := by
  cases action with
  | upsert row =>
      cases change : t.upsert row with
      | error e => simp [onTable, Table.settle, Except.map, change, changes]
      | ok changed =>
          obtain ⟨normal, _, _, rfl⟩ := Table.upsert_eq_ok_iff.1 change
          simp [onTable, Table.settle, Except.map, change, changes, Table.bump]
  | delete key =>
      cases change : t.delete? key with
      | none => simp [onTable, change, changes]
      | some changed =>
          obtain ⟨i, _, rfl⟩ := Table.delete?_eq_some_iff.1 change
          simp [onTable, change, changes, Table.bump]
  | update u =>
      cases change : t.update u with
      | error e => simp [onTable, Table.settle, Except.map, change, changes]
      | ok r =>
          have version := Table.version_update change
          by_cases none : r.1 = 0
          · simpa [onTable, Table.settle, Except.map, change, changes, none] using version
          · simpa [onTable, Table.settle, Except.map, change, changes, none] using version
  | _ => simpa [changes] using onTable_of_read rfl name t

namespace Step

variable {s : Session System} {ctx : Context} {st : Statement} {name : String}

/-! ### Steps, one by one -/

theorem perform_direct_of_live (live : s.refusal? ctx = none) :
    (direct ctx st).perform s =
      let r := s.backend.database.perform st
      (some r.1, s.withBackend (s.backend.withDatabase r.2)) := by
  simp only [perform]
  rw [Statement.call_of_live (by simpa using live)]
  rfl

theorem perform_direct_of_refusal {e : Error} (dead : s.refusal? ctx = some e) :
    (direct ctx st).perform s = (some (.error e), s) := by
  simp only [perform]
  rw [Statement.call_of_refusal (by simpa using dead)]
  rfl

theorem perform_within_of_closed (closed : s.backend.transactions.get? name = none) :
    (within name ctx st).perform s = (none, s) := by
  simp only [perform, closed]

theorem perform_within_of_live {tx : Transaction}
    (held : s.backend.transactions.get? name = some tx) (live : s.refusal? ctx = none) :
    (within name ctx st).perform s =
      let r := tx.perform s.backend.database st
      (some r.1, s.withBackend (s.backend.withTransaction name r.2)) := by
  simp only [perform, held]
  rw [Statement.call_of_live (by simpa using live)]
  rfl

theorem perform_within_of_refusal {tx : Transaction} {e : Error}
    (held : s.backend.transactions.get? name = some tx) (dead : s.refusal? ctx = some e) :
    (within name ctx st).perform s = (some (.error e), s) := by
  simp only [perform, held]
  rw [Statement.call_of_refusal (by simpa using dead)]
  have same : s.backend.withTransaction name tx = s.backend := by
    rw [System.withTransaction, Dict.insert_of_get? held]
  show (_, s.withBackend (s.backend.withTransaction name tx)) = _
  rw [same]
  rfl

theorem perform_commit {tx : Transaction} (held : s.backend.transactions.get? name = some tx) :
    (commit name).perform s =
      let r := s.backend.change (s.backend.database.commit tx)
      (some r.1, s.withBackend (r.2.close name)) := by
  simp only [perform, held]

/-! ### Time and signals -/

/-- The moment and the raised signals after a step. They do not depend on the database. -/
def tick (clock : Time × List Nat) : Step → Time × List Nat
  | wait span => (clock.1 + span, clock.2)
  | cancel ctx =>
    (clock.1, if clock.2.contains ctx.signal then clock.2 else ctx.signal :: clock.2)
  | _ => clock

theorem clock_after (step : Step) (s : Session System) :
    (step.after s).clock = step.tick s.clock := by
  cases step with
  | direct ctx st =>
      cases refused : s.refusal? ctx with
      | some e =>
          rw [after, perform_direct_of_refusal refused]
          rfl
      | none =>
          rw [after, perform_direct_of_live refused]
          rfl
  | within name ctx st =>
      cases held : s.backend.transactions.get? name with
      | none =>
          rw [after, perform_within_of_closed held]
          rfl
      | some tx =>
          cases refused : s.refusal? ctx with
          | some e =>
              rw [after, perform_within_of_refusal held refused]
              rfl
          | none =>
              rw [after, perform_within_of_live held refused]
              rfl
  | commit name | rollback name =>
      simp only [after, perform]
      cases s.backend.transactions.get? name <;> rfl
  | cancel ctx =>
      show (s.cancel ctx).clock = _
      rw [Session.cancel, tick, Session.clock, Session.clock]
      cases s.raised.contains ctx.signal <;> rfl
  | _ => rfl

/-! ### Effects on a table -/

/-- What a step may do to a committed table. -/
inductive Effect
  | nothing
  | change
  | creation
  | removal
deriving DecidableEq

/-- What a step does to the table of a name. -/
def effect (table : String) (s : Session System) (step : Step) : Effect :=
  let outcome := (step.perform s).1
  match step with
  | direct _ st =>
    if st.table.name == table && outcome.any st.action.changes then .change else .nothing
  | commit name =>
    let wrote := (s.backend.transactions.get? name).any (·.wrote table)
    if outcome.any Except.isOk && wrote then .change else .nothing
  | createTable made =>
    if made.name == table && outcome.any Except.isOk then .creation else .nothing
  | dropTable name => if name == table && outcome.any Except.isOk then .removal else .nothing
  | _ => .nothing

end Step

/-- The committed table of a name. -/
def System.table? (sys : System) (table : String) : Option Table :=
  sys.database.tables.get? table

/-- What an effect means for a table. -/
def Step.Effect.Holds (before after : Option Table) : Effect → Prop
  | nothing => after = before
  | change => ∃ t t', before = some t ∧ after = some t' ∧ t'.version = t.version + 1
  | creation => before = none ∧ ∃ t, after = some t ∧ t.version = 0
  | removal => before.isSome ∧ after = none

namespace Step

variable {s : Session System}

theorem holds_effect_direct (ctx : Context) (st : Statement) (s : Session System) (table : String) :
    ((direct ctx st).effect table s).Holds (s.backend.table? table)
      (((direct ctx st).after s).backend.table? table) := by
  cases refused : s.refusal? ctx with
  | some e =>
      have idle : st.action.changes (.error e) = false := by
        cases st.action <;> rfl
      simp [effect, after, perform_direct_of_refusal refused, idle, Effect.Holds]
  | none =>
      simp only [effect, after, perform_direct_of_live refused, System.table?, System.withDatabase,
        Session.backend_withBackend, Database.perform, Database.visit, Option.any_some]
      cases found : s.backend.database.tables.get? st.table.name with
      | none =>
          have idle : st.action.changes (.error (.tableNotFound st.table.name)) = false := by
            cases st.action <;> rfl
          simp [idle, Effect.Holds]
      | some t =>
          have changes := st.action.onTable_changes st.table.name t
          by_cases same : table = st.table.name
          · subst same
            simp only [Dict.get?_insert_self, found, BEq.rfl, Bool.true_and]
            split
            · next changed =>
                rw [if_pos changed] at changes
                exact ⟨t, _, rfl, rfl, changes⟩
            · next unchanged =>
                rw [if_neg unchanged] at changes
                rw [changes]
                rfl
          · have other : (st.table.name == table) = false := by simpa using Ne.symm same
            rw [other]
            exact Dict.get?_insert_of_ne _ same _

theorem holds_effect_commit (name : String) (s : Session System) (table : String) :
    ((commit name).effect table s).Holds (s.backend.table? table)
      (((commit name).after s).backend.table? table) := by
  cases held : s.backend.transactions.get? name with
  | none => simp [effect, after, perform, held, Effect.Holds]
  | some tx =>
      simp only [effect, after, perform_commit held, held]
      cases put : s.backend.database.commit tx with
      | error e => simp [System.change, System.close, System.table?, Effect.Holds, Except.isOk, Except.toBool]
      | ok database =>
          have view := Database.get?_tables_commit put table
          simp only [System.change, System.close, System.withDatabase, System.table?,
            Session.backend_withBackend, view, Option.any_some]
          by_cases wrote : tx.wrote table = true
          · obtain ⟨copy, copied, isWritten⟩ := Transaction.wrote_eq_true_iff.1 wrote
            obtain ⟨t, found, version⟩ :=
              (Database.commit_eq_ok_iff.1 put).1 table copy copied isWritten
            have change : Effect.Holds (some t) (some copy.committed) .change :=
              ⟨t, copy.committed, rfl, rfl, by rw [Copy.committed, version]⟩
            simpa [wrote, copied, found, Except.isOk, Except.toBool] using change
          · simp [wrote, Effect.Holds]

theorem database_after_within (name : String) (ctx : Context) (st : Statement) (s : Session System) :
    ((within name ctx st).after s).backend.database = s.backend.database := by
  cases held : s.backend.transactions.get? name with
  | none => rw [after, perform_within_of_closed held]
  | some tx =>
      cases refused : s.refusal? ctx with
      | some e => rw [after, perform_within_of_refusal held refused]
      | none => simp [after, perform_within_of_live held refused, System.withTransaction]

theorem database_after_rollback (name : String) (s : Session System) :
    ((rollback name).after s).backend.database = s.backend.database := by
  cases held : s.backend.transactions.get? name <;> simp [after, perform, held, System.close]

theorem backend_after_cancel (ctx : Context) (s : Session System) :
    ((cancel ctx).after s).backend = s.backend := by
  show (s.cancel ctx).backend = s.backend
  rw [Session.cancel]
  split <;> rfl

theorem holds_effect_createTable (made : TableDef) (s : Session System) (table : String) :
    ((createTable made).effect table s).Holds (s.backend.table? table)
      (((createTable made).after s).backend.table? table) := by
  cases found : s.backend.database.tables.get? made.name with
  | some t =>
      simp [effect, after, perform, Database.createTable, Dict.contains, found, System.change,
        Effect.Holds, Except.isOk, Except.toBool]
  | none =>
      simp only [effect, after, perform, Database.createTable, Dict.contains, found, System.change,
        System.withDatabase, System.table?, Session.backend_withBackend]
      by_cases same : made.name = table
      · subst same
        simp [Effect.Holds, found, Except.isOk, Except.toBool]
      · simp [Effect.Holds, same, Dict.get?_insert_of_ne _ (Ne.symm same)]

theorem holds_effect_dropTable (name : String) (s : Session System) (table : String) :
    ((dropTable name).effect table s).Holds (s.backend.table? table)
      (((dropTable name).after s).backend.table? table) := by
  cases found : s.backend.database.tables.get? name with
  | none =>
      simp [effect, after, perform, Database.dropTable, Dict.contains, found, System.change,
        Effect.Holds, Except.isOk, Except.toBool]
  | some t =>
      simp only [effect, after, perform, Database.dropTable, Dict.contains, found, System.change,
        System.withDatabase, System.table?, Session.backend_withBackend]
      by_cases same : name = table
      · subst same
        simp [Effect.Holds, found, Except.isOk, Except.toBool]
      · simp [Effect.Holds, same, Dict.get?_erase_of_ne _ (Ne.symm same)]

/-- The effect of a step on a table is what it says. -/
theorem holds_effect (step : Step) (s : Session System) (table : String) :
    (step.effect table s).Holds (s.backend.table? table) ((step.after s).backend.table? table) := by
  cases step with
  | direct ctx st => exact holds_effect_direct ctx st s table
  | within name ctx st =>
      exact congrArg (fun db : Database => db.tables.get? table) (database_after_within name ctx st s)
  | begin name => rfl
  | commit name => exact holds_effect_commit name s table
  | rollback name =>
      exact congrArg (fun db : Database => db.tables.get? table) (database_after_rollback name s)
  | createTable made => exact holds_effect_createTable made s table
  | dropTable name => exact holds_effect_dropTable name s table
  | wait span => rfl
  | cancel ctx =>
      rw [backend_after_cancel]
      rfl

end Step

end Depot.Relational
