import Depot.Proofs.Relational.Content
import Depot.Proofs.Relational.Uncommitted

/-!
# Systems that count differently

The version of a table is seen by commits only, and they compare it with the version of a copy. So two
systems may count the changes of a table differently and still cannot be told apart, if they hold the
same and agree on which copies are of the table as it stands (`Twins`). Every step comes to the same in
both and leaves such systems again, as long as no table is dropped of which an open transaction has a
copy: a table that is created anew counts from zero, and a copy of the old one may then be taken for a
copy of the new one in one of the systems only.
-/

namespace Depot.Relational

/-! ### Runs that spare the tables in use -/

/-- A step does not drop a table of which an open transaction has a copy. -/
def Step.Spares (s : Session System) : Step → Prop
  | dropTable table => ∀ name tx, s.backend.transactions.get? name = some tx →
      tx.copies.get? table = none
  | _ => True

/-- No step of a run drops a table of which an open transaction has a copy by then. -/
def Sparing : List Step → Session System → Prop
  | [], _ => True
  | step :: rest, s => step.Spares s ∧ Sparing rest (step.after s)

/-! ### Copies, transactions and systems that are alike -/

/-- Copies that hold the same and stand in the same way to their tables: each is of its table as it is,
or each is of an older version. -/
structure Copy.Alike (table other : Option Table) (copy twin : Copy) : Prop where
  content : twin.table.content = copy.table.content
  isWritten : twin.isWritten = copy.isWritten
  stands : ∃ t u, table = some t ∧ other = some u ∧
    ((copy.base = t.version ∧ twin.base = u.version) ∨
      (copy.base < t.version ∧ twin.base < u.version))

/-- Transactions of one number with alike copies of the same tables. -/
structure Transaction.Alike (db other : Database) (tx twin : Transaction) : Prop where
  id : twin.id = tx.id
  copies : ∀ table, Option.Rel (Copy.Alike (db.tables.get? table) (other.tables.get? table))
    (tx.copies.get? table) (twin.copies.get? table)

/-- Sessions whose systems hold the same, with alike transactions open. -/
structure Twins (s r : Session System) : Prop where
  clock : r.clock = s.clock
  begun : r.backend.database.begun = s.backend.database.begun
  content : ∀ table,
    (r.backend.table? table).map Table.content = (s.backend.table? table).map Table.content
  transactions : ∀ name,
    Option.Rel (Transaction.Alike s.backend.database r.backend.database)
      (s.backend.transactions.get? name) (r.backend.transactions.get? name)

/-- Every open transaction has copies of tables only that are still there, of their versions up to
now. -/
def Attached (s : Session System) : Prop :=
  ∀ name tx table copy, s.backend.transactions.get? name = some tx →
    tx.copies.get? table = some copy →
      ∃ t, s.backend.table? table = some t ∧ copy.base ≤ t.version

theorem Twins.refl {s : Session System} (attached : Attached s) : Twins s s where
  clock := rfl
  begun := rfl
  content _ := rfl
  transactions name := by
    cases held : s.backend.transactions.get? name with
    | none => exact .none
    | some tx =>
        refine .some ⟨rfl, fun table => ?_⟩
        cases copied : tx.copies.get? table with
        | none => exact .none
        | some copy =>
            obtain ⟨t, found, le⟩ := attached name tx table copy held copied
            refine .some ⟨rfl, rfl, t, t, found, found, ?_⟩
            rcases Nat.lt_or_eq_of_le le with lt | eq
            · exact .inr ⟨lt, lt⟩
            · exact .inl ⟨eq, eq⟩

variable {s r : Session System} {db other : Database} {tx twin : Transaction} {copy copy' : Copy}
  {table name : String} {step : Step}

/-! ### Options that are related -/

theorem rel_some_iff {α β : Type} {R : α → β → Prop} {a : α} {y : Option β} :
    Option.Rel R (some a) y ↔ ∃ b, y = some b ∧ R a b := by
  cases y <;> simp

theorem rel_none_iff {α β : Type} {R : α → β → Prop} {y : Option β} :
    Option.Rel R none y ↔ y = none := by
  cases y <;> simp

/-- Tables that hold the same are there both or neither. -/
theorem content_cases {x y : Option Table} (same : y.map Table.content = x.map Table.content) :
    (x = none ∧ y = none) ∨ ∃ t u, x = some t ∧ y = some u ∧ u.content = t.content := by
  cases x with
  | none => exact .inl ⟨rfl, Option.map_eq_none_iff.1 same⟩
  | some t =>
      obtain ⟨u, found, same⟩ := Option.map_eq_some_iff.1 same
      exact .inr ⟨t, u, rfl, found, same⟩

theorem Transaction.Alike.exists_copy (h : tx.Alike db other twin)
    (copied : tx.copies.get? table = some copy) :
    ∃ copy', twin.copies.get? table = some copy' ∧
      copy.Alike (db.tables.get? table) (other.tables.get? table) copy' := by
  have copies := h.copies table
  rwa [copied, rel_some_iff] at copies

theorem Twins.exists_open (h : Twins s r) (held : s.backend.transactions.get? name = some tx) :
    ∃ twin, r.backend.transactions.get? name = some twin ∧
      tx.Alike s.backend.database r.backend.database twin := by
  have related := h.transactions name
  rwa [held, rel_some_iff] at related

theorem Twins.closed (h : Twins s r) (held : s.backend.transactions.get? name = none) :
    r.backend.transactions.get? name = none := by
  have related := h.transactions name
  rwa [held, rel_none_iff] at related

/-- Alike transactions work on alike copies. -/
theorem Transaction.Alike.working? (h : tx.Alike db other twin)
    (content : (other.tables.get? table).map Table.content =
      (db.tables.get? table).map Table.content) :
    Option.Rel (Copy.Alike (db.tables.get? table) (other.tables.get? table))
      (tx.working? db table) (twin.working? other table) := by
  have copies := h.copies table
  rw [Transaction.working?, Transaction.working?]
  cases copied : tx.copies.get? table with
  | some copy =>
      obtain ⟨copy', copied', alike⟩ := h.exists_copy copied
      rw [copied']
      exact .some alike
  | none =>
      rw [copied, rel_none_iff] at copies
      rw [copies]
      rcases content_cases content with ⟨gone, gone'⟩ | ⟨t, u, found, found', same⟩
      · rw [gone, gone']
        exact .none
      · rw [found, found']
        exact .some ⟨same, rfl, t, u, rfl, rfl, .inl ⟨rfl, rfl⟩⟩

theorem Twins.attached (h : Twins s r) : Attached s := by
  intro name tx table copy held copied
  obtain ⟨twin, _, alike⟩ := h.exists_open held
  obtain ⟨_, _, copies⟩ := alike.exists_copy copied
  obtain ⟨t, _, found, _, stands⟩ := copies.stands
  exact ⟨t, found, by omega⟩

/-! ### Statements in transactions -/

theorem Transaction.id_perform (tx : Transaction) (db : Database) (st : Statement) :
    (tx.perform db st).2.id = tx.id := by
  rw [perform, visit]
  cases db.copyOf tx st.table.name <;> rfl

/-- A statement answers the same in alike transactions, and they stay alike. -/
theorem Transaction.Alike.perform (h : tx.Alike db other twin) (content : ∀ table,
    (other.tables.get? table).map Table.content = (db.tables.get? table).map Table.content)
    (st : Statement) :
    (twin.perform other st).1 = (tx.perform db st).1 ∧
      (tx.perform db st).2.Alike db other (twin.perform other st).2 := by
  have works := h.working? (content st.table.name)
  have id : (twin.perform other st).2.id = (tx.perform db st).2.id := by
    rw [Transaction.id_perform, Transaction.id_perform, h.id]
  cases worked : tx.working? db st.table.name with
  | none =>
      rw [worked, rel_none_iff] at works
      refine ⟨?_, id, fun table => ?_⟩
      · simp [Transaction.perform_eq, Transaction.view_eq, worked, works]
      · rw [Transaction.get?_copies_perform, Transaction.get?_copies_perform]
        split
        · next same =>
            subst same
            rw [worked, works]
            exact .none
        · exact h.copies table
  | some copy =>
      rw [worked, rel_some_iff] at works
      obtain ⟨copy', worked', alike⟩ := works
      have same := Action.onTable_of_content alike.content st.action st.table.name
      refine ⟨?_, id, fun table => ?_⟩
      · simpa [Transaction.perform_eq, Transaction.view_eq, worked, worked'] using same.1
      · rw [Transaction.get?_copies_perform, Transaction.get?_copies_perform]
        split
        · next target =>
            subst target
            rw [worked, worked']
            exact .some ⟨same.2, by simp [alike.isWritten, same.1], alike.stands⟩
        · exact h.copies table

/-! ### Effects -/

namespace Step

theorem eq_dropTable_of_effect (h : step.effect table s = .removal) : step = .dropTable table := by
  cases step with
  | dropTable dropped =>
      rw [effect] at h
      split at h
      · next removed =>
          rw [Bool.and_eq_true, beq_iff_eq] at removed
          rw [removed.1]
      · cases h
  | direct | commit | createTable =>
      rw [effect] at h
      split at h <;> cases h
  | _ => cases h

/-- How many transactions were begun by after a step. -/
theorem begun_after (step : Step) (s : Session System) :
    (step.after s).backend.database.begun =
      s.backend.database.begun + if step matches .begin _ then 1 else 0 := by
  cases step with
  | direct ctx st =>
      cases refused : s.refusal? ctx with
      | some e =>
          rw [after, perform_direct_of_refusal refused]
          rfl
      | none =>
          rw [after, perform_direct_of_live refused]
          show (s.backend.database.perform st).2.begun = _
          rw [Database.perform, Database.visit]
          cases s.backend.database.tables.get? st.table.name <;> rfl
  | within name ctx st =>
      rw [database_after_within]
      rfl
  | commit name =>
      cases held : s.backend.transactions.get? name with
      | none =>
          simp [after, perform, held]
      | some tx =>
          rw [after, perform_commit held]
          cases put : s.backend.database.commit tx with
          | error e => rfl
          | ok db =>
              rw [(Database.commit_eq_ok_iff.1 put).2]
              rfl
  | rollback name =>
      rw [database_after_rollback]
      rfl
  | createTable made =>
      simp only [after, perform, Database.createTable]
      split <;> rfl
  | dropTable dropped =>
      simp only [after, perform, Database.dropTable]
      split <;> rfl
  | cancel ctx =>
      rw [backend_after_cancel]
      rfl
  | _ => rfl

end Step

/-- Copies stay alike over an effect on their table that does not remove it. -/
theorem Copy.Alike.after {before before' later later' : Option Table}
    (h : copy.Alike before before' copy') {e : Step.Effect} (kept : e ≠ .removal)
    (holds : e.Holds before later) (holds' : e.Holds before' later') :
    copy.Alike later later' copy' := by
  obtain ⟨t, u, rfl, rfl, stands⟩ := h.stands
  refine ⟨h.content, h.isWritten, ?_⟩
  cases e with
  | nothing => exact ⟨t, u, holds, holds', stands⟩
  | change =>
      obtain ⟨_, t', same, rfl, version⟩ := holds
      obtain ⟨_, u', same', rfl, version'⟩ := holds'
      cases same
      cases same'
      exact ⟨t', u', rfl, rfl, .inr (by omega)⟩
  | creation => cases holds.1
  | removal => exact absurd rfl kept

/-! ### Commits -/

/-- What the check of each written copy comes to, by the names of their tables. -/
def Database.verdicts (db : Database) (tx : Transaction) : Entries (Except Error Unit) :=
  (Database.written tx).map fun c => (c.1, db.checkCopy tx c)

theorem Database.ordered_verdicts (db : Database) (tx : Transaction) : (db.verdicts tx).Ordered := by
  rw [verdicts, Entries.Ordered, List.pairwise_map]
  exact List.Pairwise.sublist List.filter_sublist tx.copies.ordered

theorem Database.lookup_verdicts (db : Database) (tx : Transaction) (table : String) :
    (db.verdicts tx).lookup table =
      (tx.copies.get? table).bind fun copy =>
        if copy.isWritten then some (db.checkCopy tx (table, copy)) else none := by
  rw [verdicts, Entries.lookup_map, Database.lookup_written]
  cases tx.copies.get? table with
  | none => rfl
  | some copy => cases isWritten : copy.isWritten <;> simp [isWritten]

/-- A commit comes to the first verdict that is a failure. -/
theorem System.change_commit (sys : System) (tx : Transaction) :
    (sys.change (sys.database.commit tx)).1 =
      ((sys.database.verdicts tx).forM Prod.snd).map fun _ => .done := by
  have same : (sys.database.verdicts tx).forM Prod.snd =
      (Database.written tx).forM (sys.database.checkCopy tx) :=
    List.forM_map
  rw [same, Database.commit]
  cases (Database.written tx).forM (sys.database.checkCopy tx) <;> rfl

/-- Alike transactions meet the same verdicts. -/
theorem Transaction.Alike.verdicts (h : tx.Alike db other twin) :
    other.verdicts twin = db.verdicts tx := by
  apply (other.ordered_verdicts twin).ext (db.ordered_verdicts tx)
  intro table
  rw [Database.lookup_verdicts, Database.lookup_verdicts]
  have copies := h.copies table
  cases copied : tx.copies.get? table with
  | none =>
      rw [copied, rel_none_iff] at copies
      rw [copies]
      rfl
  | some copy =>
      obtain ⟨copy', copied', alike⟩ := h.exists_copy copied
      obtain ⟨t, u, found, found', stands⟩ := alike.stands
      rw [copied', Option.bind_some, Option.bind_some, alike.isWritten]
      have same : other.checkCopy twin (table, copy') = db.checkCopy tx (table, copy) := by
        rw [Database.checkCopy, Database.checkCopy, found, found', h.id]
        dsimp only
        rcases stands with ⟨now, now'⟩ | ⟨old, old'⟩
        · rw [if_pos now.symm, if_pos now'.symm]
        · rw [if_neg (by omega), if_neg (by omega)]
      rw [same]

theorem Transaction.Alike.wrote (h : tx.Alike db other twin) (table : String) :
    twin.wrote table = tx.wrote table := by
  have copies := h.copies table
  rw [Transaction.wrote, Transaction.wrote]
  cases copied : tx.copies.get? table with
  | none =>
      rw [copied, rel_none_iff] at copies
      rw [copies]
  | some copy =>
      obtain ⟨copy', copied', alike⟩ := h.exists_copy copied
      rw [copied', Option.any_some, Option.any_some, alike.isWritten]

/-! ### One step in both -/

namespace Twins

theorem isSome_table? (h : Twins s r) (table : String) :
    (r.backend.table? table).isSome = (s.backend.table? table).isSome := by
  have same := congrArg Option.isSome (h.content table)
  rwa [Option.isSome_map, Option.isSome_map] at same

theorem contains (h : Twins s r) (table : String) :
    r.backend.database.tables.contains table = s.backend.database.tables.contains table :=
  h.isSome_table? table

/-- A statement on the database has the same answer in both, and leaves tables that hold the same. -/
theorem perform (h : Twins s r) (st : Statement) :
    (r.backend.database.perform st).1 = (s.backend.database.perform st).1 ∧
      ∀ table, ((r.backend.database.perform st).2.tables.get? table).map Table.content =
        ((s.backend.database.perform st).2.tables.get? table).map Table.content := by
  have content (table : String) : (r.backend.database.tables.get? table).map Table.content =
      (s.backend.database.tables.get? table).map Table.content := h.content table
  constructor
  · have same := content st.table.name
    rw [Database.perform_eq, Database.perform_eq]
    rcases content_cases same with ⟨gone, gone'⟩ | ⟨t, u, found, found', same⟩
    · rw [gone, gone']
    · rw [found, found']
      exact (Action.onTable_of_content same _ _).1
  · intro table
    have same := content table
    rw [Database.get?_tables_perform, Database.get?_tables_perform]
    split
    · rcases content_cases same with ⟨gone, gone'⟩ | ⟨t, u, found, found', same⟩
      · rw [gone, gone']
      · rw [found, found']
        exact congrArg some (Action.onTable_of_content same _ _).2
    · exact same

/-- A direct statement is refused in both or in neither. -/
theorem direct (h : Twins s r) (ctx : Context) (st : Statement) :
    ((Step.direct ctx st).perform r).1 = ((Step.direct ctx st).perform s).1 ∧
      ∀ table, (((Step.direct ctx st).after r).backend.table? table).map Table.content =
        (((Step.direct ctx st).after s).backend.table? table).map Table.content := by
  have same := Session.refusal?_of_clock h.clock ctx
  rw [Step.after, Step.after]
  cases refused : s.refusal? ctx with
  | some e =>
      rw [refused] at same
      rw [Step.perform_direct_of_refusal refused, Step.perform_direct_of_refusal same]
      exact ⟨rfl, h.content⟩
  | none =>
      rw [refused] at same
      rw [Step.perform_direct_of_live refused, Step.perform_direct_of_live same]
      exact ⟨congrArg some (h.perform st).1, (h.perform st).2⟩

/-- A step comes to the same in both. -/
theorem outcome (h : Twins s r) (step : Step) : (step.perform r).1 = (step.perform s).1 := by
  cases step with
  | direct ctx st => exact (h.direct ctx st).1
  | within name ctx st =>
      cases held : s.backend.transactions.get? name with
      | none =>
          rw [Step.perform_within_of_closed held, Step.perform_within_of_closed (h.closed held)]
      | some tx =>
          obtain ⟨twin, held', alike⟩ := h.exists_open held
          have same := Session.refusal?_of_clock h.clock ctx
          cases refused : s.refusal? ctx with
          | some e =>
              rw [refused] at same
              rw [Step.perform_within_of_refusal held refused,
                Step.perform_within_of_refusal held' same]
          | none =>
              rw [refused] at same
              rw [Step.perform_within_of_live held refused, Step.perform_within_of_live held' same]
              exact congrArg some (alike.perform h.content st).1
  | begin name =>
      rw [Step.perform, Step.perform, Database.begin, Database.begin, h.begun]
  | commit name =>
      cases held : s.backend.transactions.get? name with
      | none => simp [Step.perform, held, h.closed held]
      | some tx =>
          obtain ⟨twin, held', alike⟩ := h.exists_open held
          rw [Step.perform_commit held, Step.perform_commit held']
          show some _ = some _
          rw [System.change_commit, System.change_commit, alike.verdicts]
  | rollback name =>
      cases held : s.backend.transactions.get? name with
      | none => simp [Step.perform, held, h.closed held]
      | some tx =>
          obtain ⟨twin, held', _⟩ := h.exists_open held
          simp [Step.perform, held, held']
  | createTable table =>
      simp only [Step.perform, Database.createTable, h.contains]
      split <;> rfl
  | dropTable table =>
      simp only [Step.perform, Database.dropTable, h.contains]
      split <;> rfl
  | wait span => rfl
  | cancel ctx => rfl

/-- A step has the same effects in both. -/
theorem effect (h : Twins s r) (step : Step) (table : String) :
    step.effect table r = step.effect table s := by
  have outcome := h.outcome step
  cases step with
  | commit name =>
      have wrote : (r.backend.transactions.get? name).any (fun twin => twin.wrote table) =
          (s.backend.transactions.get? name).any fun tx => tx.wrote table := by
        cases held : s.backend.transactions.get? name with
        | none => rw [h.closed held]
        | some tx =>
            obtain ⟨twin, held', alike⟩ := h.exists_open held
            rw [held', Option.any_some, Option.any_some, alike.wrote]
      simp only [Step.effect, outcome, wrote]
  | _ => simp only [Step.effect, outcome]

/-- A step leaves tables that hold the same. -/
theorem content_after (h : Twins s r) (step : Step) (table : String) :
    ((step.after r).backend.table? table).map Table.content =
      ((step.after s).backend.table? table).map Table.content := by
  have content := h.content table
  cases step with
  | direct ctx st => exact (h.direct ctx st).2 table
  | within name ctx st =>
      rw [System.table?, System.table?, Step.database_after_within, Step.database_after_within]
      exact content
  | commit name =>
      cases held : s.backend.transactions.get? name with
      | none =>
          simpa [Step.after, Step.perform, held, h.closed held] using content
      | some tx =>
          obtain ⟨twin, held', alike⟩ := h.exists_open held
          have outcome := h.outcome (.commit name)
          rw [Step.perform_commit held, Step.perform_commit held'] at outcome
          rw [Step.after, Step.after, Step.perform_commit held, Step.perform_commit held']
          cases put : s.backend.database.commit tx with
          | error e =>
              cases put' : r.backend.database.commit twin with
              | error e' => exact content
              | ok db' => simp [put, put', System.change] at outcome
          | ok db =>
              cases put' : r.backend.database.commit twin with
              | error e' => simp [put, put', System.change] at outcome
              | ok db' =>
                  show (db'.tables.get? table).map Table.content =
                    (db.tables.get? table).map Table.content
                  rw [Database.get?_tables_commit put, Database.get?_tables_commit put', alike.wrote]
                  split
                  · next wrote =>
                      obtain ⟨copy, copied, _⟩ := Transaction.wrote_eq_true_iff.1 wrote
                      obtain ⟨copy', copied', copies⟩ := alike.exists_copy copied
                      rw [copied, copied']
                      exact congrArg some copies.content
                  · exact content
  | rollback name =>
      rw [System.table?, System.table?, Step.database_after_rollback, Step.database_after_rollback]
      exact content
  | createTable made =>
      simp only [Step.after, Step.perform, Database.createTable, h.contains]
      split
      · exact content
      · show ((r.backend.database.tables.insert made.name _).get? table).map Table.content =
          ((s.backend.database.tables.insert made.name _).get? table).map Table.content
        rw [Dict.get?_insert, Dict.get?_insert]
        split
        · rfl
        · exact content
  | dropTable dropped =>
      simp only [Step.after, Step.perform, Database.dropTable, h.contains]
      split
      · show ((r.backend.database.tables.erase dropped).get? table).map Table.content =
          ((s.backend.database.tables.erase dropped).get? table).map Table.content
        rw [Dict.get?_erase, Dict.get?_erase]
        split
        · rfl
        · exact content
      · exact content
  | cancel ctx =>
      rw [Step.backend_after_cancel, Step.backend_after_cancel]
      exact content
  | _ => exact content

/-- A transaction that a step does not bound stays alike. -/
theorem progress (h : Twins s r) (alike : tx.Alike s.backend.database r.backend.database twin) :
    (step.progress name s tx).Alike s.backend.database r.backend.database
      (step.progress name r twin) := by
  rw [Step.progress, Step.progress]
  cases step.statementIn? name with
  | none => exact alike
  | some statement =>
      obtain ⟨ctx, st⟩ := statement
      dsimp only
      rw [Session.refusal?_of_clock h.clock ctx]
      split
      · exact (alike.perform h.content st).2
      · exact alike

/-- A step leaves alike transactions, if it drops no table that they have a copy of. -/
theorem transactions_after (h : Twins s r) (spares : step.Spares s) (name : String) :
    Option.Rel (Transaction.Alike (step.after s).backend.database (step.after r).backend.database)
      ((step.after s).backend.transactions.get? name)
      ((step.after r).backend.transactions.get? name) := by
  cases bounds : step.bounds name with
  | true =>
      cases step with
      | begin opened =>
          have same : opened = name := by simpa [Step.bounds] using bounds
          subst same
          have first : ((Step.begin opened).after s).backend.transactions.get? opened =
            some s.backend.database.begin.1 := Dict.get?_insert_self _ _ _
          have second : ((Step.begin opened).after r).backend.transactions.get? opened =
            some r.backend.database.begin.1 := Dict.get?_insert_self _ _ _
          rw [first, second]
          exact .some ⟨congrArg (· + 1) h.begun, fun _ => .none⟩
      | commit ended | rollback ended =>
          have same : ended = name := by simpa [Step.bounds] using bounds
          subst same
          rw [get?_transactions_of_end (by simp), get?_transactions_of_end (by simp)]
          exact .none
      | _ => cases bounds
  | false =>
      cases held : s.backend.transactions.get? name with
      | none =>
          rw [get?_transactions_of_closed bounds held,
            get?_transactions_of_closed bounds (h.closed held)]
          exact .none
      | some tx =>
          obtain ⟨twin, held', alike⟩ := h.exists_open held
          rw [Step.get?_transactions_progress bounds held,
            Step.get?_transactions_progress bounds held']
          have progressed : (step.progress name s tx).Alike s.backend.database r.backend.database
              (step.progress name r twin) := h.progress alike
          refine .some ⟨progressed.id, fun table => ?_⟩
          have copies := progressed.copies table
          cases copied : (step.progress name s tx).copies.get? table with
          | none =>
              rw [copied, rel_none_iff] at copies
              rw [copies]
              exact .none
          | some copy =>
              obtain ⟨copy', copied', twins⟩ := progressed.exists_copy copied
              rw [copied']
              have holds := step.holds_effect s table
              have holds' := step.holds_effect r table
              rw [h.effect] at holds'
              refine .some (twins.after ?_ holds holds')
              intro removed
              cases Step.eq_dropTable_of_effect removed
              have none := spares name tx held
              rw [show (Step.dropTable table).progress name s tx = tx from rfl, none] at copied
              cases copied

/-- A step leaves twins, if it drops no table that an open transaction has a copy of. -/
theorem after (h : Twins s r) (spares : step.Spares s) : Twins (step.after s) (step.after r) where
  clock := by rw [Step.clock_after, Step.clock_after, h.clock]
  begun := by rw [Step.begun_after, Step.begun_after, h.begun]
  content := h.content_after step
  transactions := h.transactions_after spares

/-- A run comes to the same in both. -/
theorem run {steps : List Step} (h : Twins s r) (sparing : Sparing steps s) :
    outcomes steps r = outcomes steps s ∧
      Twins (Relational.after steps s) (Relational.after steps r) := by
  induction steps generalizing s r with
  | nil => exact ⟨rfl, h⟩
  | cons step rest ih =>
      obtain ⟨spares, sparing⟩ := sparing
      obtain ⟨others, twins⟩ := ih (h.after spares) sparing
      rw [outcomes_cons, outcomes_cons, h.outcome, others]
      exact ⟨rfl, twins⟩

end Twins

/-- Transactions stay attached over a run that drops no table they have a copy of. -/
theorem attached_after {steps : List Step} (attached : Attached s) (sparing : Sparing steps s) :
    Attached (after steps s) :=
  ((Twins.refl attached).run sparing).2.attached

end Depot.Relational
