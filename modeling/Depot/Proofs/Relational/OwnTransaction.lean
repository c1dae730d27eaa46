import Depot.Proofs.Relational.LostUpdate
import Depot.Proofs.Relational.Twins

/-!
# Work done directly and in a transaction of its own

The same statements may be done directly, or in a transaction that is begun for them and committed right
after (`own_transaction_like_direct`). Both answer the same and leave tables that hold the same, and what
other transactions wrote can be committed afterwards in the same cases, with one exception: a table that
was written in vain. An update that meets no row leaves a table at its version if it is done directly,
but marks the copy in a transaction as written, and the commit then counts up the version all the same.
So whoever else had written that table finds it changed (`own_transaction_spoils_commit`).

The two ways are followed side by side. At every moment the direct one has come to the tables that the
transaction sees, and every copy is of the table that both started from.
-/

namespace Depot.Relational

/-- Statements done directly. -/
def directly (work : List (Context × Statement)) : List Step :=
  work.map fun w => .direct w.1 w.2

/-- Statements done in an open transaction. -/
def inside (name : String) (work : List (Context × Statement)) : List Step :=
  work.map fun w => .within name w.1 w.2

/-- Statements done in a transaction of their own. -/
def ownTransaction (name : String) (work : List (Context × Statement)) : List Step :=
  .begin name :: inside name work ++ [.commit name]

/-- Whether a step is a write that is done directly to a table, and succeeds. -/
def Step.writesDirectly (table : String) (s : Session System) (step : Step) : Bool :=
  match step with
  | direct _ st =>
    st.table.name == table && (st.action.isWrite && (step.perform s).1.any Except.isOk)
  | _ => false

/-- Of the statements some are writes to a table and succeed, and done directly they still leave the
table as it is: they are updates that meet no row. -/
def InVain (table : String) (work : List (Context × Statement)) (s : Session System) : Prop :=
  someStep (Step.writesDirectly table) (directly work) s = true ∧
    (after (directly work) s).backend.table? table = s.backend.table? table

/-- An open transaction has a copy of a table as it stands. -/
def Watched (table : String) (s : Session System) : Prop :=
  ∃ name tx copy t, s.backend.transactions.get? name = some tx ∧
    tx.copies.get? table = some copy ∧ s.backend.table? table = some t ∧ copy.base = t.version

variable {name : String} {work : List (Context × Statement)} {s d o : Session System}
  {tx : Transaction}

/-! ### Side by side -/

/-- Every copy is of the table as it stands, and unless it was written it is still that table. -/
def Transaction.Based (tx : Transaction) (db : Database) : Prop :=
  ∀ table copy, tx.copies.get? table = some copy →
    ∃ t, db.tables.get? table = some t ∧ copy.base = t.version ∧
      (copy.isWritten = false → copy.table = t)

theorem Transaction.Based.perform {db : Database} (h : tx.Based db) (st : Statement) :
    (tx.perform db st).2.Based db := by
  intro table copy copied
  rw [Transaction.get?_copies_perform] at copied
  split at copied
  · obtain ⟨before, worked, rfl⟩ := Option.map_eq_some_iff.1 copied
    obtain ⟨t, found, version, untouched⟩ : ∃ t, db.tables.get? table = some t ∧
        before.base = t.version ∧ (before.isWritten = false → before.table = t) := by
      rcases Transaction.working?_eq_some_iff.1 worked with own | ⟨_, t, found, rfl⟩
      · exact h table before own
      · exact ⟨t, found, rfl, fun _ => rfl⟩
    refine ⟨t, found, version, fun unwritten => ?_⟩
    obtain ⟨first, last⟩ := Bool.or_eq_false_iff.1 unwritten
    have same := untouched first
    cases write : st.action.isWrite with
    | false => exact (Action.onTable_of_read write _ _).trans same
    | true =>
        cases result : (st.action.onTable st.table.name before.table).1 with
        | ok a => simp [write, result, Except.isOk, Except.toBool] at last
        | error e => exact (Action.onTable_of_error result).trans same
  · exact h table copy copied

/-- A session `d` that direct work has led to, and a session `o` of a transaction with the same work,
both from the session `s`. -/
structure Mirrors (name : String) (s d o : Session System) (tx : Transaction) : Prop where
  clock : d.clock = s.clock ∧ o.clock = s.clock
  database : o.backend.database = { s.backend.database with begun := s.backend.database.begun + 1 }
  begun : d.backend.database.begun = s.backend.database.begun
  held : o.backend.transactions.get? name = some tx
  others : ∀ other, other ≠ name →
    o.backend.transactions.get? other = s.backend.transactions.get? other
  directs : d.backend.transactions = s.backend.transactions
  view : ∀ table, d.backend.table? table = tx.view s.backend.database table
  based : tx.Based s.backend.database

/-- The transaction has just begun. -/
theorem Mirrors.begin (name : String) (s : Session System) :
    Mirrors name s s ((Step.begin name).after s) s.backend.database.begin.1 where
  clock := ⟨rfl, rfl⟩
  database := rfl
  begun := rfl
  held := Dict.get?_insert_self _ _ _
  others _ other := Dict.get?_insert_of_ne _ other _
  directs := rfl
  view _ := rfl
  based table copy copied := by cases copied

/-- A statement comes to the same on both sides. -/
theorem Mirrors.outcome (m : Mirrors name s d o tx) (ctx : Context) (st : Statement) :
    ((Step.within name ctx st).perform o).1 = ((Step.direct ctx st).perform d).1 := by
  have same : o.refusal? ctx = d.refusal? ctx :=
    Session.refusal?_of_clock (m.clock.2.trans m.clock.1.symm) ctx
  cases refused : d.refusal? ctx with
  | some e =>
      rw [refused] at same
      rw [Step.perform_within_of_refusal m.held same, Step.perform_direct_of_refusal refused]
  | none =>
      rw [refused] at same
      rw [Step.perform_within_of_live m.held same, Step.perform_direct_of_live refused, m.database]
      show some (tx.perform _ st).1 = some (d.backend.database.perform st).1
      rw [Transaction.perform_eq, Database.perform_eq]
      have seen : d.backend.database.tables.get? st.table.name =
        tx.view s.backend.database st.table.name := m.view st.table.name
      rw [seen]
      rfl

/-- The two sides stay beside each other over a statement. -/
theorem Mirrors.step (m : Mirrors name s d o tx) (ctx : Context) (st : Statement) :
    Mirrors name s ((Step.direct ctx st).after d) ((Step.within name ctx st).after o)
      ((Step.within name ctx st).progress name o tx) where
  clock := by
    rw [Step.clock_after, Step.clock_after]
    exact m.clock
  database := by rw [Step.database_after_within, m.database]
  begun := by
    rw [Step.begun_after]
    exact m.begun
  held := Step.get?_transactions_progress rfl m.held
  others other ne := by
    rw [Step.get?_transactions_after rfl (by simp [Step.statementIn?, Ne.symm ne]), m.others other ne]
  directs := m.directs
  view table := by
    have same : o.refusal? ctx = d.refusal? ctx :=
      Session.refusal?_of_clock (m.clock.2.trans m.clock.1.symm) ctx
    cases refused : d.refusal? ctx with
    | some e =>
        rw [refused] at same
        rw [Step.after, Step.perform_direct_of_refusal refused]
        simpa [Step.progress, Step.statementIn?, same] using m.view table
    | none =>
        rw [refused] at same
        rw [Step.after, Step.perform_direct_of_live refused]
        have found : d.backend.database.tables.get? table = tx.view s.backend.database table :=
          m.view table
        show (d.backend.database.perform st).2.tables.get? table = _
        rw [Database.get?_tables_perform, found]
        simp only [Step.progress, Step.statementIn?, same, if_true, Option.isNone_none, m.database]
        symm
        exact Transaction.view_perform rfl table
  based := by
    cases refused : o.refusal? ctx with
    | some e => simpa [Step.progress, Step.statementIn?, refused] using m.based
    | none =>
        simp only [Step.progress, Step.statementIn?, refused, if_true, Option.isNone_none, m.database]
        exact m.based.perform st

/-- A whole piece of work comes to the same on both sides, and what it wrote is marked in the
transaction. -/
theorem Mirrors.run (m : Mirrors name s d o tx) (work : List (Context × Statement)) :
    outcomes (inside name work) o = outcomes (directly work) d ∧
      ∃ tx', Mirrors name s (after (directly work) d) (after (inside name work) o) tx' ∧
        ∀ table, tx'.wrote table =
          (tx.wrote table || someStep (Step.writesDirectly table) (directly work) d) := by
  induction work generalizing d o tx with
  | nil => exact ⟨rfl, tx, m, fun table => (Bool.or_false _).symm⟩
  | cons w rest ih =>
      obtain ⟨ctx, st⟩ := w
      obtain ⟨others, tx', mirrors, wrote⟩ := ih (m.step ctx st)
      refine ⟨?_, tx', mirrors, fun table => ?_⟩
      · show _ :: outcomes (inside name rest) _ = _ :: outcomes (directly rest) _
        rw [others]
        exact congrArg (· :: _) (m.outcome ctx st)
      · rw [wrote, Step.wrote_progress m.held, Step.writes, Bool.or_assoc]
        simp only [Step.statementIn?, if_true, m.outcome]
        rfl

/-! ### After the commit -/

/-- A transaction on whose tables nobody else has worked can be committed. -/
theorem Mirrors.commit (m : Mirrors name s d o tx) :
    ((Step.commit name).perform o).1 = some (.ok .done) ∧
      ∀ table, ((Step.commit name).after o).backend.table? table =
        if tx.wrote table then (tx.copies.get? table).map Copy.committed
        else s.backend.table? table := by
  have unchanged : o.backend.database.Unchanged tx := by
    intro table copy copied _
    obtain ⟨t, found, base, _⟩ := m.based table copy copied
    rw [m.database]
    exact ⟨t, found, base.symm⟩
  have put := Database.commit_eq_ok_iff.2 ⟨unchanged, rfl⟩
  rw [Step.after, Step.perform_commit m.held, put]
  refine ⟨rfl, fun table => ?_⟩
  have same : s.backend.table? table = o.backend.database.tables.get? table := by
    rw [m.database]
    rfl
  rw [same]
  exact Database.get?_tables_commit put table

theorem isSchemaChange_directly : ∀ step ∈ directly work, step.isSchemaChange = false := by
  intro step mem
  obtain ⟨w, _, rfl⟩ := List.mem_map.1 mem
  rfl

/-- The session after statements in a transaction of their own, in terms of the same statements done
directly. -/
theorem exists_mirrors (name : String) (work : List (Context × Statement)) (s : Session System) :
    ∃ o tx, Mirrors name s (after (directly work) s) o tx ∧
      after (ownTransaction name work) s = (Step.commit name).after o ∧
      outcomes (ownTransaction name work) s =
        some (.ok (.count (s.backend.database.begun + 1))) :: outcomes (directly work) s ++
          [some (.ok .done)] ∧
      ∀ table, tx.wrote table = someStep (Step.writesDirectly table) (directly work) s := by
  obtain ⟨answers, tx, mirrors, wrote⟩ := (Mirrors.begin name s).run work
  refine ⟨_, tx, mirrors, ?_, ?_, wrote⟩
  · rw [ownTransaction, List.cons_append, after_cons, after_append]
    rfl
  · rw [ownTransaction, List.cons_append, outcomes_cons, outcomes_append, answers]
    show _ :: (_ ++ [((Step.commit name).perform _).1]) = _
    rw [mirrors.commit.1]
    rfl

/-- A table that is not written is the same afterwards both ways. One that is written has the same
content both ways; after the commit it is one version later than before, and directly it is of a later
version as well, or still the same table. -/
theorem table?_cases (name : String) (work : List (Context × Statement)) (s : Session System)
    (table : String) :
    let direct := after (directly work) s
    let own := after (ownTransaction name work) s
    (someStep (Step.writesDirectly table) (directly work) s = false ∧
        direct.backend.table? table = s.backend.table? table ∧
        own.backend.table? table = s.backend.table? table) ∨
      (someStep (Step.writesDirectly table) (directly work) s = true ∧
        ∃ t u v, s.backend.table? table = some t ∧ direct.backend.table? table = some u ∧
          own.backend.table? table = some v ∧ v.content = u.content ∧ v.version = t.version + 1 ∧
          (u = t ∨ t.version < u.version)) := by
  obtain ⟨o, tx, mirrors, ends, _, wrote⟩ := exists_mirrors name work s
  have newer : Newer (s.backend.table? table) ((after (directly work) s).backend.table? table) :=
    newer_after isSchemaChange_directly s table
  have view := mirrors.view table
  have put := mirrors.commit.2 table
  rw [ends]
  cases copied : tx.copies.get? table with
  | none =>
      have unwritten : tx.wrote table = false := by
        rw [Transaction.wrote, copied]
        rfl
      rw [unwritten] at put
      rw [wrote] at unwritten
      rw [Transaction.view, copied] at view
      exact .inl ⟨unwritten, view, put⟩
  | some copy =>
      obtain ⟨t, found, base, same⟩ := mirrors.based table copy copied
      have before : s.backend.table? table = some t := found
      rw [Transaction.view, copied] at view
      have marked : tx.wrote table = copy.isWritten := by
        rw [Transaction.wrote, copied]
        rfl
      rw [marked, copied] at put
      cases written : copy.isWritten with
      | false =>
          rw [written] at put
          refine .inl ⟨by rw [← wrote, marked, written], ?_, put⟩
          rw [view, before, ← same written]
          rfl
      | true =>
          rw [written] at put
          refine .inr ⟨by rw [← wrote, marked, written], t, copy.table, copy.committed, before, view,
            put, rfl, by rw [Copy.committed, base], ?_⟩
          rw [before, view] at newer
          obtain ⟨_, same, newer⟩ := newer
          cases same
          exact newer

/-- Both ways a table holds the same afterwards. -/
theorem content_ownTransaction (name : String) (work : List (Context × Statement))
    (s : Session System) (table : String) :
    ((after (ownTransaction name work) s).backend.table? table).map Table.content =
      ((after (directly work) s).backend.table? table).map Table.content := by
  rcases table?_cases name work s table with ⟨_, direct, own⟩ | ⟨_, t, u, v, _, direct, own, same, _⟩
  · rw [own, direct]
  · rw [own, direct]
    exact congrArg some same

/-- A version up to now is the one after the commit if it is the one after direct work, and the table
was not written in vain. -/
theorem version_ownTransaction_iff {table : String} {t : Table} {base : Nat}
    (found : s.backend.table? table = some t) (le : base ≤ t.version) :
    (∃ v, (after (ownTransaction name work) s).backend.table? table = some v ∧ v.version = base) ↔
      (∃ u, (after (directly work) s).backend.table? table = some u ∧ u.version = base) ∧
        ¬ InVain table work s := by
  rw [InVain, found]
  rcases table?_cases name work s table with
    ⟨unwritten, direct, own⟩ | ⟨written, t', u, v, found', direct, own, _, version, later⟩
  · rw [unwritten, own, direct]
    simp
  · rw [found] at found'
    cases found'
    rw [own, direct, written]
    simp only [Option.some.injEq, exists_eq_left', true_and]
    rcases later with rfl | later
    · simp
      omega
    · omega

/-- The other transactions are the same both ways. -/
theorem transactions_ownTransaction {other : String} (ne : other ≠ name) :
    (after (ownTransaction name work) s).backend.transactions.get? other =
      s.backend.transactions.get? other := by
  obtain ⟨o, tx, mirrors, ends, _⟩ := exists_mirrors name work s
  rw [ends, Step.get?_transactions_after (by simp [Step.bounds, Ne.symm ne]) rfl,
    mirrors.others other ne]

theorem transactions_directly (work : List (Context × Statement)) (s : Session System) :
    (after (directly work) s).backend.transactions = s.backend.transactions := by
  obtain ⟨o, tx, mirrors, _⟩ := exists_mirrors "" work s
  exact mirrors.directs

theorem perform_commit_ok_iff (held : s.backend.transactions.get? name = some tx) :
    ((Step.commit name).perform s).1 = some (.ok .done) ↔ s.backend.database.Unchanged tx := by
  rw [Step.perform_commit held]
  simp only [Option.some.injEq, change_eq_done_iff, Database.commit_eq_ok_iff, exists_and_left,
    exists_eq, and_true]

/-- Another transaction can be committed after both ways alike, unless it wrote a table that was written
in vain. -/
theorem commit_ownTransaction_iff (fresh : s.backend.transactions.get? name = none)
    (attached : Attached s) {other : String} (held : s.backend.transactions.get? other = some tx) :
    ((Step.commit other).perform (after (ownTransaction name work) s)).1 = some (.ok .done) ↔
      ((Step.commit other).perform (after (directly work) s)).1 = some (.ok .done) ∧
        ∀ table, tx.wrote table = true → ¬ InVain table work s := by
  have ne : other ≠ name := by
    rintro rfl
    rw [fresh] at held
    cases held
  rw [perform_commit_ok_iff ((transactions_ownTransaction ne).trans held),
    perform_commit_ok_iff (by rw [transactions_directly, held])]
  constructor
  · intro unchanged
    constructor
    · intro table copy copied written
      obtain ⟨t, found, le⟩ := attached other tx table copy held copied
      exact ((version_ownTransaction_iff found le).1 (unchanged table copy copied written)).1
    · intro table wrote
      obtain ⟨copy, copied, written⟩ := Transaction.wrote_eq_true_iff.1 wrote
      obtain ⟨t, found, le⟩ := attached other tx table copy held copied
      exact ((version_ownTransaction_iff found le).1 (unchanged table copy copied written)).2
  · intro h
    obtain ⟨unchanged, spared⟩ := h
    intro table copy copied written
    obtain ⟨t, found, le⟩ := attached other tx table copy held copied
    have wrote := Transaction.wrote_eq_true_iff.2 ⟨copy, copied, written⟩
    exact (version_ownTransaction_iff found le).2
      ⟨unchanged table copy copied written, spared table wrote⟩

/-- A transaction is begun and given up, which takes a number and does nothing else. -/
def passing (name : String) : List Step := [.begin name, .rollback name]

theorem database_after_passing (name : String) (s : Session System) :
    (after (passing name) s).backend.database =
      { s.backend.database with begun := s.backend.database.begun + 1 } :=
  Step.database_after_rollback name _

theorem transactions_after_passing {other : String} (ne : other ≠ name) :
    (after (passing name) s).backend.transactions.get? other =
      s.backend.transactions.get? other := by
  rw [passing, after_cons, after_cons, after_nil,
    Step.get?_transactions_after (by simp [Step.bounds, Ne.symm ne]) rfl,
    Step.get?_transactions_after (by simp [Step.bounds, Ne.symm ne]) rfl]

/-- If no open transaction has a copy of a table as it stands that is written in vain, nothing but a
number tells the two ways apart. -/
theorem twins_ownTransaction (fresh : s.backend.transactions.get? name = none)
    (attached : Attached s) (spared : ∀ table, InVain table work s → ¬ Watched table s) :
    Twins (after (ownTransaction name work) s)
      (after (passing name) (after (directly work) s)) := by
  obtain ⟨o, tx, mirrors, ends, _⟩ := exists_mirrors name work s
  have database := database_after_passing name (after (directly work) s)
  constructor
  · rw [ends, passing, after_cons, after_cons, after_nil, Step.clock_after, Step.clock_after,
      Step.clock_after]
    exact mirrors.clock.1.trans mirrors.clock.2.symm
  · rw [database, ends, Step.begun_after, mirrors.begun, mirrors.database]
    rfl
  · intro table
    rw [System.table?, database]
    exact (content_ownTransaction name work s table).symm
  · intro other
    by_cases same : other = name
    · subst same
      rw [ends, get?_transactions_of_end (by simp), passing, after_cons, after_cons, after_nil,
        get?_transactions_of_end (by simp)]
      exact .none
    · rw [transactions_ownTransaction same, transactions_after_passing same, transactions_directly]
      cases held : s.backend.transactions.get? other with
      | none => exact .none
      | some theirs =>
          refine .some ⟨rfl, fun table => ?_⟩
          cases copied : theirs.copies.get? table with
          | none => exact .none
          | some copy =>
              obtain ⟨t, found, le⟩ := attached other theirs table copy held copied
              refine .some ⟨rfl, rfl, ?_⟩
              rw [database]
              rcases table?_cases name work s table with
                ⟨_, direct, own⟩ | ⟨written, t', u, v, found', direct, own, _, version, later⟩
              · rw [found] at direct own
                refine ⟨t, t, own, direct, ?_⟩
                omega
              · rw [found] at found'
                cases found'
                have old : copy.base < t.version ∨ t.version < u.version := by
                  rcases later with rfl | later
                  · refine .inl (Nat.lt_of_le_of_ne le fun current => ?_)
                    refine spared table ⟨written, ?_⟩ ⟨other, theirs, copy, u, held, copied, found,
                      current⟩
                    rw [direct, found]
                  · exact .inr later
                refine ⟨v, u, own, direct, .inr ⟨by omega, ?_⟩⟩
                rcases later with rfl | later <;> omega

/-- **Direct work and a transaction of its own.** Statements that are done in a fresh transaction, which
is then committed, answer as they do directly, the commit goes through, and the tables hold the same.
Another open transaction can then be committed if it could be after the direct work, unless it wrote a
table that was written in vain. If no open transaction has a copy of such a table, every later step
comes to the same as after the direct work, once the number of the transaction is taken there too, and
the tables still hold the same; it is only assumed that no table is dropped of which a transaction has
a copy. -/
theorem own_transaction_like_direct (fresh : s.backend.transactions.get? name = none)
    (attached : Attached s) :
    let direct := after (directly work) s
    let own := after (ownTransaction name work) s
    outcomes (ownTransaction name work) s =
        some (.ok (.count (s.backend.database.begun + 1))) :: outcomes (directly work) s ++
          [some (.ok .done)] ∧
      (∀ table, (own.backend.table? table).map Table.content =
        (direct.backend.table? table).map Table.content) ∧
      (∀ other tx, s.backend.transactions.get? other = some tx →
        (((Step.commit other).perform own).1 = some (.ok .done) ↔
          ((Step.commit other).perform direct).1 = some (.ok .done) ∧
            ∀ table, tx.wrote table = true → ¬ InVain table work s)) ∧
      ((∀ table, InVain table work s → ¬ Watched table s) →
        ∀ later, Sparing later own →
          outcomes later own = outcomes later (after (passing name) direct) ∧
            ∀ table, ((after later own).backend.table? table).map Table.content =
              ((after (passing name ++ later) direct).backend.table? table).map Table.content) := by
  intro direct own
  obtain ⟨_, _, _, _, answers, _⟩ := exists_mirrors name work s
  refine ⟨answers, content_ownTransaction name work s, fun other tx held =>
    commit_ownTransaction_iff fresh attached held, fun spared later sparing => ?_⟩
  obtain ⟨same, twins⟩ := (twins_ownTransaction fresh attached spared).run sparing
  refine ⟨same.symm, fun table => ?_⟩
  rw [after_append]
  exact (twins.content table).symm

/-- A transaction has written a table that holds one note. -/
def writtenNotes : List Step :=
  [.createTable notes, .direct now (putNote "1"), .begin "b", .within "b" now (putNote "2")]

theorem own_transaction_like_direct_notes :
    let s := after writtenNotes ⟨{}, 0, [], [], []⟩
    let work := [(now, putNote "3")]
    let own := after (ownTransaction "a" work) s
    let direct := after (directly work) s
    let later := [.commit "b", .begin "c", .within "c" now ⟨notes, .get (.string "3")⟩]
    outcomes (ownTransaction "a" work) s =
        [some (.ok (.count 2)), some (.ok .done), some (.ok .done)] ∧
      outcomes later own = outcomes later (after (passing "a") direct) ∧
      ∀ table, ((after later own).backend.table? table).map Table.content =
        ((after (passing "a" ++ later) direct).backend.table? table).map Table.content := by
  intro s work own direct later
  have attached : Attached s := by
    refine attached_after ?_ ⟨trivial, trivial, trivial, trivial, trivial⟩
    intro name tx table copy held
    cases held
  obtain ⟨answers, _, _, alike⟩ := @own_transaction_like_direct "a" work s rfl attached
  refine ⟨answers, alike ?_ later ⟨trivial, trivial, trivial, trivial⟩⟩
  -- The new note counts up the version of its table, and no other table is written.
  intro table vain
  obtain ⟨written, same⟩ := vain
  have target : (("notes" == table && _) || false) = true := written
  rw [Bool.or_false, Bool.and_eq_true, beq_iff_eq] at target
  obtain ⟨rfl, _⟩ := target
  have version := congrArg (Option.map Table.version) same
  cases version

/-- The update of a note that is not there. -/
def renameNothing : Statement :=
  ⟨notes, .update { assignments := [("id", .string "9")], predicate := .compare "id" .eq (.string "8") }⟩

/-- An update that meets no row, done directly, lets another transaction commit what it wrote; done in a
transaction of its own it makes that commit fail. -/
theorem own_transaction_spoils_commit :
    let s := after writtenNotes ⟨{}, 0, [], [], []⟩
    let work := [(now, renameNothing)]
    outcomes (directly work) s = [some (.ok (.count 0))] ∧
      outcomes (ownTransaction "a" work) s =
        [some (.ok (.count 2)), some (.ok (.count 0)), some (.ok .done)] ∧
      ((Step.commit "b").perform (after (directly work) s)).1 = some (.ok .done) ∧
      ((Step.commit "b").perform (after (ownTransaction "a" work) s)).1 =
        some (.error (.conflict "table 'notes' changed during transaction 1")) :=
  ⟨rfl, rfl, rfl, rfl⟩

end Depot.Relational
