import Depot.Proofs.Relational.Snapshot

/-!
# Serializability of transactions

A transaction that commits, and that has written every table it touched, might as well have run all
at once just before its commit: its statements, done directly one after the other on the committed
tables as they stood then, give the same answers and leave the same rows
(`commit_serializable`). Nothing is assumed of the other steps in between, direct or in any number
of other transactions, than that they create and drop no tables.

The proof replays the transaction along the run. In every state the replay has, of each table, what
the transaction sees beside the database of the end: a copy was taken of a table that still has its
version at the commit, and tables only get newer, so the copy was taken of the table that the replay
starts from.
-/

namespace Depot.Relational

/-- What a transaction does in a run: its statements, with what came of each. -/
def work (name : String) : List Step → Session System → List (Statement × Outcome)
  | [], _ => []
  | step :: rest, s =>
    match step.statementIn? name with
    | some (_, st) => (st, (step.perform s).1) :: work name rest (step.after s)
    | none => work name rest (step.after s)

/-- The statements of a transaction in a run find their contexts live. -/
def LiveIn (name : String) : List Step → Session System → Prop
  | [], _ => True
  | step :: rest, s =>
    (∀ ctx st, step.statementIn? name = some (ctx, st) → s.refusal? ctx = none) ∧
      LiveIn name rest (step.after s)

/-- The statement found its table. -/
def Touched (w : Statement × Outcome) : Prop :=
  w.2 ≠ some (.error (.tableNotFound w.1.table.name))

/-- The statement is a write and succeeded. -/
def Wrote (w : Statement × Outcome) : Prop :=
  w.1.action.isWrite = true ∧ w.2.any Except.isOk = true

/-- Every table that was touched was also written. -/
def WroteAll (work : List (Statement × Outcome)) : Prop :=
  ∀ w ∈ work, Touched w → ∃ v ∈ work, v.1.table.name = w.1.table.name ∧ Wrote v

/-- The statements done directly, one after the other. -/
def serial (ctx : Context) (work : List (Statement × Outcome)) : List Step :=
  work.map fun w => .direct ctx w.1

/-- What a table holds, apart from the count of its changes. -/
def Table.content (t : Table) : Spec × List Row := (t.spec, t.rows)

variable {name : String} {steps : List Step} {s r : Session System} {tx final : Transaction}
  {ctx : Context}

/-! ### The work of a transaction -/

/-- A step adds one statement to the work of a transaction, which the transaction performs on what it
sees, or it adds nothing and leaves the transaction as it is. -/
theorem work_cons {step : Step} (lives : LiveIn name (step :: steps) s)
    (held : s.backend.transactions.get? name = some tx) :
    (step.progress name s tx = tx ∧
        work name (step :: steps) s = work name steps (step.after s)) ∨
      ∃ st, step.progress name s tx = (tx.perform s.backend.database st).2 ∧
        work name (step :: steps) s =
          (st, some (tx.perform s.backend.database st).1) :: work name steps (step.after s) := by
  cases own : step.statementIn? name with
  | none =>
      left
      constructor
      · rw [Step.progress, own]
      · rw [work, own]
  | some statement =>
      obtain ⟨ctx, st⟩ := statement
      have live := lives.1 ctx st own
      right
      refine ⟨st, ?_, ?_⟩
      · simp [Step.progress, own, live]
      · rw [work, own]
        rw [Step.statementIn?_eq_some_iff.1 own, Step.perform_within_of_live held live]

/-- A transaction holds copies only of tables that it touched. -/
theorem exists_touched (inside : ∀ step ∈ steps, step.bounds name = false)
    (lives : LiveIn name steps s) (held : s.backend.transactions.get? name = some tx)
    (ends : (after steps s).backend.transactions.get? name = some final) {table : String}
    {copy : Copy} (copied : final.copies.get? table = some copy) :
    (tx.copies.get? table).isSome ∨
      ∃ w ∈ work name steps s, w.1.table.name = table ∧ Touched w := by
  induction steps generalizing s tx with
  | nil =>
      rw [after_nil, held] at ends
      cases ends
      exact .inl (by simp [copied])
  | cons step rest ih =>
      obtain ⟨first, inside⟩ := List.forall_mem_cons.1 inside
      have next := Step.get?_transactions_progress first held
      have rest := ih inside lives.2 next ends
      rcases work_cons lives held with ⟨same, whole⟩ | ⟨st, same, whole⟩
      · rwa [same, ← whole] at rest
      · rw [whole]
        rcases rest with before | ⟨w, mem, on, touched⟩
        · rw [same, Transaction.get?_copies_perform] at before
          split at before
          · next target =>
              refine .inr ⟨_, List.mem_cons_self, target.symm, ?_⟩
              rw [Option.isSome_map, target] at before
              obtain ⟨worked, found⟩ := Option.isSome_iff_exists.1 before
              exact fun failed =>
                Transaction.perform_ne_tableNotFound found _ (Option.some.inj failed)
          · exact .inl before
        · exact .inr ⟨w, List.mem_cons_of_mem _ mem, on, touched⟩

/-- What a transaction wrote is marked in it until it ends. -/
theorem wrote_of_mem_work (inside : ∀ step ∈ steps, step.bounds name = false)
    (lives : LiveIn name steps s) (held : s.backend.transactions.get? name = some tx)
    (ends : (after steps s).backend.transactions.get? name = some final)
    {w : Statement × Outcome} (mem : w ∈ work name steps s) (written : Wrote w) :
    final.wrote w.1.table.name = true := by
  induction steps generalizing s tx with
  | nil => cases mem
  | cons step rest ih =>
      obtain ⟨first, inside⟩ := List.forall_mem_cons.1 inside
      have next := Step.get?_transactions_progress first held
      rw [after_cons] at ends
      rcases work_cons lives held with ⟨same, whole⟩ | ⟨st, same, whole⟩
      · rw [whole] at mem
        exact ih inside lives.2 next ends mem
      · rw [whole] at mem
        rcases List.mem_cons.1 mem with rfl | mem
        · have marked := Transaction.wrote_perform written.1 written.2
          rw [← same] at marked
          exact (extends_of_ends inside next ends).wrote marked
        · exact ih inside lives.2 next ends mem

/-! ### Replaying a transaction -/

/-- A statement of the transaction and the same statement on the tables that the transaction sees
answer alike, and then see alike. -/
theorem replay_statement {st : Statement} {last : Database}
    (seen : tx.view s.backend.database st.table.name = tx.view last st.table.name)
    (agree : ∀ table, r.backend.table? table = tx.view last table) (live : r.refusal? ctx = none) :
    ((Step.direct ctx st).perform r).1 = some (tx.perform s.backend.database st).1 ∧
      ∀ table, ((Step.direct ctx st).after r).backend.table? table =
        (tx.perform s.backend.database st).2.view last table := by
  rw [Step.after, Step.perform_direct_of_live live]
  constructor
  · have found : r.backend.database.tables.get? st.table.name = tx.view last st.table.name :=
      agree st.table.name
    show some (r.backend.database.perform st).1 = _
    rw [Database.perform_eq, Transaction.perform_eq, found, seen]
  · intro table
    have found : r.backend.database.tables.get? table = tx.view last table := agree table
    rw [Transaction.view_perform seen]
    show (r.backend.database.perform st).2.tables.get? table = _
    rw [Database.get?_tables_perform, found]

/-- The replay of a transaction beside the database of the end. -/
theorem replay (inside : ∀ step ∈ steps, step.bounds name = false)
    (kept : ∀ step ∈ steps, step.isSchemaChange = false) (lives : LiveIn name steps s)
    (held : s.backend.transactions.get? name = some tx)
    (ends : (after steps s).backend.transactions.get? name = some final)
    (settled : final.Settled (after steps s).backend.database)
    (agree : ∀ table, r.backend.table? table = tx.view (after steps s).backend.database table)
    (live : r.refusal? ctx = none) :
    outcomes (serial ctx (work name steps s)) r = (work name steps s).map Prod.snd ∧
      ∀ table, (after (serial ctx (work name steps s)) r).backend.table? table =
        final.view (after steps s).backend.database table := by
  induction steps generalizing s r tx with
  | nil =>
      rw [after_nil, held] at ends
      cases ends
      exact ⟨rfl, agree⟩
  | cons step rest ih =>
      have newer := newer_after kept (s := s)
      rw [after_cons] at ends settled agree newer ⊢
      obtain ⟨first, inside⟩ := List.forall_mem_cons.1 inside
      have kept := (List.forall_mem_cons.1 kept).2
      have next := Step.get?_transactions_progress first held
      rcases work_cons lives held with ⟨same, whole⟩ | ⟨st, same, whole⟩
      · rw [same] at next
        rw [whole]
        exact ih inside kept lives.2 next ends settled agree live
      · rw [same] at next
        -- A copy that this statement takes lasts to the end, where it is settled. So the table it was
        -- taken of is the one that the replay started from.
        have grown := extends_of_ends inside next ends
        have seen := Transaction.view_eq_of_settled (newer st.table.name) grown settled
        obtain ⟨answer, agree'⟩ := replay_statement seen agree live
        have live' : ((Step.direct ctx st).after r).refusal? ctx = none := by
          rw [Step.after, Step.perform_direct_of_live live]
          simpa using live
        obtain ⟨others, agreed⟩ := ih inside kept lives.2 next ends settled agree' live'
        rw [whole]
        refine ⟨?_, agreed⟩
        rw [serial, List.map_cons, outcomes_cons, answer, List.map_cons, ← others]
        rfl

/-! ### Serializability -/

/-- A transaction that wrote every table it touched can commit only if all its copies are settled. -/
theorem settled_of_commit {db database : Database} (wrote : ∀ table copy,
    final.copies.get? table = some copy → final.wrote table = true)
    (committed : db.commit final = .ok database) : final.Settled db := by
  intro table copy copied
  obtain ⟨held, copied', isWritten⟩ := Transaction.wrote_eq_true_iff.1 (wrote table copy copied)
  rw [copied] at copied'
  cases copied'
  exact (Database.commit_eq_ok_iff.1 committed).1 table copy copied isWritten

/-- Beside the tables at its commit, a transaction that wrote all its copies sees what the commit
leaves. -/
theorem content_view_of_commit {db database : Database} (wrote : ∀ table copy,
    final.copies.get? table = some copy → final.wrote table = true)
    (committed : db.commit final = .ok database) (table : String) :
    (final.view db table).map Table.content = (database.tables.get? table).map Table.content := by
  rw [Database.get?_tables_commit committed, Transaction.view]
  cases copied : final.copies.get? table with
  | none => simp [Transaction.wrote, copied]
  | some copy =>
      rw [wrote table copy copied]
      rfl

/-- Serializability: if a transaction that wrote every table it touched commits, then its statements,
done directly in the same order on the database as it stood just before the commit, give the same
answers and leave the same tables with the same rows in the same order. -/
theorem commit_serializable (inside : ∀ step ∈ steps, step.bounds name = false)
    (kept : ∀ step ∈ steps, step.isSchemaChange = false)
    (lives : LiveIn name steps ((Step.begin name).after s))
    (wroteAll : WroteAll (work name steps ((Step.begin name).after s)))
    (live : (after (.begin name :: steps) s).refusal? ctx = none)
    (committed : ((Step.commit name).perform (after (.begin name :: steps) s)).1 =
      some (.ok .done)) :
    let before := after (.begin name :: steps) s
    let done := work name steps ((Step.begin name).after s)
    outcomes (serial ctx done) before = done.map Prod.snd ∧
      ∀ table, ((after (serial ctx done) before).backend.table? table).map Table.content =
        (((Step.commit name).after before).backend.table? table).map Table.content := by
  rw [after_cons] at live committed ⊢
  let begun := (Step.begin name).after s
  have held : begun.backend.transactions.get? name = some s.backend.database.begin.1 :=
    Dict.get?_insert_self _ _ _
  obtain ⟨final, ends, _⟩ := exists_extends inside held
  have wrote : ∀ table copy, final.copies.get? table = some copy → final.wrote table = true := by
    intro table copy copied
    rcases exists_touched inside lives held ends copied with before | ⟨w, mem, on, touched⟩
    · cases before
    · obtain ⟨v, mem', same, written⟩ := wroteAll w mem touched
      rw [← on, ← same]
      exact wrote_of_mem_work inside lives held ends mem' written
  cases put : (after steps begun).backend.database.commit final with
  | error e =>
      rw [Step.perform_commit ends, put] at committed
      cases committed
  | ok database =>
      have settled := settled_of_commit wrote put
      have agree (table : String) : (after steps begun).backend.table? table =
          s.backend.database.begin.1.view (after steps begun).backend.database table := rfl
      obtain ⟨answers, tables⟩ := replay inside kept lives held ends settled agree live
      constructor
      · exact answers
      · intro table
        rw [tables, content_view_of_commit wrote put, Step.after, Step.perform_commit ends, put]
        rfl

/-- A transaction that writes and reads a note while another one writes the same table and gives up,
and one more note stands there already. -/
def interleaving : List Step :=
  [.begin "b", .within "a" now (putNote "1"), .within "b" now (putNote "2"),
    .within "a" now ⟨notes, .get (.string "0")⟩, .rollback "b"]

theorem commit_serializable_interleaving :
    let s := after [.createTable notes, .direct now (putNote "0")] ⟨{}, 0, [], [], []⟩
    let before := after (.begin "a" :: interleaving) s
    let done := work "a" interleaving ((Step.begin "a").after s)
    done.length = 2 ∧ outcomes (serial now done) before = done.map Prod.snd ∧
      ∀ table, ((after (serial now done) before).backend.table? table).map Table.content =
        (((Step.commit "a").after before).backend.table? table).map Table.content := by
  refine ⟨rfl, commit_serializable (by decide) (by decide) ?lives ?wroteAll rfl rfl⟩
  case lives =>
    refine ⟨fun _ _ own => ?_, fun _ _ own => ?_, fun _ _ own => ?_, fun _ _ own => ?_,
      fun _ _ own => ?_, trivial⟩ <;> cases own <;> rfl
  case wroteAll =>
    intro w mem _
    refine ⟨_, List.mem_cons_self, ?_, rfl, rfl⟩
    rcases List.mem_cons.1 mem with rfl | mem
    · rfl
    · cases List.mem_singleton.1 mem
      rfl

end Depot.Relational
