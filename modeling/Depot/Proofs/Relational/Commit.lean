import Depot.Proofs.Fallible
import Depot.Proofs.Relational.System

/-!
# Transactions and what their commit puts in place

The database after a commit, table by table: a written copy stands in place of its table, with the
version after the one it was copied at; every other table is as it was (`get?_tables_commit`). The
commit succeeds exactly if the table of every written copy still has the version it was copied at
(`commit_eq_ok_iff`).
-/

namespace Depot.Relational

/-- The table that the commit of a written copy puts in place. -/
def Copy.committed (copy : Copy) : Table := { copy.table with version := copy.base + 1 }

namespace Transaction

/-- Whether a transaction has written a table. -/
def wrote (tx : Transaction) (table : String) : Bool :=
  (tx.copies.get? table).any Copy.isWritten

theorem wrote_eq_true_iff {tx : Transaction} {table : String} :
    tx.wrote table = true ↔ ∃ copy, tx.copies.get? table = some copy ∧ copy.isWritten = true := by
  rw [wrote, Option.any_eq_true]

/-- The answer of a statement in a transaction, and the transaction after it. -/
def perform (tx : Transaction) (db : Database) (st : Statement) : Except Error Answer × Transaction :=
  tx.visit db st.table.name st.action.isWrite fun t => st.action.onTable st.table.name t

end Transaction

namespace Database

/-- The answer of a statement on a database, and the database after it. -/
def perform (db : Database) (st : Statement) : Except Error Answer × Database :=
  db.visit st.table.name fun t => st.action.onTable st.table.name t

theorem mem_written_iff {tx : Transaction} {table : String} {copy : Copy} :
    (table, copy) ∈ written tx ↔ tx.copies.get? table = some copy ∧ copy.isWritten = true := by
  rw [written, List.mem_filter, Dict.get?_eq_some_iff]

theorem checkCopy_eq_ok_iff {db : Database} {tx : Transaction} {table : String} {copy : Copy} :
    db.checkCopy tx (table, copy) = .ok () ↔
      ∃ t, db.tables.get? table = some t ∧ t.version = copy.base := by
  cases found : db.tables.get? table with
  | none => simp [checkCopy, found]
  | some t =>
      by_cases same : t.version = copy.base
      · simp [checkCopy, found, same]
      · simp [checkCopy, found, same]

/-- A transaction can commit if every table it wrote is still at the version of its copy. -/
def Unchanged (db : Database) (tx : Transaction) : Prop :=
  ∀ table copy, tx.copies.get? table = some copy → copy.isWritten = true →
    ∃ t, db.tables.get? table = some t ∧ t.version = copy.base

theorem forM_checkCopy_eq_ok_iff {db : Database} {tx : Transaction} :
    (written tx).forM (db.checkCopy tx) = .ok () ↔ db.Unchanged tx := by
  rw [Fallible.forM_eq_ok_iff]
  constructor
  · intro h table copy found isWritten
    exact checkCopy_eq_ok_iff.1 (h (table, copy) (mem_written_iff.2 ⟨found, isWritten⟩))
  · rintro h ⟨table, copy⟩ mem
    have ⟨found, isWritten⟩ := mem_written_iff.1 mem
    exact checkCopy_eq_ok_iff.2 (h table copy found isWritten)

theorem commit_eq_ok_iff {db after : Database} {tx : Transaction} :
    db.commit tx = .ok after ↔
      db.Unchanged tx ∧ after = { db with tables := (written tx).foldl putCopy db.tables } := by
  rw [commit, Fallible.bind_eq_ok_iff, ← forM_checkCopy_eq_ok_iff]
  constructor
  · intro h
    obtain ⟨_, passed, same⟩ := h
    cases same
    exact ⟨passed, rfl⟩
  · intro h
    obtain ⟨passed, rfl⟩ := h
    exact ⟨(), passed, rfl⟩

theorem nodup_written (tx : Transaction) : ((written tx).map Prod.fst).Nodup :=
  (Entries.Ordered.nodup tx.copies.ordered).sublist (List.filter_sublist.map Prod.fst)

theorem lookup_written (tx : Transaction) (table : String) :
    (written tx).lookup table =
      (tx.copies.get? table).bind fun copy => if copy.isWritten then some copy else none := by
  cases found : (written tx).lookup table with
  | some copy =>
      have ⟨held, isWritten⟩ := mem_written_iff.1 (Entries.mem_of_lookup found)
      simp [held, isWritten]
  | none =>
      cases held : tx.copies.get? table with
      | none => rfl
      | some copy =>
          cases isWritten : copy.isWritten with
          | false => simp [isWritten]
          | true =>
              have mem := mem_written_iff.2 ⟨held, isWritten⟩
              rw [Entries.lookup_of_mem_of_nodup (nodup_written tx) mem] at found
              simp at found

/-- What stands under a name after a commit. -/
theorem get?_tables_commit {db after : Database} {tx : Transaction} (h : db.commit tx = .ok after)
    (table : String) :
    after.tables.get? table =
      if tx.wrote table then (tx.copies.get? table).map Copy.committed
      else db.tables.get? table := by
  have put := Dict.get?_foldl_insert (fun _ copy => Copy.committed copy) (nodup_written tx)
    db.tables table
  rw [(commit_eq_ok_iff.1 h).2]
  show ((written tx).foldl putCopy db.tables).get? table = _
  refine Eq.trans put ?_
  rw [lookup_written, Transaction.wrote]
  cases tx.copies.get? table with
  | none => rfl
  | some copy => cases isWritten : copy.isWritten <;> simp [isWritten]

end Database

end Depot.Relational
