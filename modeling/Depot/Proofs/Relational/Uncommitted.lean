import Depot.Proofs.Relational.Snapshot

/-!
# Work that is never committed

A transaction may be rolled back, its commit may fail, or it may never end. Whatever was done in it is
then as if it had not been done: with all its statements taken out of the run, and the rollback or the
failed commit as well, everything else that happens comes out the same, and so does the database
(`uncommitted_invisible`).

A run and what is left of it are followed side by side. They agree on the database at every moment,
because a statement in a transaction leaves it alone and a commit that fails does too. They also agree
on those transactions that will be committed; of the others nothing is known.
-/

namespace Depot.Relational

namespace Step

/-- The name of the transaction that a step is done in, a commit or a rollback included. -/
def transaction? : Step → Option String
  | within name _ _ | commit name | rollback name => some name
  | _ => none

/-- Whether a step is a commit that goes through. -/
def seals (s : Session System) : Step → Bool
  | commit name => ((commit name).perform s).1.any Except.isOk
  | _ => false

end Step

/-- Whether the transaction that is open under a name will be committed: of the steps that begin or end
a transaction of that name, the first is a commit that goes through. -/
def commits (name : String) : List Step → Session System → Bool
  | [], _ => false
  | step :: rest, s =>
    if step.bounds name then step.seals s else commits name rest (step.after s)

/-- What is left of a run without the transactions that are not committed, with what came of each
step. Their beginnings stay, because every transaction takes a number. -/
def lasting : List Step → Session System → List (Step × Outcome)
  | [], _ => []
  | step :: rest, s =>
    if step.transaction?.all fun name => commits name (step :: rest) s then
      (step, (step.perform s).1) :: lasting rest (step.after s)
    else lasting rest (step.after s)

variable {name : String} {step : Step} {rest steps : List Step} {s r : Session System}

theorem commits_of_bounds (h : step.bounds name = true) :
    commits name (step :: rest) s = step.seals s :=
  if_pos h

theorem commits_of_inside (h : step.bounds name = false) :
    commits name (step :: rest) s = commits name rest (step.after s) :=
  if_neg (ne_true_of_eq_false h)

/-- A step that does not bound a transaction does not open it. -/
theorem get?_transactions_of_closed (inside : step.bounds name = false)
    (closed : s.backend.transactions.get? name = none) :
    (step.after s).backend.transactions.get? name = none := by
  cases own : step.statementIn? name with
  | none => rw [Step.get?_transactions_after inside own, closed]
  | some statement =>
      rw [Step.statementIn?_eq_some_iff.1 own, Step.after, Step.perform_within_of_closed closed, closed]

/-- Only a transaction that is open will be committed. -/
theorem exists_of_commits (h : commits name steps s = true) :
    ∃ tx, s.backend.transactions.get? name = some tx := by
  induction steps generalizing s with
  | nil => cases h
  | cons step rest ih =>
      cases held : s.backend.transactions.get? name with
      | some tx => exact ⟨tx, rfl⟩
      | none =>
          cases bounds : step.bounds name with
          | false =>
              rw [commits_of_inside bounds] at h
              obtain ⟨tx, open'⟩ := ih h
              rw [get?_transactions_of_closed bounds held] at open'
              cases open'
          | true =>
              rw [commits_of_bounds bounds] at h
              cases step with
              | commit tx =>
                  have same : tx = name := by simpa [Step.bounds] using bounds
                  subst same
                  simp [Step.seals, Step.perform, held] at h
              | _ => cases h

/-! ### A run and what is left of it -/

/-- A session of a run, and the session that what is left of the run has got to by then. -/
structure Shadows (steps : List Step) (s r : Session System) : Prop where
  database : r.backend.database = s.backend.database
  clock : r.clock = s.clock
  transactions : ∀ name, commits name steps s = true →
    r.backend.transactions.get? name = s.backend.transactions.get? name

theorem Shadows.refl (steps : List Step) (s : Session System) : Shadows steps s s :=
  ⟨rfl, rfl, fun _ _ => rfl⟩

/-- A transaction that a step ends is closed, whatever comes of its end. -/
theorem get?_transactions_of_end (h : step = .commit name ∨ step = .rollback name) :
    (step.after s).backend.transactions.get? name = none := by
  cases held : s.backend.transactions.get? name with
  | none => rcases h with rfl | rfl <;> simp [Step.after, Step.perform, held]
  | some tx =>
      rcases h with rfl | rfl
      · rw [Step.after, Step.perform_commit held]
        exact Dict.get?_erase_self _ _
      · simp only [Step.after, Step.perform, held]
        exact Dict.get?_erase_self _ _

/-- A step that bounds a transaction which will be committed begins it. -/
theorem eq_begin_of_bounds (bounds : step.bounds name = true)
    (committed : commits name rest (step.after s) = true) : step = .begin name := by
  obtain ⟨tx, held⟩ := exists_of_commits committed
  cases step with
  | begin tx => simpa [Step.bounds] using bounds
  | commit tx | rollback tx =>
      have same : tx = name := by simpa [Step.bounds] using bounds
      subst same
      rw [get?_transactions_of_end (by simp)] at held
      cases held
  | _ => cases bounds

/-- A step of a transaction that is not committed leaves the database alone. -/
theorem database_of_dropped (inside : step.transaction? = some name)
    (dropped : commits name (step :: rest) s = false) :
    (step.after s).backend.database = s.backend.database := by
  cases step with
  | within tx ctx st => exact Step.database_after_within tx ctx st s
  | rollback tx => exact Step.database_after_rollback tx s
  | commit tx =>
      cases inside
      rw [commits_of_bounds (by simp [Step.bounds])] at dropped
      cases held : s.backend.transactions.get? name with
      | none => simp [Step.after, Step.perform, held]
      | some open' =>
          rw [Step.seals, Step.perform_commit held] at dropped
          rw [Step.after, Step.perform_commit held]
          cases put : s.backend.database.commit open' with
          | ok db => simp [put, System.change, Except.isOk, Except.toBool] at dropped
          | error e => rfl
  | _ => cases inside

namespace Shadows

/-- A step that is left out changes nothing that the two sessions agree on. -/
theorem drop (h : Shadows (step :: rest) s r) (inside : step.transaction? = some name)
    (dropped : commits name (step :: rest) s = false) : Shadows rest (step.after s) r where
  database := by rw [h.database, database_of_dropped inside dropped]
  clock := by
    rw [h.clock, Step.clock_after]
    cases step <;> first | rfl | cases inside
  transactions other committed := by
    cases bounds : step.bounds other with
    | true =>
        rw [eq_begin_of_bounds bounds committed] at inside
        cases inside
    | false =>
        rw [← commits_of_inside bounds] at committed
        rw [h.transactions other committed]
        refine (Step.get?_transactions_after bounds ?_).symm
        cases own : step.statementIn? other with
        | none => rfl
        | some statement =>
            rw [Step.statementIn?_eq_some_iff.1 own] at inside committed dropped
            cases inside
            rw [dropped] at committed
            cases committed

/-- A step that is kept comes to the same in both sessions, and leaves the same database. -/
theorem perform (h : Shadows (step :: rest) s r)
    (kept : ∀ name, step.transaction? = some name → commits name (step :: rest) s = true) :
    (step.perform r).1 = (step.perform s).1 ∧
      (step.after r).backend.database = (step.after s).backend.database := by
  have database := h.database
  cases step with
  | direct ctx st =>
      have same := Session.refusal?_of_clock h.clock ctx
      cases refused : s.refusal? ctx with
      | some e =>
          rw [refused] at same
          rw [Step.after, Step.after, Step.perform_direct_of_refusal refused,
            Step.perform_direct_of_refusal same]
          exact ⟨rfl, database⟩
      | none =>
          rw [refused] at same
          rw [Step.after, Step.after, Step.perform_direct_of_live refused,
            Step.perform_direct_of_live same, database]
          exact ⟨rfl, rfl⟩
  | within name ctx st =>
      have committed := kept name rfl
      obtain ⟨tx, held⟩ := exists_of_commits committed
      have held' := (h.transactions name committed).trans held
      rw [Step.database_after_within, Step.database_after_within]
      refine ⟨?_, database⟩
      have same := Session.refusal?_of_clock h.clock ctx
      cases refused : s.refusal? ctx with
      | some e =>
          rw [refused] at same
          rw [Step.perform_within_of_refusal held refused, Step.perform_within_of_refusal held' same]
      | none =>
          rw [refused] at same
          rw [Step.perform_within_of_live held refused, Step.perform_within_of_live held' same,
            database]
  | begin name =>
      rw [Step.after, Step.after, Step.perform, Step.perform, database]
      exact ⟨rfl, rfl⟩
  | commit name =>
      have committed := kept name rfl
      obtain ⟨tx, held⟩ := exists_of_commits committed
      have held' := (h.transactions name committed).trans held
      rw [Step.after, Step.after, Step.perform_commit held, Step.perform_commit held', database]
      cases s.backend.database.commit tx with
      | ok db => exact ⟨rfl, rfl⟩
      | error e => exact ⟨rfl, database⟩
  | rollback name =>
      have committed := kept name rfl
      rw [commits_of_bounds (by simp [Step.bounds])] at committed
      cases committed
  | createTable table =>
      simp only [Step.after, Step.perform, database]
      cases s.backend.database.createTable table with
      | ok db => exact ⟨rfl, rfl⟩
      | error e => exact ⟨rfl, database⟩
  | dropTable table =>
      simp only [Step.after, Step.perform, database]
      cases s.backend.database.dropTable table with
      | ok db => exact ⟨rfl, rfl⟩
      | error e => exact ⟨rfl, database⟩
  | wait span => exact ⟨rfl, database⟩
  | cancel ctx =>
      rw [Step.backend_after_cancel, Step.backend_after_cancel]
      exact ⟨rfl, database⟩

/-- A step that is kept is done in both sessions. -/
theorem keep (h : Shadows (step :: rest) s r)
    (kept : ∀ name, step.transaction? = some name → commits name (step :: rest) s = true) :
    Shadows rest (step.after s) (step.after r) where
  database := (h.perform kept).2
  clock := by rw [Step.clock_after, Step.clock_after, h.clock]
  transactions name committed := by
    cases bounds : step.bounds name with
    | true =>
        rw [eq_begin_of_bounds bounds committed]
        simp only [Step.after, Step.perform, h.database]
        exact (Dict.get?_insert_self _ _ _).trans (Dict.get?_insert_self _ _ _).symm
    | false =>
        rw [← commits_of_inside bounds] at committed
        obtain ⟨tx, held⟩ := exists_of_commits committed
        have held' := (h.transactions name committed).trans held
        rw [Step.get?_transactions_progress bounds held, Step.get?_transactions_progress bounds held']
        simp only [Step.progress, Session.refusal?_of_clock h.clock, h.database]

/-- What is left of a run goes as the run does. -/
theorem run (h : Shadows steps s r) :
    outcomes ((lasting steps s).map Prod.fst) r = (lasting steps s).map Prod.snd ∧
      (after ((lasting steps s).map Prod.fst) r).backend.database =
        (after steps s).backend.database := by
  induction steps generalizing s r with
  | nil => exact ⟨rfl, h.database⟩
  | cons step rest ih =>
      rw [after_cons, lasting]
      split
      · next lasts =>
          have kept : ∀ name, step.transaction? = some name →
              commits name (step :: rest) s = true := by
            intro name inside
            rwa [inside, Option.all_some] at lasts
          obtain ⟨others, database⟩ := ih (h.keep kept)
          rw [List.map_cons, List.map_cons, outcomes_cons, (h.perform kept).1, others]
          exact ⟨rfl, database⟩
      · next left =>
          cases inside : step.transaction? with
          | none => simp [inside] at left
          | some name =>
              rw [inside, Option.all_some, Bool.not_eq_true] at left
              exact ih (h.drop inside left)

end Shadows

/-- **Uncommitted work is invisible.** Take out of a run all that is done in transactions that are
rolled back, whose commit fails or that never end, together with the rollbacks and the failed commits.
Every other step comes out as before, and the database is the same in the end. -/
theorem uncommitted_invisible (steps : List Step) (s : Session System) :
    outcomes ((lasting steps s).map Prod.fst) s = (lasting steps s).map Prod.snd ∧
      (after ((lasting steps s).map Prod.fst) s).backend.database =
        (after steps s).backend.database :=
  (Shadows.refl steps s).run

/-- A transaction that is rolled back and one whose commit comes too late leave their beginnings only. -/
example :
    let steps : List Step := [.createTable notes, .begin "a", .begin "b",
      .within "a" now (putNote "1"), .within "b" now (putNote "2"), .rollback "b", .begin "b",
      .within "b" now (putNote "3"), .commit "a", .commit "b"]
    (lasting steps ⟨{}, 0, [], [], []⟩).map Prod.fst = [.createTable notes, .begin "a", .begin "b",
      .within "a" now (putNote "1"), .begin "b", .commit "a"] :=
  rfl

end Depot.Relational
