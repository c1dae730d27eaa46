import Depot.Proofs.Relational.Snapshot

/-!
# Lost updates

A commit goes through if every table that the transaction wrote still has the version at which it
was first touched. What that says about the time in between is `commit_ok_iff`: either nothing has
happened to the table since, or the table was dropped and created anew, and the new one has by now
been changed exactly as often as the old one had been when it was touched. Versions are counted anew
in a new table, so in the second case the commit goes through although its copy is of a table that
is no more, and the new table is lost (`commit_overwrites_new_table`).

A run is read forwards here: what a step does to a table is its effect, a list of effects carries a
version along, and a version comes back to where it was in these two ways only.
-/

namespace Depot.Relational

/-! ### What a step does to the copies of a transaction -/

/-- Whether a statement with this result got to its table: it has an answer, or it failed by what the
table holds. -/
def reached : Except Error Answer → Bool
  | .ok _ => true
  | .error e => Table.isFault e

theorem reached_onTable (action : Action) (name : String) (t : Table) :
    reached (action.onTable name t).1 = true := by
  cases result : (action.onTable name t).1 with
  | ok a => rfl
  | error e => exact Action.isFault_of_onTable result

theorem reached_refusal {s : Session System} {ctx : Context} {e : Error}
    (h : s.refusal? ctx = some e) : reached (.error e) = false := by
  rcases Session.refusal?_eq_some h with rfl | rfl <;> rfl

namespace Step

/-- Whether a step is a statement of a transaction that gets to a table. -/
def touches (name table : String) (s : Session System) (step : Step) : Bool :=
  match step.statementIn? name with
  | some (_, st) => st.table.name == table && (step.perform s).1.any reached
  | none => false

/-- Whether a step is a write of a transaction to a table, and succeeds. -/
def writes (name table : String) (s : Session System) (step : Step) : Bool :=
  match step.statementIn? name with
  | some (_, st) =>
    st.table.name == table && (st.action.isWrite && (step.perform s).1.any Except.isOk)
  | none => false

variable {name table : String} {s : Session System} {tx : Transaction} {step : Step}

/-- A step touches a table if it is a statement on it under a live context, and the transaction sees
the table. -/
theorem touches_eq_true_iff (held : s.backend.transactions.get? name = some tx) :
    step.touches name table s = true ↔
      ∃ ctx st, step = within name ctx st ∧ st.table.name = table ∧ s.refusal? ctx = none ∧
        (tx.working? s.backend.database table).isSome = true := by
  cases own : step.statementIn? name with
  | none =>
      rw [touches, own]
      constructor
      · intro h
        cases h
      · intro h
        obtain ⟨ctx, st, rfl, _⟩ := h
        simp [statementIn?] at own
  | some statement =>
      obtain ⟨ctx, st⟩ := statement
      have same := statementIn?_eq_some_iff.1 own
      subst same
      simp only [touches, own, Bool.and_eq_true, beq_iff_eq, within.injEq, true_and]
      cases refused : s.refusal? ctx with
      | some e =>
          rw [perform_within_of_refusal held refused, Option.any_some, reached_refusal refused]
          constructor
          · intro h
            obtain ⟨_, fault⟩ := h
            cases fault
          · intro h
            obtain ⟨_, _, ⟨rfl, _⟩, _, live, _⟩ := h
            rw [refused] at live
            cases live
      | none =>
          rw [perform_within_of_live held refused, Option.any_some, Transaction.perform_eq,
            Transaction.view_eq]
          constructor
          · intro h
            obtain ⟨rfl, reaches⟩ := h
            refine ⟨ctx, st, ⟨rfl, rfl⟩, rfl, refused, ?_⟩
            cases worked : tx.working? s.backend.database st.table.name with
            | some copy => rfl
            | none => simp [worked, reached, Table.isFault] at reaches
          · intro h
            obtain ⟨_, _, ⟨rfl, rfl⟩, rfl, _, found⟩ := h
            refine ⟨rfl, ?_⟩
            obtain ⟨copy, worked⟩ := Option.isSome_iff_exists.1 found
            rw [worked]
            exact reached_onTable _ _ _

/-- A step that does not touch a table leaves the copy of it as it is. -/
theorem get?_copies_progress_of_not_touches (held : s.backend.transactions.get? name = some tx)
    (h : step.touches name table s = false) :
    (step.progress name s tx).copies.get? table = tx.copies.get? table := by
  rw [progress]
  cases own : step.statementIn? name with
  | none => rfl
  | some statement =>
      obtain ⟨ctx, st⟩ := statement
      cases refused : s.refusal? ctx with
      | some e => simp [refused]
      | none =>
          simp only [refused, Option.isNone_none, if_true, Transaction.get?_copies_perform]
          split
          · next same =>
              have unseen : tx.working? s.backend.database table = none := by
                rw [← Option.not_isSome_iff_eq_none]
                intro seen
                have touched := (touches_eq_true_iff held).2
                  ⟨ctx, st, statementIn?_eq_some_iff.1 own, same.symm, refused, seen⟩
                rw [h] at touched
                cases touched
              rw [unseen]
              rw [Transaction.working?, Option.or_eq_none_iff] at unseen
              exact unseen.1.symm
          · rfl

/-- A step that touches a table leaves the copy it worked on, marked as written if it was a write that
succeeded. -/
theorem get?_copies_progress_of_touches (held : s.backend.transactions.get? name = some tx)
    (h : step.touches name table s = true) :
    ∃ copy, tx.working? s.backend.database table = some copy ∧
      ∃ t, (step.progress name s tx).copies.get? table = some { copy with
        table := t, isWritten := copy.isWritten || step.writes name table s } := by
  obtain ⟨ctx, st, rfl, rfl, live, seen⟩ := (touches_eq_true_iff held).1 h
  obtain ⟨copy, worked⟩ := Option.isSome_iff_exists.1 seen
  refine ⟨copy, worked, (st.action.onTable st.table.name copy.table).2, ?_⟩
  simp [progress, writes, statementIn?, live, Transaction.get?_copies_perform, worked,
    perform_within_of_live held live, Transaction.perform_eq, Transaction.view_eq]

theorem touches_of_writes (h : step.writes name table s = true) : step.touches name table s = true := by
  rw [writes] at h
  rw [touches]
  cases own : step.statementIn? name with
  | none => simp [own] at h
  | some statement =>
      simp only [own, Bool.and_eq_true] at h
      obtain ⟨on, _, ok⟩ := h
      obtain ⟨result, outcome, isOk⟩ := (Option.any_eq_true _ _).1 ok
      cases result with
      | ok a => simp [on, outcome, reached]
      | error e => cases isOk

/-- A transaction has written a table if it had before, or if the step is a write to it. -/
theorem wrote_progress (held : s.backend.transactions.get? name = some tx) :
    (step.progress name s tx).wrote table = (tx.wrote table || step.writes name table s) := by
  cases touched : step.touches name table s with
  | false =>
      have idle : step.writes name table s = false := by
        cases written : step.writes name table s with
        | false => rfl
        | true => simp [touches_of_writes written] at touched
      rw [Transaction.wrote, get?_copies_progress_of_not_touches held touched, idle, Bool.or_false,
        Transaction.wrote]
  | true =>
      obtain ⟨copy, worked, t, kept⟩ := get?_copies_progress_of_touches held touched
      rw [Transaction.wrote, kept, Option.any_some, Transaction.wrote]
      rcases Transaction.working?_eq_some_iff.1 worked with copied | ⟨copied, _, _, rfl⟩
      · rw [copied, Option.any_some]
      · rw [copied]
        rfl

end Step

/-! ### Over a run -/

/-- Whether some step of a run passes a test in the session that it meets. -/
def someStep (test : Session System → Step → Bool) : List Step → Session System → Bool
  | [], _ => false
  | step :: rest, s => test s step || someStep test rest (step.after s)

variable {name table : String} {steps : List Step} {s : Session System} {tx final : Transaction}

/-- Of the steps that pass a test there is a first one. -/
theorem exists_first {test : Session System → Step → Bool} (h : someStep test steps s = true) :
    ∃ lead step rest, steps = lead ++ step :: rest ∧ someStep test lead s = false ∧
      test (after lead s) step = true := by
  induction steps generalizing s with
  | nil => cases h
  | cons step rest ih =>
      cases passed : test s step with
      | true => exact ⟨[], step, rest, rfl, rfl, passed⟩
      | false =>
          rw [someStep, passed, Bool.false_or] at h
          obtain ⟨lead, next, later, rfl, none, first⟩ := ih h
          refine ⟨step :: lead, next, later, rfl, ?_, first⟩
          rw [someStep, passed, none, Bool.or_false]

theorem someStep_mono {test test' : Session System → Step → Bool}
    (imp : ∀ s step, test s step = true → test' s step = true) (h : someStep test steps s = true) :
    someStep test' steps s = true := by
  induction steps generalizing s with
  | nil => cases h
  | cons step rest ih =>
      rw [someStep, Bool.or_eq_true] at h ⊢
      exact h.imp (imp s step) ih

/-- A table that is not touched is not copied. -/
theorem get?_copies_of_untouched (inside : ∀ step ∈ steps, step.bounds name = false)
    (held : s.backend.transactions.get? name = some tx)
    (untouched : someStep (Step.touches name table) steps s = false)
    (ends : (after steps s).backend.transactions.get? name = some final) :
    final.copies.get? table = tx.copies.get? table := by
  induction steps generalizing s tx with
  | nil =>
      rw [after_nil, held] at ends
      cases ends
      rfl
  | cons step rest ih =>
      rw [someStep, Bool.or_eq_false_iff] at untouched
      obtain ⟨first, inside⟩ := List.forall_mem_cons.1 inside
      have next := Step.get?_transactions_progress first held
      rw [ih inside next untouched.2 ends]
      exact Step.get?_copies_progress_of_not_touches held untouched.1

/-- A transaction has written a table at the end if it had at the start, or if one of the steps is a
write to it. -/
theorem wrote_eq_someStep (inside : ∀ step ∈ steps, step.bounds name = false)
    (held : s.backend.transactions.get? name = some tx)
    (ends : (after steps s).backend.transactions.get? name = some final) :
    final.wrote table = (tx.wrote table || someStep (Step.writes name table) steps s) := by
  induction steps generalizing s tx with
  | nil =>
      rw [after_nil, held] at ends
      cases ends
      rw [someStep, Bool.or_false]
  | cons step rest ih =>
      obtain ⟨first, inside⟩ := List.forall_mem_cons.1 inside
      have next := Step.get?_transactions_progress first held
      rw [ih inside next ends, Step.wrote_progress held, someStep, Bool.or_assoc]

/-- A run, split at the step with which a transaction first touches a table. -/
structure FirstTouch (name table : String) (steps : List Step) (s : Session System)
    (lead : List Step) (touch : Step) (between : List Step) : Prop where
  split : steps = lead ++ touch :: between
  untouched : someStep (Step.touches name table) lead s = false
  touches : touch.touches name table (after lead s) = true

/-- A table that is written is touched for a first time. -/
theorem exists_firstTouch (h : someStep (Step.writes name table) steps s = true) :
    ∃ lead touch between, FirstTouch name table steps s lead touch between := by
  obtain ⟨lead, touch, between, split, untouched, touches⟩ :=
    exists_first (someStep_mono (fun _ _ => Step.touches_of_writes) h)
  exact ⟨lead, touch, between, split, untouched, touches⟩

namespace FirstTouch

variable {lead between : List Step} {touch : Step}

/-- The copy that is kept until the end is of the version at the first touch. -/
theorem exists_base (first : FirstTouch name table steps s lead touch between)
    (inside : ∀ step ∈ steps, step.bounds name = false)
    (held : s.backend.transactions.get? name = some tx) (fresh : tx.copies.get? table = none)
    (ends : (after steps s).backend.transactions.get? name = some final) :
    ∃ t copy, (after lead s).backend.table? table = some t ∧
      final.copies.get? table = some copy ∧ copy.base = t.version := by
  have split := first.split
  subst split
  rw [after_append, after_cons] at ends
  obtain ⟨inLead, inRest⟩ := List.forall_mem_append.1 inside
  obtain ⟨inTouch, inBetween⟩ := List.forall_mem_cons.1 inRest
  obtain ⟨midway, held', _⟩ := exists_extends inLead held
  have fresh' : midway.copies.get? table = none := by
    rw [get?_copies_of_untouched inLead held first.untouched held', fresh]
  obtain ⟨copy, worked, _, kept⟩ := Step.get?_copies_progress_of_touches held' first.touches
  have next := Step.get?_transactions_progress inTouch held'
  obtain ⟨stays, copied, base, _⟩ := extends_of_ends inBetween next ends table _ kept
  rcases Transaction.working?_eq_some_iff.1 worked with own | ⟨_, t, found, rfl⟩
  · rw [fresh'] at own
    cases own
  · exact ⟨t, stays, found, copied, base⟩

/-- The first touch does not change the table. -/
theorem table?_after (first : FirstTouch name table steps s lead touch between) :
    (touch.after (after lead s)).backend.table? table = (after lead s).backend.table? table := by
  have touches := first.touches
  rw [Step.touches] at touches
  cases own : touch.statementIn? name with
  | none => simp [own] at touches
  | some statement =>
      obtain ⟨ctx, st⟩ := statement
      rw [Step.statementIn?_eq_some_iff.1 own]
      exact congrArg (fun db : Database => db.tables.get? table) (Step.database_after_within _ _ _ _)

end FirstTouch

/-! ### The return of a version -/

/-- What the steps of a run do to a table. -/
def effects (table : String) : List Step → Session System → List Step.Effect
  | [], _ => []
  | step :: rest, s => step.effect table s :: effects table rest (step.after s)

/-- The version of a table after an effect. -/
def Step.Effect.revise (version : Option Nat) : Step.Effect → Option Nat
  | nothing => version
  | change => version.map (· + 1)
  | creation => some 0
  | removal => none

/-- Nothing happened to the table. -/
def Undisturbed (effects : List Step.Effect) : Prop :=
  ∀ e ∈ effects, e = .nothing

/-- The table is there, with so many changes since. -/
def Changed (n : Nat) (effects : List Step.Effect) : Prop :=
  (∀ e ∈ effects, e = .nothing ∨ e = .change) ∧ effects.count .change = n

/-- The table was created anew and has been changed so many times since then. -/
def Recreated (n : Nat) (effects : List Step.Effect) : Prop :=
  ∃ lead rest, effects = lead ++ .creation :: rest ∧ Changed n rest

@[simp] theorem changed_nil (n : Nat) : Changed n [] ↔ n = 0 := by
  simp [Changed, eq_comm]

@[simp] theorem changed_cons_nothing (n : Nat) (rest : List Step.Effect) :
    Changed n (.nothing :: rest) ↔ Changed n rest := by
  simp [Changed]

@[simp] theorem changed_cons_change (n : Nat) (rest : List Step.Effect) :
    Changed n (.change :: rest) ↔ ∃ m, n = m + 1 ∧ Changed m rest := by
  simp only [Changed, List.forall_mem_cons, List.count_cons_self]
  constructor
  · intro h
    obtain ⟨⟨_, plain⟩, count⟩ := h
    exact ⟨_, count.symm, plain, rfl⟩
  · intro h
    obtain ⟨m, rfl, plain, count⟩ := h
    exact ⟨⟨by simp, plain⟩, by rw [count]⟩

@[simp] theorem changed_cons_creation (n : Nat) (rest : List Step.Effect) :
    ¬ Changed n (.creation :: rest) := by
  simp [Changed]

@[simp] theorem changed_cons_removal (n : Nat) (rest : List Step.Effect) :
    ¬ Changed n (.removal :: rest) := by
  simp [Changed]

/-- No change at all is as much as nothing happening. -/
theorem changed_zero_iff {effects : List Step.Effect} : Changed 0 effects ↔ Undisturbed effects := by
  induction effects with
  | nil => simp [Undisturbed]
  | cons e rest ih => cases e <;> simp_all [Undisturbed]

theorem recreated_cons (n : Nat) (e : Step.Effect) (rest : List Step.Effect) :
    Recreated n (e :: rest) ↔ (e = .creation ∧ Changed n rest) ∨ Recreated n rest := by
  constructor
  · intro h
    obtain ⟨lead, later, split, changed⟩ := h
    cases lead with
    | nil =>
        cases split
        exact .inl ⟨rfl, changed⟩
    | cons first lead =>
        cases split
        exact .inr ⟨lead, later, rfl, changed⟩
  · rintro (⟨rfl, changed⟩ | ⟨lead, later, rfl, changed⟩)
    · exact ⟨[], rest, rfl, changed⟩
    · exact ⟨e :: lead, later, rfl, changed⟩

/-- A version after some effects counts the changes since the last creation, or else continues the
version from before. -/
theorem foldl_revise_eq_some_iff (version : Option Nat) (effects : List Step.Effect) (k : Nat) :
    effects.foldl Step.Effect.revise version = some k ↔
      Recreated k effects ∨ ∃ v n, version = some v ∧ Changed n effects ∧ k = v + n := by
  induction effects generalizing version with
  | nil => simp [Recreated, eq_comm]
  | cons e rest ih =>
      rw [List.foldl_cons, ih, recreated_cons]
      cases e with
      | nothing => simp [Step.Effect.revise]
      | change =>
          cases version with
          | none => simp [Step.Effect.revise]
          | some v =>
              simp only [Step.Effect.revise, Option.map_some, Option.some.injEq, reduceCtorEq,
                false_and, false_or, changed_cons_change]
              apply or_congr_right
              constructor
              · intro h
                obtain ⟨_, n, rfl, changed, rfl⟩ := h
                exact ⟨v, n + 1, rfl, ⟨n, rfl, changed⟩, by omega⟩
              · intro h
                obtain ⟨_, _, rfl, ⟨n, rfl, changed⟩, rfl⟩ := h
                exact ⟨v + 1, n, rfl, changed, by omega⟩
      | creation =>
          simp [Step.Effect.revise, or_comm]
      | removal => simp [Step.Effect.revise]

/-- A version comes back if nothing happened, or in a new table. -/
theorem foldl_revise_eq_self_iff (version : Nat) (effects : List Step.Effect) :
    effects.foldl Step.Effect.revise (some version) = some version ↔
      Undisturbed effects ∨ Recreated version effects := by
  rw [foldl_revise_eq_some_iff, ← changed_zero_iff, or_comm]
  apply or_congr_left
  constructor
  · intro h
    obtain ⟨v, n, same, changed, count⟩ := h
    cases same
    obtain rfl : n = 0 := by omega
    exact changed
  · intro changed
    exact ⟨version, 0, rfl, changed, rfl⟩

theorem Step.Effect.Holds.version_eq {e : Step.Effect} {before later : Option Table}
    (h : e.Holds before later) : later.map Table.version = e.revise (before.map Table.version) := by
  cases e with
  | nothing => exact congrArg _ h
  | change =>
      obtain ⟨t, t', rfl, rfl, version⟩ := h
      exact congrArg some version
  | creation =>
      obtain ⟨_, t, rfl, version⟩ := h
      exact congrArg some version
  | removal =>
      obtain ⟨_, rfl⟩ := h
      rfl

/-- A run takes the version of a table through the effects of its steps. -/
theorem version_after (steps : List Step) (s : Session System) (table : String) :
    ((after steps s).backend.table? table).map Table.version =
      (effects table steps s).foldl Step.Effect.revise
        ((s.backend.table? table).map Table.version) := by
  induction steps generalizing s with
  | nil => rfl
  | cons step rest ih =>
      rw [after_cons, ih, (step.holds_effect s table).version_eq]
      rfl

/-! ### When a commit goes through -/

theorem change_eq_done_iff {sys : System} {result : Except Error Database} :
    (sys.change result).1 = .ok .done ↔ ∃ db, result = .ok db := by
  cases result with
  | ok db => simp [System.change]
  | error e => simp [System.change]

/-- The table of a copy is still at its version exactly if it was left alone since the first touch, or
if there is a new one that happens to be at the same version. -/
theorem FirstTouch.version_eq_iff {lead between : List Step} {touch : Step} {t : Table}
    (first : FirstTouch name table steps s lead touch between)
    (found : (after lead s).backend.table? table = some t) :
    (∃ last, (after steps s).backend.table? table = some last ∧ last.version = t.version) ↔
      let since := effects table between (touch.after (after lead s))
      Undisturbed since ∨ Recreated t.version since := by
  have split := first.split
  subst split
  have version := version_after between (touch.after (after lead s)) table
  rw [first.table?_after, found, Option.map_some] at version
  rw [after_append, after_cons, ← foldl_revise_eq_self_iff, ← version, Option.map_eq_some_iff]

/-- A commit goes through exactly if, of every table that the transaction wrote, nothing has happened
to it since the transaction first touched it, or it was created anew since and has been changed
exactly as often as its version counted at the first touch. -/
theorem commit_ok_iff (inside : ∀ step ∈ steps, step.bounds name = false) :
    let begun := (Step.begin name).after s
    ((Step.commit name).perform (after steps begun)).1 = some (.ok .done) ↔
      ∀ table lead touch between, someStep (Step.writes name table) steps begun = true →
        FirstTouch name table steps begun lead touch between →
          ∃ t, (after lead begun).backend.table? table = some t ∧
            let since := effects table between (touch.after (after lead begun))
            Undisturbed since ∨ Recreated t.version since := by
  intro begun
  have held : begun.backend.transactions.get? name = some s.backend.database.begin.1 :=
    Dict.get?_insert_self _ _ _
  obtain ⟨final, ends, _⟩ := exists_extends inside held
  have wrote (table : String) :
      final.wrote table = someStep (Step.writes name table) steps begun :=
    wrote_eq_someStep inside held ends
  rw [Step.perform_commit ends]
  simp only [Option.some.injEq, change_eq_done_iff, Database.commit_eq_ok_iff, exists_and_left,
    exists_eq, and_true]
  constructor
  · intro unchanged table lead touch between written first
    obtain ⟨t, copy, found, copied, base⟩ := first.exists_base inside held rfl ends
    refine ⟨t, found, (first.version_eq_iff found).1 ?_⟩
    rw [← wrote, Transaction.wrote, copied] at written
    rw [← base]
    exact unchanged table copy copied written
  · -- A written copy was touched for a first time, and it is of the version from then.
    intro undisturbed table copy copied isWritten
    have written : someStep (Step.writes name table) steps begun = true := by
      rw [← wrote, Transaction.wrote, copied]
      exact isWritten
    obtain ⟨lead, touch, between, first⟩ := exists_firstTouch written
    obtain ⟨t, copy', found, copied', base⟩ := first.exists_base inside held rfl ends
    obtain ⟨t', found', since⟩ := undisturbed table lead touch between written first
    rw [found] at found'
    cases found'
    rw [copied] at copied'
    cases copied'
    rw [base]
    exact (first.version_eq_iff found).2 since

/-- A transaction is open on a table that holds one note. -/
def openOnNotes : Session System :=
  after [.createTable notes, .direct now (putNote "1"), .begin "a"] ⟨{}, 0, [], [], []⟩

/-- The notes are dropped, created anew and changed once, as often as the old ones had been. -/
def recreation : List Step :=
  [.dropTable "notes", .createTable notes, .direct now (putNote "3")]

theorem commit_ok_iff_recreation :
    ((Step.commit "a").perform (after (.within "a" now (putNote "2") :: recreation) openOnNotes)).1 =
        some (.ok .done) ∧
      ∃ t, openOnNotes.backend.table? "notes" = some t ∧
        let since := effects "notes" recreation
          ((Step.within "a" now (putNote "2")).after openOnNotes)
        Undisturbed since ∨ Recreated t.version since :=
  ⟨rfl, (commit_ok_iff (s := after [.createTable notes, .direct now (putNote "1")]
    ⟨{}, 0, [], [], []⟩) (by decide)).1 rfl "notes" [] _ recreation rfl ⟨rfl, rfl, rfl⟩⟩

/-- The commit of a transaction replaces a table that was created after the transaction touched and
wrote the old one, and the note that was put into it. -/
theorem commit_overwrites_new_table :
    let touch := Step.within "a" now (putNote "2")
    let touched := touch.after openOnNotes
    let before := after recreation touched
    FirstTouch "a" "notes" (touch :: recreation) openOnNotes [] touch recreation ∧
      touch.writes "a" "notes" openOnNotes = true ∧
      effects "notes" recreation touched = [.removal, .creation, .change] ∧
      (before.backend.table? "notes").map Table.rows = some [note "3"] ∧
      ((Step.commit "a").perform before).1 = some (.ok .done) ∧
      (((Step.commit "a").after before).backend.table? "notes").map Table.rows =
        some [note "1", note "2"] :=
  ⟨⟨rfl, rfl, rfl⟩, rfl, rfl, rfl, rfl, rfl⟩

end Depot.Relational
