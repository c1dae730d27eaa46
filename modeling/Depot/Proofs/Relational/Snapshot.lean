import Depot.Proofs.Relational.History

/-!
# Transactions and the tables they see

A transaction sees its own copy of a table where it has one and the committed table elsewhere
(`Transaction.view`), and a statement in it does to what it sees what a direct statement does to the
committed tables. While it is open its copies stay: none is dropped, none is taken anew, and none
forgets that it was written (`Transaction.Extends`). The committed tables meanwhile only get newer,
as long as none is created or dropped: a table that still has its version is still the same table
(`Newer`).
-/

namespace Depot.Relational

/-! ### Tables that get newer -/

/-- A table later on: the same, or of a later version. -/
def Newer : Option Table → Option Table → Prop
  | none, after => after = none
  | some t, after => ∃ t', after = some t' ∧ (t' = t ∨ t.version < t'.version)

theorem Newer.refl (before : Option Table) : Newer before before := by
  cases before with
  | none => rfl
  | some t => exact ⟨t, rfl, .inl rfl⟩

theorem Newer.trans {a b c : Option Table} (h : Newer a b) (h' : Newer b c) : Newer a c := by
  cases a with
  | none =>
      cases h
      exact h'
  | some t =>
      obtain ⟨u, rfl, first⟩ := h
      obtain ⟨v, rfl, second⟩ := h'
      refine ⟨v, rfl, ?_⟩
      rcases first with rfl | first
      · exact second
      · rcases second with rfl | second
        · exact .inr first
        · exact .inr (Nat.lt_trans first second)

/-- A table that still has its version is still the same. -/
theorem Newer.eq_of_version {t t' : Table} (h : Newer (some t) (some t'))
    (version : t'.version = t.version) : t' = t := by
  obtain ⟨u, same, rfl | lt⟩ := h
  · cases same
    rfl
  · cases same
    omega

/-! ### What a transaction sees -/

namespace Database

/-- A database answers from its table. -/
theorem perform_eq (db : Database) (st : Statement) :
    (db.perform st).1 =
      match db.tables.get? st.table.name with
      | some t => (st.action.onTable st.table.name t).1
      | none => .error (.tableNotFound st.table.name) := by
  cases found : db.tables.get? st.table.name <;> simp [perform, visit, found]

theorem get?_tables_perform (db : Database) (st : Statement) (table : String) :
    (db.perform st).2.tables.get? table =
      if table = st.table.name then
        (db.tables.get? table).map fun t => (st.action.onTable st.table.name t).2
      else db.tables.get? table := by
  cases found : db.tables.get? st.table.name with
  | none =>
      by_cases same : table = st.table.name <;> simp [perform, visit, found, same]
  | some t =>
      by_cases same : table = st.table.name
      · simp [perform, visit, found, same]
      · simp [perform, visit, found, same, Dict.get?_insert_of_ne _ same]

end Database

namespace Transaction

/-- The table of a name, as a transaction sees it. -/
def view (tx : Transaction) (db : Database) (table : String) : Option Table :=
  ((tx.copies.get? table).map Copy.table).or (db.tables.get? table)

/-- The copy of a table that a transaction works on: its own, or one of the committed table. -/
def working? (tx : Transaction) (db : Database) (table : String) : Option Copy :=
  (tx.copies.get? table).or
    ((db.tables.get? table).map fun t => { table := t, base := t.version })

/-- A copy to work on is the transaction's own, or one that was just taken. -/
theorem working?_eq_some_iff {tx : Transaction} {db : Database} {table : String} {copy : Copy} :
    tx.working? db table = some copy ↔
      tx.copies.get? table = some copy ∨
        tx.copies.get? table = none ∧
          ∃ t, db.tables.get? table = some t ∧ copy = { table := t, base := t.version } := by
  rw [working?, Option.or_eq_some_iff, Option.map_eq_some_iff]
  simp only [eq_comm]

theorem copyOf_eq (tx : Transaction) (db : Database) (table : String) :
    db.copyOf tx table =
      match tx.working? db table with
      | some copy => .ok copy
      | none => .error (.tableNotFound table) := by
  cases copied : tx.copies.get? table with
  | some copy => simp [Database.copyOf, working?, copied]
  | none => cases found : db.tables.get? table <;> simp [Database.copyOf, working?, copied, found]

theorem view_eq (tx : Transaction) (db : Database) (table : String) :
    tx.view db table = (tx.working? db table).map Copy.table := by
  rw [view, working?]
  cases tx.copies.get? table with
  | some copy => rfl
  | none => cases db.tables.get? table <;> rfl

/-- A transaction answers from the table it sees. -/
theorem perform_eq (tx : Transaction) (db : Database) (st : Statement) :
    (tx.perform db st).1 =
      match tx.view db st.table.name with
      | some t => (st.action.onTable st.table.name t).1
      | none => .error (.tableNotFound st.table.name) := by
  rw [perform, visit, copyOf_eq, view_eq]
  cases tx.working? db st.table.name <;> rfl

/-- A transaction that has a table to work on finds it. -/
theorem perform_ne_tableNotFound {tx : Transaction} {db : Database} {st : Statement} {copy : Copy}
    (worked : tx.working? db st.table.name = some copy) (table : String) :
    (tx.perform db st).1 ≠ .error (.tableNotFound table) := by
  rw [perform_eq, view_eq, worked]
  intro failed
  have fault := Action.isFault_of_onTable failed
  simp [Table.isFault] at fault

/-- A statement leaves the copy it worked on in the transaction, marked if it wrote, and no other
copy is touched. -/
theorem get?_copies_perform (tx : Transaction) (db : Database) (st : Statement) (table : String) :
    (tx.perform db st).2.copies.get? table =
      if table = st.table.name then
        (tx.working? db table).map fun copy =>
          let result := st.action.onTable st.table.name copy.table
          { copy with
            table := result.2
            isWritten := copy.isWritten || st.action.isWrite && result.1.isOk }
      else tx.copies.get? table := by
  rw [perform, visit, copyOf_eq]
  by_cases same : table = st.table.name
  · subst same
    cases worked : tx.working? db st.table.name with
    | some copy => simp
    | none =>
        have absent : tx.copies.get? st.table.name = none := by
          rw [working?, Option.or_eq_none_iff] at worked
          exact worked.1
        simp [absent]
  · cases tx.working? db st.table.name with
    | some copy => simp [same, Dict.get?_insert_of_ne _ same]
    | none => simp [same]

/-- After a statement a transaction sees what the statement made of the table it saw, also beside
another database in which it sees that same table. -/
theorem view_perform {tx : Transaction} {db other : Database} {st : Statement}
    (seen : tx.view db st.table.name = tx.view other st.table.name) (table : String) :
    (tx.perform db st).2.view other table =
      if table = st.table.name then
        (tx.view other table).map fun t => (st.action.onTable st.table.name t).2
      else tx.view other table := by
  rw [view, get?_copies_perform]
  split
  · next same =>
      subst same
      rw [← seen, view_eq]
      cases worked : tx.working? db st.table.name with
      | some copy => rfl
      | none =>
          rw [view_eq, worked, view] at seen
          have absent := Option.or_eq_none_iff.1 seen.symm
          simp [absent.2]
  · rfl

/-- The copies of a transaction are all there later on, taken at the same versions and written where
they were written. -/
def Extends (tx later : Transaction) : Prop :=
  ∀ table copy, tx.copies.get? table = some copy →
    ∃ kept, later.copies.get? table = some kept ∧ kept.base = copy.base ∧
      (copy.isWritten = true → kept.isWritten = true)

theorem Extends.refl (tx : Transaction) : tx.Extends tx :=
  fun _ copy held => ⟨copy, held, rfl, fun written => written⟩

theorem Extends.trans {tx later last : Transaction} (h : tx.Extends later) (h' : later.Extends last) :
    tx.Extends last := by
  intro table copy held
  obtain ⟨kept, held, base, written⟩ := h table copy held
  obtain ⟨final, held, base', written'⟩ := h' table kept held
  exact ⟨final, held, base'.trans base, written' ∘ written⟩

theorem extends_perform (tx : Transaction) (db : Database) (st : Statement) :
    tx.Extends (tx.perform db st).2 := by
  intro table copy held
  by_cases same : table = st.table.name
  · have worked : tx.working? db table = some copy := by
      rw [working?, held]
      rfl
    rw [get?_copies_perform, if_pos same, worked]
    exact ⟨_, rfl, rfl, fun written => by simp [written]⟩
  · rw [get?_copies_perform, if_neg same]
    exact ⟨copy, held, rfl, fun written => written⟩

/-- A write that succeeded marks its copy. -/
theorem wrote_perform {tx : Transaction} {db : Database} {st : Statement}
    (write : st.action.isWrite = true) (ok : (tx.perform db st).1.isOk = true) :
    (tx.perform db st).2.wrote st.table.name = true := by
  rw [wrote, get?_copies_perform, if_pos rfl]
  rw [perform_eq, view_eq] at ok
  cases worked : tx.working? db st.table.name with
  | none =>
      rw [worked] at ok
      cases ok
  | some copy =>
      rw [worked] at ok
      have ok' : (st.action.onTable st.table.name copy.table).1.isOk = true := ok
      simp [write, ok']

theorem Extends.wrote {tx later : Transaction} (h : tx.Extends later) {table : String}
    (wrote : tx.wrote table = true) : later.wrote table = true := by
  obtain ⟨copy, held, written⟩ := wrote_eq_true_iff.1 wrote
  obtain ⟨kept, held, _, stays⟩ := h table copy held
  exact wrote_eq_true_iff.2 ⟨kept, held, stays written⟩

/-- Every table that a transaction has copied is still at the version of the copy. -/
def Settled (tx : Transaction) (db : Database) : Prop :=
  ∀ table copy, tx.copies.get? table = some copy →
    ∃ t, db.tables.get? table = some t ∧ t.version = copy.base

/-- If in the end all copies are settled, a statement on the way saw the table that stands there in
the end, or the copy that was taken of it. -/
theorem view_eq_of_settled {tx final : Transaction} {db last : Database} {st : Statement}
    (newer : Newer (db.tables.get? st.table.name) (last.tables.get? st.table.name))
    (kept : (tx.perform db st).2.Extends final) (settled : final.Settled last) :
    tx.view db st.table.name = tx.view last st.table.name := by
  cases copied : tx.copies.get? st.table.name with
  | some copy =>
      rw [view, view, copied]
      rfl
  | none =>
      simp only [view, copied, Option.map_none, Option.none_or]
      cases found : db.tables.get? st.table.name with
      | none =>
          rw [found] at newer
          exact newer.symm
      | some t =>
          have taken := get?_copies_perform tx db st st.table.name
          rw [if_pos rfl, working?, copied, found] at taken
          obtain ⟨copy, held, base, _⟩ := kept _ _ taken
          obtain ⟨t', found', version⟩ := settled _ _ held
          rw [found, found'] at newer
          rw [found', newer.eq_of_version (version.trans base)]

end Transaction

/-! ### While a transaction is open -/

namespace Step

variable {s : Session System} {step : Step} {name : String} {tx : Transaction}

/-- Whether a step begins or ends the transaction of a name. -/
def bounds (name : String) : Step → Bool
  | begin tx | commit tx | rollback tx => tx == name
  | _ => false

/-- The statement that a step does in the transaction of a name, with its context. -/
def statementIn? (name : String) : Step → Option (Context × Statement)
  | within tx ctx st => if tx = name then some (ctx, st) else none
  | _ => none

theorem statementIn?_eq_some_iff {ctx : Context} {st : Statement} :
    step.statementIn? name = some (ctx, st) ↔ step = within name ctx st := by
  cases step with
  | within tx ctx' st' =>
      by_cases same : tx = name
      · simp [statementIn?, same]
      · simp [statementIn?, same]
  | _ => simp [statementIn?]

/-- A step that neither bounds a transaction nor runs in it leaves it as it is. -/
theorem get?_transactions_after (inside : step.bounds name = false)
    (other : step.statementIn? name = none) :
    (step.after s).backend.transactions.get? name = s.backend.transactions.get? name := by
  have apart {tx : String} (h : (tx == name) = false) : name ≠ tx := by
    intro same
    simp [same] at h
  cases step with
  | direct ctx st => rfl
  | within tx ctx st =>
      have ne : name ≠ tx := by
        intro same
        simp [statementIn?, same] at other
      cases held : s.backend.transactions.get? tx with
      | none => rw [after, perform_within_of_closed held]
      | some theirs =>
          cases refused : s.refusal? ctx with
          | some e => rw [after, perform_within_of_refusal held refused]
          | none =>
              rw [after, perform_within_of_live held refused]
              exact Dict.get?_insert_of_ne _ ne _
  | begin tx => exact Dict.get?_insert_of_ne _ (apart inside) _
  | commit tx =>
      cases held : s.backend.transactions.get? tx with
      | none => simp [after, perform, held]
      | some theirs =>
          rw [after, perform_commit held]
          cases s.backend.database.commit theirs <;> exact Dict.get?_erase_of_ne _ (apart inside)
  | rollback tx =>
      cases held : s.backend.transactions.get? tx with
      | none => simp [after, perform, held]
      | some theirs =>
          simp only [after, perform, held]
          exact Dict.get?_erase_of_ne _ (apart inside)
  | createTable made =>
      simp only [after, perform]
      cases s.backend.database.createTable made <;> rfl
  | dropTable table =>
      simp only [after, perform]
      cases s.backend.database.dropTable table <;> rfl
  | wait span => rfl
  | cancel ctx => rw [backend_after_cancel]

/-- The transaction of a name after a step that does not bound it: a statement of its own under a
live context may have added to its copies, and nothing else has changed. -/
def progress (name : String) (s : Session System) (tx : Transaction) (step : Step) : Transaction :=
  match step.statementIn? name with
  | some (ctx, st) =>
    if (s.refusal? ctx).isNone then (tx.perform s.backend.database st).2 else tx
  | none => tx

theorem get?_transactions_progress (inside : step.bounds name = false)
    (held : s.backend.transactions.get? name = some tx) :
    (step.after s).backend.transactions.get? name = some (step.progress name s tx) := by
  cases own : step.statementIn? name with
  | none =>
      rw [get?_transactions_after inside own, held]
      simp [progress, own]
  | some statement =>
      obtain ⟨ctx, st⟩ := statement
      have same := statementIn?_eq_some_iff.1 own
      subst same
      cases refused : s.refusal? ctx with
      | some e =>
          rw [after, perform_within_of_refusal held refused, held]
          simp [progress, own, refused]
      | none =>
          rw [after, perform_within_of_live held refused]
          simp [progress, own, refused, System.withTransaction]

theorem extends_progress (name : String) (s : Session System) (tx : Transaction) (step : Step) :
    tx.Extends (step.progress name s tx) := by
  rw [progress]
  split
  · split
    · exact tx.extends_perform _ _
    · exact .refl tx
  · exact .refl tx

end Step

/-- A transaction stays open over steps that do not bound it, and its copies stay. -/
theorem exists_extends {steps : List Step} {s : Session System} {name : String} {tx : Transaction}
    (inside : ∀ step ∈ steps, step.bounds name = false)
    (held : s.backend.transactions.get? name = some tx) :
    ∃ later, (after steps s).backend.transactions.get? name = some later ∧ tx.Extends later := by
  refine after_induction (P := fun s => ∃ later,
    s.backend.transactions.get? name = some later ∧ tx.Extends later) ⟨tx, held, .refl tx⟩ ?_
  intro step mem s midway
  obtain ⟨later, held, kept⟩ := midway
  exact ⟨_, Step.get?_transactions_progress (inside step mem) held,
    kept.trans (step.extends_progress name s later)⟩

/-- The transaction at the end of such steps extends the one at their start. -/
theorem extends_of_ends {steps : List Step} {s : Session System} {name : String}
    {tx final : Transaction} (inside : ∀ step ∈ steps, step.bounds name = false)
    (held : s.backend.transactions.get? name = some tx)
    (ends : (after steps s).backend.transactions.get? name = some final) : tx.Extends final := by
  obtain ⟨later, held', kept⟩ := exists_extends inside held
  rw [ends] at held'
  cases held'
  exact kept

/-! ### While tables are neither created nor dropped -/

/-- Whether a step creates or drops a table. -/
def Step.isSchemaChange : Step → Bool
  | createTable _ | dropTable _ => true
  | _ => false

theorem Step.newer_after {step : Step} (kept : step.isSchemaChange = false) (s : Session System)
    (table : String) : Newer (s.backend.table? table) ((step.after s).backend.table? table) := by
  have holds := step.holds_effect s table
  have plain : step.effect table s = .nothing ∨ step.effect table s = .change := by
    cases step with
    | createTable | dropTable => simp [isSchemaChange] at kept
    | direct ctx st =>
        rw [effect]
        split <;> simp
    | commit name =>
        rw [effect]
        split <;> simp
    | _ => exact .inl rfl
  rcases plain with nothing | change
  · rw [nothing] at holds
    rw [show (step.after s).backend.table? table = _ from holds]
    exact .refl _
  · rw [change] at holds
    obtain ⟨t, t', before, after, version⟩ := holds
    rw [before, after]
    exact ⟨t', rfl, .inr (by omega)⟩

/-- Without schema changes, tables only get newer. -/
theorem newer_after {steps : List Step} (kept : ∀ step ∈ steps, step.isSchemaChange = false)
    (s : Session System) (table : String) :
    Newer (s.backend.table? table) ((after steps s).backend.table? table) :=
  after_induction (P := fun later => Newer (s.backend.table? table) (later.backend.table? table))
    (.refl _) fun step mem later newer => newer.trans (step.newer_after (kept step mem) later table)

end Depot.Relational
