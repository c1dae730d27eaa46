import Depot.Proofs.Record.Views
import Depot.Proofs.Relational.Sorting
import Depot.Proofs.Relational.Usage
import Depot.Proofs.Statement.Binding

/-!
# Rows that their type can read

A record type that reads a row field by field (`Model.Fieldwise`) can read every row that it was saved
as: a record writes into each field what the type reads from there, or null, and the table takes null
only where the type does. An update puts its parameters into cells as they are, with a look at names,
nulls and uniqueness but none at the kind of a value. So all rows of a table stay readable in a run
whose updates assign what fits the fields, and after any other update that meets a row some row cannot
be read (`typed_rows_readable`).
-/

namespace Depot

variable {ρ σ : Type}

/-- The record type reads the map of a record field by field, each on its own, and its declared fields
are those of the spec: what a legal record writes into a field is read from there, and null is where the
spec lets the field be null. Every record that is read is legal, and the hook before a save leaves legal
records so. -/
structure Model.Fieldwise (m : Model ρ) (spec : Spec) (Legal : ρ → Prop)
    (fit : FieldSpec → Value → Prop) : Prop where
  reads : ∀ content : FieldSpec → Value,
    (∃ record, m.ofValue (spec.recordOf content) = .ok record) ↔ ∀ f ∈ spec.fields, fit f (content f)
  writes : ∀ record, Legal record → ∀ f ∈ spec.fields,
    ((m.toValue record).content f.name).isNull = false → fit f ((m.toValue record).content f.name)
  null : ∀ f ∈ spec.fields, f.nullable = true → fit f .null
  legal : ∀ v record, m.ofValue v = .ok record → Legal record
  saved : ∀ now record, Legal record → Legal (m.saved now record)

/-! ### Layouts -/

/-- The field of the layout is read from the value. -/
def Layout.ReadsAt (layout : Layout) (f : FieldSpec) (v : Value) : Prop :=
  ∃ type, (f.name, type) ∈ layout ∧ (type.read? (v.interchange .numbers)).isSome

/-- Only fields that the layout makes optional may be null. -/
def Spec.Demands (spec : Spec) (layout : Layout) : Prop :=
  ∀ f ∈ spec.fields, ∀ type, (f.name, type) ∈ layout → f.nullable = true → type.isOptional = true

theorem Layout.exists_ofValue_map_iff {layout : Layout} {declaration : Declaration} {roles : List Role}
    {hooks : Hooks (Dict Cell)} {members : List (String × Value)} :
    (∃ record, (layout.model declaration roles hooks).ofValue (.map members) = .ok record) ↔
      (layout.mapM (readMember? (Value.interchangeMembers .numbers members))).isSome := by
  have reading : (layout.model declaration roles hooks).read?
      (.map (Value.interchangeMembers .numbers members)) =
        (layout.mapM (readMember? (Value.interchangeMembers .numbers members))).map Dict.ofList := rfl
  rw [Model.ofValue, Value.interchange, reading]
  cases layout.mapM (readMember? (Value.interchangeMembers .numbers members)) <;> simp

/-- A layout reads the map of a record field by field. -/
theorem Layout.fieldwise {layout : Layout} {spec : Spec} (nodup : (layout.map Prod.fst).Nodup)
    (lists : spec.Lists layout) (demands : spec.Demands layout) (declaration : Declaration)
    (roles : List Role) (hooks : Hooks (Dict Cell))
    (saved : ∀ now record, layout.Fits record →
      layout.Fits ((layout.model declaration roles hooks).saved now record)) :
    (layout.model declaration roles hooks).Fieldwise spec layout.Fits layout.ReadsAt where
  reads content := by
    have member {field : String × CellType} {f : FieldSpec} (mem : f ∈ spec.fields)
        (named : f.name = field.1) :
        readMember? (Value.interchangeMembers .numbers
          (Dict.ofList (spec.fields.map fun f => (f.name, content f))).entries) field =
            (field.2.read? ((content f).interchange .numbers)).map fun cell => (field.1, cell) := by
      rw [readMember?, Value.interchangeMembers_eq_map,
        Entries.lookup_map (fun e : String × Value => e.2.interchange .numbers), ← named,
        Spec.lookup_recordOf content mem]
      rfl
    rw [Spec.recordOf, Value.ofDict, exists_ofValue_map_iff, List.isSome_mapM_iff]
    constructor
    · intro read f mem
      obtain ⟨⟨name, type⟩, listed, named⟩ :=
        List.mem_map.1 ((lists.names f.name).1 (Spec.declares_iff.2 (List.mem_map_of_mem mem)))
      have named : f.name = name := named.symm
      have found := read (name, type) listed
      rw [member mem named, Option.isSome_map] at found
      exact ⟨type, named ▸ listed, found⟩
    · intro fits field listed
      obtain ⟨f, mem, named⟩ :=
        List.mem_map.1 (Spec.declares_iff.1 ((lists.names field.1).2 (List.mem_map_of_mem listed)))
      obtain ⟨type, also, read⟩ := fits f mem
      have same : (f.name, type) = field :=
        List.inj_on_of_nodup_map nodup also listed named
      rw [member mem named, Option.isSome_map, ← same]
      exact read
  writes record fits f mem filled := by
    obtain ⟨type, cell, listed, held, holds, content⟩ := lists.exists_content fits mem
    have content : (((layout.model declaration roles hooks).toValue record).content f.name) = cell.write :=
      content
    rw [content] at filled ⊢
    refine ⟨type, listed, ?_⟩
    have written : ¬ (cell = .absent ∨ cell.isFinite = false) := by
      rw [← Cell.isNull_write_iff, filled]
      exact Bool.false_ne_true
    rw [not_or, Bool.not_eq_false] at written
    rw [Value.interchange_of_plain .numbers _ cell.isWritten_write.plain, type.read?_write holds,
      if_pos (.inl written.2)]
    rfl
  null f mem nullable := by
    obtain ⟨⟨name, type⟩, listed, named⟩ :=
      List.mem_map.1 ((lists.names f.name).1 (Spec.declares_iff.2 (List.mem_map_of_mem mem)))
    have named : f.name = name := named.symm
    have listed : (f.name, type) ∈ layout := named ▸ listed
    refine ⟨type, listed, ?_⟩
    cases type with
    | optional inner => rfl
    | _ => cases demands f mem _ listed nullable
  legal v record read := by
    refine (legal_of_read? (v := v) nodup ?_).1
    rw [Model.ofValue] at read
    split at read
    · next own found =>
        cases read
        exact found
    · cases read
  saved := saved

/-- What an update assigns is null or fits the field that it is assigned to. -/
def Update.Suits (u : Update) (spec : Spec) (params : Params) (fit : FieldSpec → Value → Prop) : Prop :=
  ∀ a ∈ u.assignments, ∀ f v, spec.field? a.1 = some f → params.get? a.2 = some v →
    v.isNull = false → fit f v

/-! ### Assignments -/

namespace Relational.Table

/-- Under a column is what was assigned to it last, or what was there if nothing was assigned. -/
theorem get?_assign (assignments : List (String × Value)) (row : Row) (column : String) :
    (assign assignments row).get? column =
      (assignments.reverse.lookup column).or (row.get? column) := by
  induction assignments using List.reverseRecOn with
  | nil => rfl
  | append_singleton before last ih =>
      obtain ⟨own, v⟩ := last
      rw [assign, List.foldl_append, List.foldl_cons, List.foldl_nil, List.reverse_append,
        List.reverse_singleton, List.singleton_append, Entries.lookup_cons, Dict.get?_insert]
      split
      · rfl
      · exact ih

/-- A cell after assignments is what was assigned to its column last, if anything was. -/
theorem cell_assign (assignments : List (String × Value)) (row : Row) (column : String) :
    Row.cell (assign assignments row) column =
      (assignments.reverse.lookup column).getD (Row.cell row column) := by
  rw [Row.cell, get?_assign]
  cases assignments.reverse.lookup column <;> rfl

/-- A table of the same spec with as many rows. -/
structure Resembles (t after : Table) : Prop where
  spec : after.spec = t.spec
  length : after.rows.length = t.rows.length

theorem resembles_updateAt {assignments : List (String × Value)} {t before after : Table} {i : Nat}
    (h : t.Resembles before) (updated : before.updateAt assignments i = .ok after) :
    t.Resembles after := by
  rcases updateAt_eq_ok updated with rfl | ⟨_, normal, _, _, _, rfl⟩
  · exact h
  · exact ⟨by rw [spec_place, h.spec], by rw [place, List.length_set, h.length]⟩

/-- An update that meets a row writes one, the last that it meets. -/
theorem exists_written_of_update {t after : Table} {u : BoundUpdate} {n : Nat}
    (updated : t.update u = .ok (n, after)) (hit : 0 < n) :
    ∃ row normal, normal ∈ after.rows ∧ TakenIn t.spec (assign u.assignments row) normal := by
  simp only [update, Fallible.bind_eq_ok_iff] at updated
  obtain ⟨walked, run, same⟩ := updated
  suffices written : ∃ row normal, normal ∈ walked.rows ∧
      TakenIn t.spec (assign u.assignments row) normal by
    cases same
    obtain ⟨row, normal, mem, taken⟩ := written
    refine ⟨row, normal, ?_, taken⟩
    split
    · exact mem
    · exact mem
  generalize placed : (t.rows.zipIdx.filter fun x => u.predicate.holds x.1).map Prod.snd = places
    at run same
  rcases List.eq_nil_or_concat places with rfl | ⟨front, i, rfl⟩
  · cases same
    simp at hit
  · rw [List.concat_eq_append, List.foldlM_append, Fallible.bind_eq_ok_iff] at run
    obtain ⟨before, walk, last⟩ := run
    rw [List.foldlM_cons, Fallible.bind_eq_ok_iff] at last
    obtain ⟨final, last, done⟩ := last
    cases done
    have alike : t.Resembles before :=
      Fallible.foldlM_induction ⟨rfl, rfl⟩ (fun _ _ _ => resembles_updateAt) walk
    have inside : i < before.rows.length := by
      have mem : i ∈ (t.rows.zipIdx.filter fun x => u.predicate.holds x.1).map Prod.snd := by
        rw [placed]
        simp
      obtain ⟨⟨row, j⟩, met, rfl⟩ := List.mem_map.1 mem
      have held := List.mk_mem_zipIdx_iff_getElem?.1 (List.mem_of_mem_filter met)
      rw [alike.length]
      exact (List.getElem?_eq_some_iff.1 held).1
    simp only [updateAt, List.getElem?_eq_getElem inside, Fallible.bind_eq_ok_iff] at last
    obtain ⟨normal, normalized, _, checked, whole⟩ := last
    cases whole
    exact ⟨_, normal, List.mem_set inside normal, takenIn alike.spec normalized checked⟩

end Relational.Table

/-! ### Writes -/

namespace RecordTable

open Relational

/-- The type can read the row. -/
def Reads (t : RecordTable ρ σ) (row : Row) : Prop := ∃ record, t.ofRow row = .ok record

variable {t : RecordTable ρ σ} {Legal : ρ → Prop} {fit : FieldSpec → Value → Prop} {row normal : Row}

theorem reads_iff (h : t.model.Fieldwise t.spec Legal fit) :
    t.Reads row ↔ ∀ f ∈ t.spec.fields, fit f (Row.cell row f.column) :=
  h.reads fun f => Row.cell row f.column

/-- A row whose contents fit is one that the type can read as soon as a table takes it in. -/
theorem reads_of_takenIn (h : t.model.Fieldwise t.spec Legal fit) (taken : TakenIn t.spec row normal)
    (fits : ∀ f ∈ t.spec.fields, (Row.cell row f.column).isNull = false →
      fit f (Row.cell row f.column)) : t.Reads normal := by
  refine (reads_iff h).2 fun f mem => ?_
  rw [taken.cells f mem]
  cases null : (Row.cell row f.column).isNull with
  | false => exact fits f mem null
  | true =>
      -- The table takes null only in a field that may be null.
      have nullable : f.nullable = true := by
        by_contra required
        have filled := taken.admits.filled f mem (.inr (.inr (Bool.not_eq_true _ ▸ required)))
        rw [taken.cells f mem, null] at filled
        cases filled
      rw [Value.isNull_eq_true_iff.1 null]
      exact h.null f mem nullable

/-- The row of a legal record. -/
theorem reads_of_toRow (h : t.model.Fieldwise t.spec Legal fit) {record : ρ} (legal : Legal record)
    (made : t.toRow record = .ok row) (taken : TakenIn t.spec row normal) : t.Reads normal := by
  refine reads_of_takenIn h taken fun f mem filled => ?_
  have same := (of_toRow_eq_ok made).2 f mem
  rw [same] at filled ⊢
  exact h.writes record legal f mem filled

/-- What a bound update assigns to the column of a declared field. -/
theorem exists_param_of_bind {u : Update} {params : Params} {bound : BoundUpdate} {spec : Spec}
    (made : u.bind spec params = .ok bound) {f : FieldSpec} (mem : f ∈ spec.fields) {v : Value}
    (assigned : (f.column, v) ∈ bound.assignments) :
    ∃ a ∈ u.assignments, spec.field? a.1 = some f ∧ params.get? a.2 = some v := by
  obtain ⟨a, also, one⟩ := Fallible.exists_of_mem_of_mapM (Update.parts_of_bind made).1 assigned
  obtain ⟨-, known, given⟩ := Update.bindAssignment_eq_ok_iff.1 one
  refine ⟨a, also, ?_, Params.value_eq_ok given⟩
  rw [Spec.columnOf] at known
  cases found : spec.field? a.1 with
  | none =>
      rw [found] at known
      cases known
  | some g =>
      rw [found] at known
      obtain ⟨-, declared⟩ := Spec.name_of_field? found
      rw [List.inj_on_of_nodup_map spec.columns_nodup declared mem (Except.ok.inj known)]

/-- A readable row with assignments that fit. -/
theorem reads_of_assign (h : t.model.Fieldwise t.spec Legal fit) {assignments : List (String × Value)}
    (fits : ∀ f ∈ t.spec.fields, ∀ v, assignments.reverse.lookup f.column = some v → v.isNull = false →
      fit f v) (read : t.Reads row) (taken : TakenIn t.spec (Table.assign assignments row) normal) :
    t.Reads normal := by
  refine reads_of_takenIn h taken fun f mem filled => ?_
  rw [Table.cell_assign] at filled ⊢
  cases assigned : assignments.reverse.lookup f.column with
  | none => exact (reads_iff h).1 read f mem
  | some v =>
      rw [assigned] at filled
      exact fits f mem v assigned filled

end RecordTable

/-! ### Reads -/

/-- Whether stored data could not be turned back into a record. -/
def Error.isDecode : Error → Bool
  | decode .. => true
  | _ => false

namespace Call

variable {α β : Type} {P : σ → Prop} {R : α → Prop} {S : β → Prop}

/-- The call keeps a property of the backend and with it answers as said, and if it fails, it is not for
data that cannot be read. -/
structure Yields (P : σ → Prop) (call : Call σ α) (R : α → Prop) : Prop where
  keeps : call.Keeps P
  answer : ∀ s a, P s.backend → (call s).1 = .ok a → R a
  failure : ∀ s e, P s.backend → (call s).1 = .error e → e.isDecode = false

theorem yields_pure {a : α} (h : R a) : Yields P (pure a : Call σ α) R where
  keeps := keeps_pure a
  answer _ _ _ same := by
    cases same
    exact h
  failure _ _ _ same := by cases same

theorem yields_fail {e : Error} (h : e.isDecode = false) : Yields P (fail e : Call σ α) R where
  keeps := keeps_fail e
  answer _ _ _ same := by cases same
  failure _ _ _ same := by
    cases same
    exact h

theorem yields_lift {result : Except Error α} (answer : ∀ a, result = .ok a → R a)
    (failure : ∀ e, result = .error e → e.isDecode = false) : Yields P (lift result : Call σ α) R where
  keeps := keeps_lift result
  answer s a _ same := answer a (by rwa [lift_apply] at same)
  failure s e _ same := failure e (by rwa [lift_apply] at same)

theorem yields_check (ctx : Context) : Yields P (check ctx : Call σ Unit) fun _ => True where
  keeps := keeps_check ctx
  answer _ _ _ _ := trivial
  failure s e _ same := by
    cases refused : s.refusal? ctx with
    | none =>
        rw [check_of_live refused] at same
        cases same
    | some _ =>
        rw [check_of_refusal refused] at same
        cases same
        rcases Session.refusal?_eq_some refused with rfl | rfl <;> rfl

theorem Yields.bind {call : Call σ α} {next : α → Call σ β} (h : call.Yields P R)
    (rest : ∀ a, R a → (next a).Yields P S) : (call >>= next).Yields P S := by
  have outcome (s : Session σ) (holds : P s.backend) : P ((call >>= next) s).2.backend ∧
      (∀ b, ((call >>= next) s).1 = .ok b → S b) ∧
        ∀ e, ((call >>= next) s).1 = .error e → e.isDecode = false := by
    have kept := h.keeps s holds
    have answer := h.answer s
    have failure := h.failure s
    rw [bind_apply]
    cases result : call s with
    | mk outcome t =>
        rw [result] at kept answer failure
        cases outcome with
        | error e =>
            refine ⟨kept, (fun _ same => by cases same), fun e' same => ?_⟩
            cases same
            exact failure e holds rfl
        | ok a =>
            have later := rest a (answer a holds rfl)
            exact ⟨later.keeps t kept, fun b => later.answer t b kept, fun e => later.failure t e kept⟩
  exact ⟨fun s holds => (outcome s holds).1, fun s b holds => (outcome s holds).2.1 b,
    fun s e holds => (outcome s holds).2.2 e⟩

theorem Yields.map {call : Call σ α} (h : call.Yields P R) (f : α → β) :
    (f <$> call).Yields P fun _ => True := by
  rw [← bind_pure_comp]
  exact h.bind fun _ _ => yields_pure trivial

end Call

theorem Model.yields_afterLoad {P : σ → Prop} (m : Model ρ) (ctx : Context) (key : String)
    (record : ρ) : (m.afterLoad ctx key record).Yields P fun _ => True := by
  have dispatched : (m.dispatch .afterLoad ctx key record (m.hooks.afterLoad · record)).Yields P
      fun r => ∀ e, r.2 = .error e → e.isDecode = false := by
    have answers (s : Session σ) :
        (m.dispatch .afterLoad ctx key record (m.hooks.afterLoad · record)).Answers s _ :=
      m.dispatch_answers .afterLoad key record (m.hooks.afterLoad · record)
    refine ⟨(m.prepares_dispatch .afterLoad key record _).keeps, fun s r _ ran e failed => ?_,
      fun s e _ failed => ?_⟩
    · obtain ⟨source, rfl⟩ := ((answers s).quietly.answer r ran).2 e failed
      rfl
    · obtain ⟨r, t, ran, -⟩ := answers s
      rw [ran] at failed
      cases failed
  exact dispatched.bind fun r early =>
    (Call.yields_lift (fun _ _ => trivial) early).bind fun _ _ => Call.yields_pure trivial

theorem Refuses.isDecode {α : Type} {x : Except Error α} (h : Refuses x) :
    ∀ e, x = .error e → e.isDecode = false := by
  intro e failed
  obtain ⟨detail, rfl⟩ := h e failed
  rfl

/-- A text that is no key is refused as one. -/
theorem FieldSpec.isDecode_keyOf (f : FieldSpec) (text : String) :
    ∀ e, f.keyOf text = .error e → e.isDecode = false := by
  intro e failed
  rw [keyOf, Fallible.bind_eq_error_iff] at failed
  rcases failed with failed | ⟨_, _, failed⟩
  · rw [checkKey] at failed
    split at failed <;> cases failed
    rfl
  · split at failed
    · cases failed
    · cases failed
      rfl

namespace Relational

/-! ### Rows that are read -/

namespace Table

variable {t : Table} {row : Row}

theorem mem_of_find? {key : Value} (found : t.find? key = some row) : row ∈ t.rows := by
  rw [find?_eq] at found
  exact List.mem_of_find?_eq_some found

end Table

theorem Table.isDecode_of_isFault {e : Error} (h : Table.isFault e = true) : e.isDecode = false := by
  cases e <;> first | rfl | cases h

namespace Connection

variable {α : Type} {P : Table → Prop} {R : α → Prop} {ctx : Context} {table : TableDef}
  {spec : Spec} {Q : Row → Prop}

theorem yields_read {name : String} {f : Table → Except Error α}
    (answer : ∀ t a, P t → f t = .ok a → R a)
    (failure : ∀ t e, P t → f t = .error e → e.isDecode = false) :
    (read name f).Yields (All name P) R := by
  refine ⟨keeps_read name f, fun s a h done => ?_, fun s e h failed => ?_⟩
  · rw [read_apply] at done
    rcases h.visit_answer false fun t => (f t, t) with missing | ⟨t, holds, same⟩
    · rw [missing] at done
      cases done
    · rw [same] at done
      exact answer t a holds done
  · rw [read_apply] at failed
    rcases h.visit_answer false fun t => (f t, t) with missing | ⟨t, holds, same⟩
    · rw [missing] at failed
      cases failed
      rfl
    · rw [same] at failed
      exact failure t e holds failed

/-- A get answers one of the rows. -/
theorem yields_get (key : Value) :
    (get ctx table key).Yields (All table.name (Table.AllRows spec Q)) Q := by
  refine (Call.yields_check ctx).bind fun _ _ => yields_read (fun t row holds found => ?_)
    fun t e _ failed => ?_
  · split at found
    · next held =>
        cases found
        exact holds.rows _ (Table.mem_of_find? held)
    · cases found
  · split at failed
    · cases failed
    · cases failed
      rfl

theorem yields_has (key : Value) :
    (has ctx table key).Yields (All table.name P) fun _ => True :=
  (Call.yields_check ctx).bind fun _ _ => yields_read (fun _ _ _ _ => trivial)
    fun _ _ _ failed => by cases failed

/-- A query answers some of the rows. -/
theorem yields_query (q : BoundQuery) :
    (query ctx table q).Yields (All table.name (Table.AllRows spec Q)) fun rows => ∀ row ∈ rows, Q row := by
  refine (Call.yields_check ctx).bind fun _ _ => yields_read (fun t rows holds done => ?_)
    fun _ _ _ failed => by cases failed
  cases done
  exact fun row mem => holds.rows row (Table.mem_query mem)

theorem yields_select (q : BoundQuery) :
    (selectFirst query ctx table q).Yields (All table.name (Table.AllRows spec Q)) Q := by
  refine (yields_query _).bind fun rows good => ?_
  cases rows with
  | nil => exact Call.yields_fail rfl
  | cons row rest => exact Call.yields_pure (good row List.mem_cons_self)

theorem yields_aggregate (a : BoundAggregate) :
    (aggregate ctx table a).Yields (All table.name P) fun _ => True :=
  (Call.yields_check ctx).bind fun _ _ => yields_read (fun _ _ _ _ => trivial)
    fun _ _ _ failed => Table.isDecode_of_isFault (Table.isFault_of_aggregate failed)

end Connection

end Relational

namespace RecordTable

open Relational

variable {model : Model ρ} {table : TableDef} {ctx : Context}

/-- The rows of the table are ones that the type can read. -/
abbrev AllRead (model : Model ρ) (table : TableDef) : Connection → Prop :=
  Connection.All table.name (Table.AllRows table.spec (inMemory model table).Reads)

theorem yields_underKey {α : Type} {R : α → Prop} {key : String} {call : Value → Call Connection α}
    (yields : ∀ v, (call v).Yields (AllRead model table) R) :
    ((inMemory model table).underKey ctx key call).Yields (AllRead model table) R :=
  (Call.yields_lift (fun _ _ => trivial) (FieldSpec.isDecode_keyOf _ key)).bind fun v _ =>
    (Call.yields_check ctx).bind fun _ _ => yields v

theorem yields_underBound {α β : Type} {R : α → Prop} {bound : Except Error β}
    {call : β → Call Connection α} (refuses : Refuses bound)
    (yields : ∀ b, (call b).Yields (AllRead model table) R) :
    (underBound ctx bound call).Yields (AllRead model table) R :=
  (Call.yields_lift (fun _ _ => trivial) refuses.isDecode).bind fun b _ =>
    (Call.yields_check ctx).bind fun _ _ => yields b

theorem yields_load {row : Row} (read : (inMemory model table).Reads row) :
    ((inMemory model table).load ctx row).Yields (AllRead model table) fun _ => True := by
  obtain ⟨record, read⟩ := read
  refine (Call.yields_lift (fun _ _ => trivial) fun e failed => ?_).bind fun record _ =>
    Model.yields_afterLoad _ ctx _ record
  rw [read] at failed
  cases failed

theorem yields_loadAll {rows : List Row} (read : ∀ row ∈ rows, (inMemory model table).Reads row) :
    ((inMemory model table).loadAll ctx rows).Yields (AllRead model table) fun _ => True := by
  induction rows with
  | nil => exact Call.yields_pure trivial
  | cons row rest ih =>
      rw [List.forall_mem_cons] at read
      exact (yields_load read.1).bind fun _ _ => (ih read.2).bind fun _ _ => Call.yields_pure trivial

theorem isDecode_insertMember {members : List (String × Value)} {a : Atom} {f : FieldSpec} {e : Error}
    (failed : Atom.insertMember members a f = .error e) : e.isDecode = false := by
  rw [Atom.insertMember_eq_content] at failed
  split at failed
  · split at failed <;> cases failed
    rfl
  · cases kind : f.kind <;> simp only [Atom.insertValue, kind] at failed
    case composite => cases failed
    all_goals
      split at failed <;> cases failed
      rfl

/-- A record that is made into an atom can only fail to be made into one. -/
theorem isDecode_ofValue {spec : Spec} {v : Value} {e : Error} (failed : Atom.ofValue spec v = .error e) :
    e.isDecode = false := by
  rw [Atom.ofValue, Fallible.bind_eq_error_iff] at failed
  rcases failed with failed | ⟨members, _, failed⟩
  · rw [Atom.recordMembers.eq_def] at failed
    split at failed
    · split at failed <;> cases failed
      rfl
    · cases failed
      rfl
  · obtain ⟨a, f, _, failed⟩ := Fallible.exists_of_foldlM_eq_error failed
    exact isDecode_insertMember failed

theorem isDecode_atomOfRow {row : Row} (read : (inMemory model table).Reads row) :
    ∀ e, (inMemory model table).atomOfRow row = .error e → e.isDecode = false := by
  intro e failed
  obtain ⟨record, read⟩ := read
  rw [atomOfRow, read] at failed
  exact isDecode_ofValue failed

namespace Use

/-- Whether the operation only reads. -/
def isRead : Use ρ → Bool
  | write _ | setAtom _ | deleteAtom _ => false
  | _ => true

/-- An operation that only reads does not fail for a row that cannot be read. -/
theorem yields_run {op : Use ρ} (read : op.isRead = true) :
    (op.run (inMemory model table) ctx).Yields (AllRead model table) fun _ => True := by
  have atoms {rows : List Row} (good : ∀ row ∈ rows, (inMemory model table).Reads row) :
      ∀ e, rows.mapM (inMemory model table).atomOfRow = .error e → e.isDecode = false := by
    intro e failed
    obtain ⟨row, mem, failed⟩ := Fallible.exists_of_mapM_eq_error failed
    exact isDecode_atomOfRow (good row mem) e failed
  cases op with
  | write | setAtom | deleteAtom => cases read
  | has key => exact (yields_underKey fun v => Connection.yields_has v).map _
  | get key =>
      exact (yields_underKey fun v => (Connection.yields_get v).bind fun row good => yields_load good).map _
  | getAtom key =>
      exact (yields_underKey fun v => (Connection.yields_get v).bind fun row good =>
        Call.yields_lift (fun _ _ => trivial) (isDecode_atomOfRow good)).map _
  | query q params =>
      exact (yields_underBound (q.refuses_bind _ params) fun b =>
        (Connection.yields_query b).bind fun rows good => yields_loadAll good).map _
  | queryAtoms q params =>
      exact (yields_underBound (q.refuses_bind _ params) fun b =>
        (Connection.yields_query b).bind fun rows good =>
          Call.yields_lift (fun _ _ => trivial) (atoms good)).map _
  | select q params =>
      exact (yields_underBound (q.refuses_bind _ params) fun b =>
        (Connection.yields_select b).bind fun row good => yields_load good).map _
  | selectAtom q params =>
      exact (yields_underBound (q.refuses_bind _ params) fun b =>
        (Connection.yields_select b).bind fun row good =>
          Call.yields_lift (fun _ _ => trivial) (isDecode_atomOfRow good)).map _
  | aggregate a params =>
      exact (yields_underBound (a.refuses_bind _ params) fun b => Connection.yields_aggregate b).map _

/-- A record that is saved is legal, and what an update assigns is null or fits. -/
def Suits (spec : Spec) (Legal : ρ → Prop) (fit : FieldSpec → Value → Prop) : Use ρ → Prop
  | write (.set record) => Legal record
  | write (.update u params) => u.Suits spec params fit
  | _ => True

variable {Legal : ρ → Prop} {fit : FieldSpec → Value → Prop}

/-- Such an operation writes rows that can be read. -/
theorem leaves_reads (h : model.Fieldwise table.spec Legal fit) {op : Use ρ}
    (suits : op.Suits table.spec Legal fit) :
    op.Leaves (inMemory model table) (inMemory model table).Reads := by
  cases op with
  | write w =>
      cases w with
      | set record => exact fun now row normal made taken =>
          reads_of_toRow h (h.saved now record suits) made taken
      | update u params =>
          intro bound row normal made read taken
          refine reads_of_assign h (fun f mem v assigned filled => ?_) read taken
          have assigned := List.mem_reverse.1 (Entries.mem_of_lookup assigned)
          obtain ⟨a, called, named, given⟩ := exists_param_of_bind made mem assigned
          exact suits a called f v named given filled
      | delete key => trivial
  | setAtom a =>
      intro row normal made taken
      rw [rowOfAtom, Fallible.bind_eq_ok_iff] at made
      obtain ⟨record, read, made⟩ := made
      rw [Model.deatomize, Fallible.bind_eq_ok_iff] at read
      obtain ⟨v, _, read⟩ := read
      exact reads_of_toRow h (h.legal v record read) made taken
  | _ => trivial

end Use

end RecordTable

namespace Relational

open RecordTable

variable {model : Model ρ} {table : TableDef} {Legal : ρ → Prop} {fit : FieldSpec → Value → Prop}

/-- Records that are saved are legal, what updates assign is null or fits, and the database leaves the
table to its records. -/
def Turn.Suits (table : TableDef) (Legal : ρ → Prop) (fit : FieldSpec → Value → Prop) : Turn ρ → Prop
  | use _ _ op => op.Suits table.spec Legal fit
  | other step => step.Cedes table

/-- What comes of a call that does not fail for data that cannot be read. -/
theorem isDecode_on {α : Type} {name : String} {P : Table → Prop} {R : α → Prop}
    {call : Call Connection α} {s : Session System} {tx : Option String} {e : Error}
    (h : s.backend.All name P) (yields : call.Yields (Connection.All name P) R)
    (failed : (on tx call s).1 = some (.error e)) : e.isDecode = false := by
  cases tx with
  | none =>
      have start : Connection.All name P { database := s.backend.database } :=
        ⟨h.database, fun _ absent => by cases absent⟩
      exact yields.failure (s.withBackend _) e start (Option.some.inj failed)
  | some under =>
      rw [on] at failed
      cases held : s.backend.transactions.get? under with
      | none =>
          rw [held] at failed
          cases failed
      | some tx =>
          have start : Connection.All name P
              { database := s.backend.database, transaction := some tx } :=
            ⟨h.database, fun _ same => Option.some.inj same ▸ h.transactions under tx held⟩
          rw [held] at failed
          exact yields.failure (s.withBackend _) e start (Option.some.inj failed)

/-- The rows of a table that only its records write, of a type that reads rows field by field. In every
run, direct or in transactions, whose updates assign null or what fits the field, all rows of the table
and of its copies are ones that the type can read, so no operation that reads fails to decode one. An
update that meets a row of a table all of whose rows can be read leaves it such a table exactly if what
it assigned last to each field is null or fits the field. -/
theorem typed_rows_readable (h : model.Fieldwise table.spec Legal fit) :
    (∀ (turns : List (Turn ρ)) (s : Session System),
      s.backend.All table.name (Table.AllRows table.spec (inMemory model table).Reads) →
      (∀ turn ∈ turns, turn.Suits table Legal fit) →
        (Turn.run (inMemory model table) turns s).backend.All table.name
            (Table.AllRows table.spec (inMemory model table).Reads) ∧
          ∀ (tx : Option String) (ctx : Context) (op : Use ρ) (e : Error), op.isRead = true →
            (on tx (op.run (inMemory model table) ctx)
              (Turn.run (inMemory model table) turns s)).1 = some (.error e) → e.isDecode = false) ∧
    (∀ (u : Update) (params : Params) (bound : BoundUpdate) (t after : Table) (n : Nat),
      u.bind table.spec params = .ok bound →
      t.AllRows table.spec (inMemory model table).Reads → t.update bound = .ok (n, after) → 0 < n →
        (after.AllRows table.spec (inMemory model table).Reads ↔
          ∀ f ∈ table.spec.fields, ∀ v, bound.assignments.reverse.lookup f.column = some v →
            v.isNull = false → fit f v)) := by
  constructor
  · intro turns s start suits
    have kept : (Turn.run (inMemory model table) turns s).backend.All table.name
        (Table.AllRows table.spec (inMemory model table).Reads) := by
      refine Turn.allRows_run start fun turn mem => ?_
      have suits := suits turn mem
      cases turn with
      | use tx ctx op => exact Use.leaves_reads h suits
      | other step => exact suits
    exact ⟨kept, fun tx ctx op e read failed => isDecode_on kept (Use.yields_run read) failed⟩
  · intro u params bound t after n made all updated hit
    constructor
    · intro later f mem v assigned filled
      obtain ⟨row, normal, written, taken⟩ := Table.exists_written_of_update updated hit
      rw [all.isOf] at taken
      have read := (reads_iff h).1 (later.rows normal written) f mem
      rwa [taken.cells f mem, Table.cell_assign, assigned] at read
    · intro fits
      exact all.update (fun row normal read taken => reads_of_assign h fits read taken) updated

end Relational

namespace Orders

open Relational

theorem demands : spec.Demands layout := by
  intro f mem type listed nullable
  simp only [spec, List.mem_cons, List.not_mem_nil, or_false] at mem
  rcases mem with rfl | rfl | rfl | rfl | rfl
  case inr.inr.inr.inr =>
    simp [layout, FieldSpec.plain, FieldSpec.orNull] at listed
    subst listed
    rfl
  all_goals cases nullable

theorem fieldwise : model.Fieldwise spec layout.Fits layout.ReadsAt :=
  Layout.fieldwise (by decide) lists demands _ _ _ fun _ _ fits => fits

/-- Sets the status of all orders. -/
def restate : Update := ⟨[("status", "s")], []⟩

/-- An order is saved, and paid in a transaction. -/
def payment : List (Turn (Dict Cell)) :=
  [.use none context (.write (.set (order 1 "open"))), .other (.begin "a"),
    .use (some "a") context (.write (.update restate (.ofList [("s", .string "paid")]))),
    .other (.commit "a")]

/-- A session with a system of the table of orders, which has no rows. -/
def founded : Session System :=
  { backend := { database := { tables := .ofList [("orders", { spec })] } } }

theorem allRead_founded : founded.backend.All "orders" (Table.AllRows spec table.Reads) :=
  System.All.fresh table.table table.Reads

theorem suits_payment : ∀ turn ∈ payment, turn.Suits table.table layout.Fits layout.ReadsAt := by
  intro turn mem
  simp only [payment, List.mem_cons, List.not_mem_nil, or_false] at mem
  rcases mem with rfl | rfl | rfl | rfl
  · exact (legal_order 1 "open").1
  · trivial
  · intro a called f v named given filled
    cases List.mem_singleton.1 called
    cases named
    cases given
    exact ⟨.text, by simp [layout, FieldSpec.plain], rfl⟩
  · trivial

end Orders

namespace Relational

theorem typed_rows_readable_orders :
    (Turn.run Orders.table Orders.payment Orders.founded).backend.All "orders"
        (Table.AllRows Orders.spec Orders.table.Reads) ∧
      (on none (Orders.table.get Orders.context "1")
        (Turn.run Orders.table Orders.payment Orders.founded)).1 = some (.ok (Orders.order 1 "paid")) := by
  have fieldwise : Orders.model.Fieldwise Orders.table.table.spec _ _ := Orders.fieldwise
  exact ⟨((typed_rows_readable fieldwise).1 Orders.payment Orders.founded Orders.allRead_founded Orders.suits_payment).1, rfl⟩

/-- An update puts a number into a text field, and the order cannot be read any more. -/
theorem update_spoils_row :
    let params : Params := .ofList [("s", .integer 5)]
    (Orders.table.update Orders.context Orders.restate params Orders.placed).1 = .ok 1 ∧
      (Orders.table.get Orders.context "1"
        (Orders.table.update Orders.context Orders.restate params Orders.placed).2).1 =
          .error (.decode .value "the value does not fit the record type") :=
  ⟨rfl, rfl⟩

end Relational

end Depot
