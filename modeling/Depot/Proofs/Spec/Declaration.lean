import Depot.Proofs.Record.Described
import Depot.Proofs.Statement.Binding

/-!
# Which declarations become specs

A declaration is accepted if its fields are well named and exactly one of them is the key, which has a
value in every record (`Declaration.Acceptable`). Otherwise it is refused for the first reason that there
is (`Declaration.Refused`): the first field that is badly named after those before it, then the lack of a
key, then a second key, then a key that may be null. The two conditions are said of the list of fields
alone, and the checks come to them (`build_judges`).

Names and columns are kept apart: a column may be the name of another field. So the fields of a spec
stand in a bijection with its names and in one with its columns, and every name has one column.
-/

namespace Depot

namespace Declaration

/-! ### Names and columns -/

/-- Names and columns are filled, and no two fields share one. -/
structure WellNamed (fields : List FieldSpec) : Prop where
  filled : ∀ f ∈ fields, f.name ≠ "" ∧ f.column ≠ ""
  names : (fields.map FieldSpec.name).Nodup
  columns : (fields.map FieldSpec.column).Nodup

/-- What is wrong with the names of a field that comes after others; of several faults the first one
counts. -/
inductive Fault (before : List FieldSpec) (f : FieldSpec) : String → Prop
  | empty (unfilled : f.name = "" ∨ f.column = "") : Fault before f "field with empty name or column"
  | name (filled : f.name ≠ "" ∧ f.column ≠ "") (taken : ∃ g ∈ before, g.name = f.name) :
      Fault before f ("duplicate field '" ++ f.name ++ "'")
  | column (filled : f.name ≠ "" ∧ f.column ≠ "") (fresh : ∀ g ∈ before, g.name ≠ f.name)
      (taken : ∃ g ∈ before, g.column = f.column) :
      Fault before f ("duplicate column '" ++ f.column ++ "'")

variable {before front fields rest : List FieldSpec} {f : FieldSpec} {detail : String}

theorem wellNamed_nil : WellNamed [] := ⟨by simp, by simp, by simp⟩

theorem WellNamed.left (h : WellNamed (before ++ rest)) : WellNamed before where
  filled g mem := h.filled g (List.mem_append_left rest mem)
  names := (List.nodup_append.1 (List.map_append ▸ h.names)).1
  columns := (List.nodup_append.1 (List.map_append ▸ h.columns)).1

theorem wellNamed_append_singleton_iff : WellNamed (before ++ [f]) ↔
    WellNamed before ∧ (f.name ≠ "" ∧ f.column ≠ "") ∧ (∀ g ∈ before, g.name ≠ f.name) ∧
      ∀ g ∈ before, g.column ≠ f.column := by
  have distinct (of : FieldSpec → String) : ((before ++ [f]).map of).Nodup ↔
      (before.map of).Nodup ∧ ∀ g ∈ before, of g ≠ of f := by
    rw [List.map_append, List.nodup_append]
    simp
  constructor
  · intro h
    exact ⟨h.left, h.filled f (by simp), ((distinct _).1 h.names).2, ((distinct _).1 h.columns).2⟩
  · rintro ⟨named, filled, freshName, freshColumn⟩
    refine ⟨fun g mem => ?_, (distinct _).2 ⟨named.names, freshName⟩,
      (distinct _).2 ⟨named.columns, freshColumn⟩⟩
    rcases List.mem_append.1 mem with mem | mem
    · exact named.filled g mem
    · obtain rfl := List.mem_singleton.1 mem
      exact filled

/-- A field with a fault is not well named among those before it. -/
theorem Fault.not_wellNamed (h : Fault before f detail) : ¬ WellNamed (before ++ [f]) := by
  rw [wellNamed_append_singleton_iff]
  rintro ⟨_, filled, freshName, freshColumn⟩
  cases h with
  | empty unfilled => exact unfilled.elim filled.1 filled.2
  | name _ taken =>
      obtain ⟨g, mem, same⟩ := taken
      exact freshName g mem same
  | column _ _ taken =>
      obtain ⟨g, mem, same⟩ := taken
      exact freshColumn g mem same

/-- A fault of the next field is reported. -/
theorem nameFault?_of_fault (h : Fault before f detail) (rest : List FieldSpec) :
    nameFault? before (f :: rest) = some detail := by
  cases h with
  | empty unfilled => rw [nameFault?, if_pos unfilled]
  | name filled taken =>
      rw [nameFault?, if_neg (not_or.2 filled), if_pos (List.mem_map.2 taken)]
  | column filled fresh taken =>
      have fresh : f.name ∉ before.map FieldSpec.name := by
        intro taken
        obtain ⟨g, mem, same⟩ := List.mem_map.1 taken
        exact fresh g mem same
      rw [nameFault?, if_neg (not_or.2 filled), if_neg fresh, if_pos (List.mem_map.2 taken)]

/-- The next field has a fault, or it is well named after those before it and passed over. -/
theorem nameFault?_step (named : WellNamed before) (f : FieldSpec) :
    (∃ detail, Fault before f detail) ∨
      (WellNamed (before ++ [f]) ∧
        ∀ rest, nameFault? before (f :: rest) = nameFault? (before ++ [f]) rest) := by
  by_cases unfilled : f.name = "" ∨ f.column = ""
  · exact .inl ⟨_, .empty unfilled⟩
  by_cases takenName : f.name ∈ before.map FieldSpec.name
  · exact .inl ⟨_, .name (not_or.1 unfilled) (List.mem_map.1 takenName)⟩
  have freshName : ∀ g ∈ before, g.name ≠ f.name := fun g mem same =>
    takenName (List.mem_map.2 ⟨g, mem, same⟩)
  by_cases takenColumn : f.column ∈ before.map FieldSpec.column
  · exact .inl ⟨_, .column (not_or.1 unfilled) freshName (List.mem_map.1 takenColumn)⟩
  have freshColumn : ∀ g ∈ before, g.column ≠ f.column := fun g mem same =>
    takenColumn (List.mem_map.2 ⟨g, mem, same⟩)
  refine .inr ⟨?_, fun rest => ?_⟩
  · exact wellNamed_append_singleton_iff.2 ⟨named, not_or.1 unfilled, freshName, freshColumn⟩
  · rw [nameFault?, if_neg unfilled, if_neg takenName, if_neg takenColumn]

/-- Fields in front that are well named are passed over. -/
theorem nameFault?_append (named : WellNamed (before ++ front)) (rest : List FieldSpec) :
    nameFault? before (front ++ rest) = nameFault? (before ++ front) rest := by
  induction front generalizing before with
  | nil => rw [List.append_nil, List.nil_append]
  | cons g front ih =>
      rw [List.append_cons] at named ⊢
      rcases nameFault?_step named.left.left g with ⟨_, fault⟩ | ⟨_, passed⟩
      · exact absurd named.left fault.not_wellNamed
      · rw [List.cons_append, passed, ih named]

/-- The fault that is reported is that of the first field which is not well named after those before
it. -/
theorem nameFault?_eq_some_iff (named : WellNamed before) : nameFault? before fields = some detail ↔
    ∃ front f rest, fields = front ++ f :: rest ∧ WellNamed (before ++ front) ∧
      Fault (before ++ front) f detail := by
  constructor
  · intro found
    induction fields generalizing before with
    | nil => cases found
    | cons f rest ih =>
        rcases nameFault?_step named f with ⟨own, fault⟩ | ⟨longer, passed⟩
        · obtain rfl : own = detail := Option.some.inj ((nameFault?_of_fault fault rest).symm.trans found)
          rw [← List.append_nil before] at named fault
          exact ⟨[], f, rest, rfl, named, fault⟩
        · rw [passed] at found
          obtain ⟨front, g, after, rfl, named, fault⟩ := ih longer found
          rw [← List.append_cons] at named fault
          exact ⟨f :: front, g, after, rfl, named, fault⟩
  · rintro ⟨front, f, rest, rfl, longer, fault⟩
    rw [nameFault?_append longer]
    exact nameFault?_of_fault fault rest

theorem nameFault?_eq_none_iff : nameFault? [] fields = none ↔ WellNamed fields := by
  constructor
  · intro faultless
    obtain ⟨filled, names, columns⟩ := valid_of_nameFault? faultless (by simp) (by simp)
    exact ⟨filled, names, columns⟩
  · intro named
    have front : WellNamed ([] ++ fields) := named
    have whole := nameFault?_append front []
    rwa [List.append_nil, List.nil_append, nameFault?] at whole

/-! ### Keys -/

/-- A declaration that becomes a spec: its fields are well named, and exactly one of them is the key,
which may not be null. -/
structure Acceptable (d : Declaration) : Prop where
  named : WellNamed d.fields
  one : d.fields.countP FieldSpec.isKey = 1
  filled : ∀ f ∈ d.fields, f.isKey = true → f.nullable = false

/-- The reason for which a declaration is refused, each under the condition that there is none before
it. -/
inductive Refused (d : Declaration) : Error → Prop
  /-- A field is badly named, and those before it are not. -/
  | misnamed {before after : List FieldSpec} {f : FieldSpec} {detail : String}
      (split : d.fields = before ++ f :: after) (named : WellNamed before) (fault : Fault before f detail) :
      Refused d (.invalidSpec d.typeName detail)
  | keyless (named : WellNamed d.fields) (none : d.fields.countP FieldSpec.isKey = 0) :
      Refused d (.noPrimaryKey d.typeName)
  /-- There are several keys; all of them are told, in the order of the fields. -/
  | ambiguous (named : WellNamed d.fields) (several : 1 < d.fields.countP FieldSpec.isKey) :
      Refused d (.multiplePrimaryKeys d.typeName ((d.fields.filter FieldSpec.isKey).map FieldSpec.name))
  | nullable {key : FieldSpec} (named : WellNamed d.fields) (one : d.fields.countP FieldSpec.isKey = 1)
      (mem : key ∈ d.fields) (isKey : key.isKey = true) (nullable : key.nullable = true) :
      Refused d (.invalidSpec d.typeName ("primary key '" ++ key.name ++ "' cannot be nullable"))

variable {d : Declaration} {spec : Spec} {e : Error}

/-- A declaration is acceptable, or there is a reason to refuse it. -/
theorem acceptable_or_refused (d : Declaration) : d.Acceptable ∨ ∃ e, d.Refused e := by
  by_cases named : WellNamed d.fields
  · rcases Nat.lt_trichotomy (d.fields.countP FieldSpec.isKey) 1 with none | one | several
    · exact .inr ⟨_, .keyless named (Nat.lt_one_iff.1 none)⟩
    · by_cases filled : ∀ f ∈ d.fields, f.isKey = true → f.nullable = false
      · exact .inl ⟨named, one, filled⟩
      · push Not at filled
        obtain ⟨key, mem, isKey, nullable⟩ := filled
        exact .inr ⟨_, .nullable named one mem isKey (by simpa using nullable)⟩
    · exact .inr ⟨_, .ambiguous named several⟩
  · cases found : nameFault? [] d.fields with
    | none => exact absurd (nameFault?_eq_none_iff.1 found) named
    | some detail =>
        obtain ⟨before, f, after, split, named, fault⟩ := (nameFault?_eq_some_iff wellNamed_nil).1 found
        exact .inr ⟨_, .misnamed split named fault⟩

/-- One key among fields is the only one. -/
theorem exists_filter_eq (one : fields.countP FieldSpec.isKey = 1) :
    ∃ key ∈ fields, key.isKey = true ∧ fields.filter FieldSpec.isKey = [key] := by
  rw [List.countP_eq_length_filter, List.length_eq_one_iff] at one
  obtain ⟨key, keys⟩ := one
  have mem : key ∈ fields.filter FieldSpec.isKey := by simp [keys]
  obtain ⟨mem, isKey⟩ := List.mem_filter.1 mem
  exact ⟨key, mem, isKey, keys⟩

theorem build_of_fault (found : nameFault? [] d.fields = some detail) :
    d.build = .error (.invalidSpec d.typeName detail) := by
  rw [build]
  split
  · next own => rw [Option.some.inj (own.symm.trans found)]
  · next none => cases none.symm.trans found

theorem build_of_keyless (named : WellNamed d.fields) (keys : d.fields.filter FieldSpec.isKey = []) :
    d.build = .error (.noPrimaryKey d.typeName) := by
  rw [build]
  split
  · next found => cases (nameFault?_eq_none_iff.2 named).symm.trans found
  · split
    · rfl
    · next own => cases keys.symm.trans own
    · next other _ => exact absurd keys other

theorem build_of_several (named : WellNamed d.fields) (several : 1 < d.fields.countP FieldSpec.isKey) :
    d.build = .error (.multiplePrimaryKeys d.typeName
      ((d.fields.filter FieldSpec.isKey).map FieldSpec.name)) := by
  rw [List.countP_eq_length_filter] at several
  rw [build]
  split
  · next found => cases (nameFault?_eq_none_iff.2 named).symm.trans found
  · split
    · next keys => simp [keys] at several
    · next keys => simp [keys] at several
    · rfl

theorem build_of_nullable {key : FieldSpec} (named : WellNamed d.fields)
    (keys : d.fields.filter FieldSpec.isKey = [key]) (nullable : key.nullable = true) :
    d.build = .error (.invalidSpec d.typeName ("primary key '" ++ key.name ++ "' cannot be nullable")) := by
  rw [build]
  split
  · next found => cases (nameFault?_eq_none_iff.2 named).symm.trans found
  · split
    · next own => cases keys.symm.trans own
    · next own =>
        cases keys.symm.trans own
        rw [dif_pos nullable]
    · next other => exact absurd keys (other key)

theorem build_of_key {key : FieldSpec} (named : WellNamed d.fields)
    (keys : d.fields.filter FieldSpec.isKey = [key]) (filled : key.nullable = false) :
    ∃ spec, d.build = .ok spec ∧ spec.typeName = d.typeName ∧ spec.package = d.package ∧
      spec.fields = d.fields := by
  rw [build]
  split
  · next found => cases (nameFault?_eq_none_iff.2 named).symm.trans found
  · split
    · next own => cases keys.symm.trans own
    · next own =>
        cases keys.symm.trans own
        rw [dif_neg (ne_true_of_eq_false filled)]
        exact ⟨_, rfl, rfl, rfl, rfl⟩
    · next other => exact absurd keys (other key)

/-- A declaration is refused for the first reason that there is. -/
theorem Refused.build (h : d.Refused e) : d.build = .error e := by
  cases h with
  | misnamed split named fault =>
      exact build_of_fault ((nameFault?_eq_some_iff wellNamed_nil).2 ⟨_, _, _, split, named, fault⟩)
  | keyless named none =>
      exact build_of_keyless named (List.length_eq_zero_iff.1 (List.countP_eq_length_filter ▸ none))
  | ambiguous named several => exact build_of_several named several
  | nullable named one mem isKey nullable =>
      obtain ⟨key, _, _, keys⟩ := exists_filter_eq one
      obtain rfl := List.mem_singleton.1 (keys ▸ List.mem_filter.2 ⟨mem, isKey⟩)
      exact build_of_nullable named keys nullable

theorem Acceptable.build (h : d.Acceptable) : ∃ spec, d.build = .ok spec ∧ spec.typeName = d.typeName ∧
    spec.package = d.package ∧ spec.fields = d.fields := by
  obtain ⟨key, mem, isKey, keys⟩ := exists_filter_eq h.one
  exact build_of_key h.named keys (h.filled key mem isKey)

theorem build_eq_error_iff : d.build = .error e ↔ d.Refused e := by
  refine ⟨fun failed => ?_, Refused.build⟩
  rcases acceptable_or_refused d with acceptable | ⟨own, refused⟩
  · obtain ⟨spec, built, _⟩ := acceptable.build
    cases built.symm.trans failed
  · cases refused.build.symm.trans failed
    exact refused

theorem acceptable_of_build (built : d.build = .ok spec) : d.Acceptable := by
  rcases acceptable_or_refused d with acceptable | ⟨e, refused⟩
  · exact acceptable
  · cases built.symm.trans refused.build

end Declaration

/-! ### What is built -/

namespace Spec

variable {spec : Spec} {f : FieldSpec} {name column : String}

/-- Where fields are told apart by a text, the one with a given text is the one that is found. -/
theorem find?_eq_some_iff {fields : List FieldSpec} {of : FieldSpec → String}
    (distinct : (fields.map of).Nodup) {text : String} :
    fields.find? (fun f => of f == text) = some f ↔ f ∈ fields ∧ of f = text := by
  constructor
  · intro found
    exact ⟨List.mem_of_find?_eq_some found, by simpa using List.find?_some found⟩
  · rintro ⟨mem, rfl⟩
    have there : (fields.find? fun g => of g == of f).isSome := List.find?_isSome.2 ⟨f, mem, by simp⟩
    obtain ⟨g, found⟩ := Option.isSome_iff_exists.1 there
    have same : of g = of f := by simpa using List.find?_some found
    rwa [List.inj_on_of_nodup_map distinct (List.mem_of_find?_eq_some found) mem same] at found

theorem columnOf_eq_ok_iff :
    spec.columnOf name = .ok column ↔ ∃ f ∈ spec.fields, f.name = name ∧ f.column = column := by
  refine ⟨columnOf_eq_ok, ?_⟩
  rintro ⟨f, mem, named, rfl⟩
  have found : spec.field? name = some f := (find?_eq_some_iff spec.names_nodup).2 ⟨mem, named⟩
  rw [columnOf, found]

/-- The spec says what the declaration says. Its fields are found by their own names and columns and by
nothing else, its names stand in a bijection with its columns, and its key is the marked field. -/
structure Realizes (spec : Spec) (d : Declaration) : Prop where
  typeName : spec.typeName = d.typeName
  package : spec.package = d.package
  fields : spec.fields = d.fields
  field?_iff : ∀ name f, spec.field? name = some f ↔ f ∈ d.fields ∧ f.name = name
  fieldByColumn?_iff : ∀ column f, spec.fieldByColumn? column = some f ↔ f ∈ d.fields ∧ f.column = column
  columnOf_iff : ∀ name column, spec.columnOf name = .ok column ↔
    ∃ f ∈ d.fields, f.name = name ∧ f.column = column
  exists_column : ∀ name ∈ d.fields.map FieldSpec.name, ∃! column, spec.columnOf name = .ok column
  exists_name : ∀ column ∈ d.fields.map FieldSpec.column, ∃! name, spec.columnOf name = .ok column
  key_iff : ∀ f, f = spec.key ↔ f ∈ d.fields ∧ f.isKey = true

theorem eq_key_iff : f = spec.key ↔ f ∈ spec.fields ∧ f.isKey = true := by
  rw [← List.mem_filter, spec.keys_eq, List.mem_singleton]

theorem exists_column (declared : name ∈ spec.fields.map FieldSpec.name) :
    ∃! column, spec.columnOf name = .ok column := by
  obtain ⟨f, mem, rfl⟩ := List.mem_map.1 declared
  refine ⟨f.column, columnOf_eq_ok_iff.2 ⟨f, mem, rfl, rfl⟩, fun column own => ?_⟩
  obtain ⟨g, also, same, rfl⟩ := columnOf_eq_ok_iff.1 own
  rw [List.inj_on_of_nodup_map spec.names_nodup also mem same]

theorem exists_name (declared : column ∈ spec.fields.map FieldSpec.column) :
    ∃! name, spec.columnOf name = .ok column := by
  obtain ⟨f, mem, rfl⟩ := List.mem_map.1 declared
  refine ⟨f.name, columnOf_eq_ok_iff.2 ⟨f, mem, rfl, rfl⟩, fun name own => ?_⟩
  obtain ⟨g, also, rfl, same⟩ := columnOf_eq_ok_iff.1 own
  rw [List.inj_on_of_nodup_map spec.columns_nodup also mem same]

theorem realizes_of_fields {d : Declaration} (typeName : spec.typeName = d.typeName)
    (package : spec.package = d.package) (fields : spec.fields = d.fields) : spec.Realizes d where
  typeName := typeName
  package := package
  fields := fields
  field?_iff _ _ := fields ▸ find?_eq_some_iff spec.names_nodup
  fieldByColumn?_iff _ _ := fields ▸ find?_eq_some_iff spec.columns_nodup
  columnOf_iff _ _ := fields ▸ columnOf_eq_ok_iff
  exists_column _ mem := exists_column (fields ▸ mem)
  exists_name _ mem := exists_name (fields ▸ mem)
  key_iff _ := fields ▸ eq_key_iff

end Spec

/-- **Declarations are judged as they should be.** A declaration is built into a spec exactly if its names
and columns are filled, no two fields share a name or share a column, and exactly one field is the key and
may not be null. It is refused with an error exactly if that is the error of the first reason: the first
badly named field in the order of the declaration, before the lack of a key, before several keys, which are
all told in order, before a key that may be null. And a spec that is built says what the declaration
says. -/
theorem build_judges (d : Declaration) :
    ((∃ spec, d.build = .ok spec) ↔ d.Acceptable) ∧ (∀ e, d.build = .error e ↔ d.Refused e) ∧
      ∀ spec, d.build = .ok spec → spec.Realizes d := by
  refine ⟨⟨fun ⟨spec, built⟩ => Declaration.acceptable_of_build built, fun acceptable => ?_⟩,
    fun e => Declaration.build_eq_error_iff, fun spec built => ?_⟩
  · obtain ⟨spec, built, _⟩ := acceptable.build
    exact ⟨spec, built⟩
  · obtain ⟨own, built', typeName, package, fields⟩ := (Declaration.acceptable_of_build built).build
    cases built'.symm.trans built
    exact Spec.realizes_of_fields typeName package fields

namespace Accounts

/-- Two fields, each in the column that is named as the other one. -/
def crossed : Declaration where
  typeName := "Account"
  fields := [(FieldSpec.plain "id" .integer).asKey.inColumn "email",
    (FieldSpec.plain "email" .string).inColumn "id"]

/-- Two keys, a column that is taken, and after it a name that is taken. -/
def muddled : Declaration where
  typeName := "Account"
  fields := [(FieldSpec.plain "id" .integer).asKey, (FieldSpec.plain "email" .string).asKey.inColumn "id",
    FieldSpec.plain "id" .string]

end Accounts

theorem build_judges_accounts :
    (∃ spec, Accounts.crossed.build = .ok spec ∧ spec.columnOf "id" = .ok "email" ∧
        spec.columnOf "email" = .ok "id" ∧ spec.field? "email" = spec.fieldByColumn? "id") ∧
      Accounts.muddled.build = .error (.invalidSpec "Account" "duplicate column 'id'") := by
  let id := (FieldSpec.plain "id" .integer).asKey
  let email := FieldSpec.plain "email" .string
  constructor
  · have acceptable : Accounts.crossed.Acceptable := ⟨⟨by decide, by decide, by decide⟩, rfl, by decide⟩
    obtain ⟨judged, -, realized⟩ := build_judges Accounts.crossed
    obtain ⟨spec, built⟩ := judged.2 acceptable
    have realizes := realized spec built
    have first : id.inColumn "email" ∈ Accounts.crossed.fields := List.mem_cons_self
    have second : email.inColumn "id" ∈ Accounts.crossed.fields := List.mem_cons_of_mem _ List.mem_cons_self
    refine ⟨spec, built, (realizes.columnOf_iff _ _).2 ⟨_, first, rfl, rfl⟩,
      (realizes.columnOf_iff _ _).2 ⟨_, second, rfl, rfl⟩, ?_⟩
    rw [(realizes.field?_iff "email" _).2 ⟨second, rfl⟩, (realizes.fieldByColumn?_iff "id" _).2 ⟨second, rfl⟩]
  · have split : Accounts.muddled.fields =
        [id] ++ email.asKey.inColumn "id" :: [FieldSpec.plain "id" .string] := rfl
    have named : Declaration.WellNamed [id] := ⟨by decide, by decide, by decide⟩
    have fault : Declaration.Fault [id] (email.asKey.inColumn "id") "duplicate column 'id'" :=
      .column (by decide) (by decide) ⟨id, List.mem_cons_self, rfl⟩
    obtain ⟨-, refused, -⟩ := build_judges Accounts.muddled
    exact (refused _).2 (.misnamed split named fault)

end Depot
