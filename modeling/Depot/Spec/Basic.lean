import Depot.Error
import Depot.Spec.Field

/-!
# Specs of record types

A `Spec` is what the typed facades and the atomic bridges agree on: which fields a record type has
and which of them identifies a record. It is built from a `Declaration`, which may be wrong; a spec
cannot. Its names and columns are non-empty and distinct, so that each field is found by its own
name and column and by nothing else, and exactly one field is the key, which has a value in every
record.
-/

namespace Depot

/-- The fields of a record type, as they are declared. -/
structure Declaration where
  typeName : String
  /-- Where the type is defined, empty if that does not matter. -/
  package : String := ""
  fields : List FieldSpec := []

/-- The checked schema of a record type. -/
structure Spec where
  typeName : String
  package : String
  fields : List FieldSpec
  key : FieldSpec
  names_ne : ∀ f ∈ fields, f.name ≠ "" ∧ f.column ≠ ""
  names_nodup : (fields.map FieldSpec.name).Nodup
  columns_nodup : (fields.map FieldSpec.column).Nodup
  keys_eq : fields.filter FieldSpec.isKey = [key]
  key_nullable : key.nullable = false

namespace Declaration

/-- The declaration of a type known by its path: the last part of the path, without type
arguments, is its name and the rest its package. -/
def ofPath (path : String) (fields : List FieldSpec) : Declaration :=
  let base := path.toList.takeWhile (· != '<')
  let reversed := base.reverse
  let name := (reversed.takeWhile (· != ':')).reverse
  let package := ((reversed.dropWhile (· != ':')).drop 2).reverse
  ⟨String.ofList name, String.ofList package, fields⟩

/-- The first fault in the names and columns of fields, given the fields before them. -/
def nameFault? (before : List FieldSpec) : List FieldSpec → Option String
  | [] => none
  | f :: rest =>
    if f.name = "" ∨ f.column = "" then some "field with empty name or column"
    else if f.name ∈ before.map FieldSpec.name then some ("duplicate field '" ++ f.name ++ "'")
    else if f.column ∈ before.map FieldSpec.column then some ("duplicate column '" ++ f.column ++ "'")
    else nameFault? (before ++ [f]) rest

theorem valid_of_nameFault? {before fields : List FieldSpec} (h : nameFault? before fields = none)
    (names : (before.map FieldSpec.name).Nodup) (columns : (before.map FieldSpec.column).Nodup) :
    (∀ f ∈ fields, f.name ≠ "" ∧ f.column ≠ "") ∧
      ((before ++ fields).map FieldSpec.name).Nodup ∧
      ((before ++ fields).map FieldSpec.column).Nodup := by
  induction fields generalizing before with
  | nil => simpa using ⟨names, columns⟩
  | cons f rest ih =>
    rw [nameFault?] at h
    split at h
    · simp at h
    · next filled =>
      split at h
      · simp at h
      · next freshName =>
        split at h
        · simp at h
        · next freshColumn =>
          have names' : ((before ++ [f]).map FieldSpec.name).Nodup := by
            rw [List.map_append, List.nodup_append]
            refine ⟨names, by simp, fun a ha b hb => ?_⟩
            have : b = f.name := by simpa using hb
            subst this
            exact fun e => freshName (e ▸ ha)
          have columns' : ((before ++ [f]).map FieldSpec.column).Nodup := by
            rw [List.map_append, List.nodup_append]
            refine ⟨columns, by simp, fun a ha b hb => ?_⟩
            have : b = f.column := by simpa using hb
            subst this
            exact fun e => freshColumn (e ▸ ha)
          have rest := ih h names' columns'
          refine ⟨fun g hg => ?_, by simpa using rest.2⟩
          rcases List.mem_cons.1 hg with rfl | hg
          · exact ⟨fun e => filled (.inl e), fun e => filled (.inr e)⟩
          · exact rest.1 g hg

/-- Checks a declaration. A fault in names or columns is reported first, in the order of the fields,
then a missing or repeated key, then a key that may be null. -/
def build (d : Declaration) : Except Error Spec :=
  match faults : nameFault? [] d.fields with
  | some detail => .error (.invalidSpec d.typeName detail)
  | none =>
    match keys : d.fields.filter FieldSpec.isKey with
    | [] => .error (.noPrimaryKey d.typeName)
    | [key] =>
      if nullable : key.nullable = true then
        .error (.invalidSpec d.typeName ("primary key '" ++ key.name ++ "' cannot be nullable"))
      else
        have valid := valid_of_nameFault? faults (by simp) (by simp)
        .ok {
          typeName := d.typeName
          package := d.package
          fields := d.fields
          key
          names_ne := valid.1
          names_nodup := by simpa using valid.2.1
          columns_nodup := by simpa using valid.2.2
          keys_eq := keys
          key_nullable := by simpa using nullable }
    | many => .error (.multiplePrimaryKeys d.typeName (many.map FieldSpec.name))

end Declaration

namespace Spec

def qualifiedName (spec : Spec) : String :=
  if spec.package = "" then spec.typeName else spec.package ++ "::" ++ spec.typeName

def field? (spec : Spec) (name : String) : Option FieldSpec :=
  spec.fields.find? fun f => f.name == name

def fieldByColumn? (spec : Spec) (column : String) : Option FieldSpec :=
  spec.fields.find? fun f => f.column == column

def declares (spec : Spec) (name : String) : Bool :=
  (spec.field? name).isSome

def columns (spec : Spec) : List String :=
  spec.fields.map FieldSpec.column

theorem key_mem (spec : Spec) : spec.key ∈ spec.fields := by
  have h : spec.key ∈ spec.fields.filter FieldSpec.isKey := by simp [spec.keys_eq]
  exact (List.mem_filter.1 h).1

theorem isKey_key (spec : Spec) : spec.key.isKey = true := by
  have h : spec.key ∈ spec.fields.filter FieldSpec.isKey := by simp [spec.keys_eq]
  exact (List.mem_filter.1 h).2

theorem name_of_field? {spec : Spec} {name : String} {f : FieldSpec}
    (h : spec.field? name = some f) : f.name = name ∧ f ∈ spec.fields := by
  have found := List.find?_some h
  exact ⟨by simpa using found, List.mem_of_find?_eq_some h⟩

theorem column_of_fieldByColumn? {spec : Spec} {column : String} {f : FieldSpec}
    (h : spec.fieldByColumn? column = some f) : f.column = column ∧ f ∈ spec.fields := by
  have found := List.find?_some h
  exact ⟨by simpa using found, List.mem_of_find?_eq_some h⟩

end Spec

end Depot
