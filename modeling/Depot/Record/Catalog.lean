import Depot.Record.Layout

/-!
# A catalogue of record types

Record types that cover what a store can meet: fields of every kind, optional ones, renamed columns,
hooks that change a record, fail or cancel, roles without hooks and hooks without a role, records
without fixed fields, and declarations that are wrong.
-/

namespace Depot

structure RecordType where
  Carrier : Type
  model : Model Carrier

namespace Catalog

/-- Where the types of the catalogue are defined. -/
def package : String := "driver::records"

/-- A declaration by path, for a type of the catalogue. -/
def declare (name : String) (fields : List FieldSpec) : Declaration :=
  .ofPath (package ++ "::" ++ name) fields

/-- The key of most types: a text named `id`. -/
def idKey : FieldSpec := (FieldSpec.plain "id" .string).asKey

/-- The text of a field, empty if the record has none. -/
def textOf (record : Dict Cell) (field : String) : String :=
  match record.get? field with
  | some (.text s) => s
  | _ => ""

/-- The text of a member, empty if there is none. -/
def memberText (v : Value) (member : String) : String :=
  match v.field? member with
  | some (.string s) => s
  | _ => ""

/-- A text without the spaces at its two ends. -/
def trimSpaces (s : String) : String :=
  let isSpace : Char → Bool := (· == ' ')
  String.ofList ((s.toList.dropWhile isSpace).reverse.dropWhile isSpace).reverse

/-! ### Hooks that keep a journal

Every hook reports its role with the key of the record. What a record says in its body, or what a
key starts with, makes a hook fail or cancel the context. -/

/-- The hook before a save, given the record it leaves behind. -/
def journalBeforeSave {ρ : Type} (id body : String) (rejected saved : ρ) : HookRun ρ :=
  let events := ["before_save:" ++ id]
  if body = "reject" then ⟨rejected, events, false, some "body rejected"⟩
  else ⟨saved, events, body = "cancel", none⟩

def journalAfterSave (id body : String) : HookRun Unit :=
  ⟨(), ["after_save:" ++ id], false,
    if body.startsWith "fail-after" then some ("after save failed: " ++ body) else none⟩

def journalAfterLoad {ρ : Type} (id body : String) (loaded : ρ) : HookRun ρ :=
  ⟨loaded, ["after_load:" ++ id], body = "cancel-load",
    if body = "fail-load" then some "after load failed" else none⟩

def journalBeforeDelete (key : String) : HookRun Unit :=
  ⟨(), ["before_delete:" ++ key], key.startsWith "cancel",
    if key.startsWith "locked" then some (key ++ " is locked") else none⟩

def journalAfterDelete (key : String) : HookRun Unit :=
  ⟨(), ["after_delete:" ++ key], false,
    if key.startsWith "sticky" then some ("cannot audit " ++ key) else none⟩

/-! ### The types -/

def user : Model (Dict Cell) :=
  Layout.model
    [("id", .text), ("email", .text), ("age", .int), ("nickname", .optional .text)]
    (declare "User"
      [idKey, (FieldSpec.plain "email" .string).asUnique.required, .plain "age" .integer,
        (FieldSpec.plain "nickname" .string).orNull])
    [] {}

/-- The note before it is saved: one revision further, under another key if it asks for that, and
its body without the spaces around it. -/
def noteBeforeSave (note : Dict Cell) : HookRun (Dict Cell) :=
  let id := textOf note "id"
  let body := textOf note "body"
  let revised :=
    match note.get? "rev" with
    | some (.int rev) => note.insert "rev" (.int (rev + 1))
    | _ => note
  let keyed := if body = "rekey" then revised.insert "id" (.text (id ++ "!")) else revised
  journalBeforeSave id body revised (keyed.insert "body" (.text (trimSpaces body)))

def note : Model (Dict Cell) :=
  Layout.model
    [("id", .text), ("body", .text), ("loaded", .flag), ("rev", .int)]
    (declare "Note"
      [idKey, .plain "body" .string, .plain "loaded" .bool, .plain "rev" .integer])
    Role.all
    { beforeSave := fun _ => noteBeforeSave
      afterSave := fun _ note => journalAfterSave (textOf note "id") (textOf note "body")
      afterLoad := fun _ note =>
        journalAfterLoad (textOf note "id") (textOf note "body") (note.insert "loaded" (.flag true))
      beforeDelete := fun _ => journalBeforeDelete
      afterDelete := fun _ => journalAfterDelete }

def doc : Model (Dict Cell) :=
  Layout.model
    [("id", .text), ("genre", .text), ("year", .int), ("tags", .texts)]
    (declare "Doc"
      [idKey, .plain "genre" .string, .plain "year" .integer, .plain "tags" .composite])
    [] {}

def order : Model (Dict Cell) :=
  Layout.model
    [("id", .int), ("customer", .text), ("total", .real), ("status", .text), ("note", .optional .text)]
    (declare "Order"
      [(FieldSpec.plain "id" .integer).asKey, (FieldSpec.plain "customer" .string).inColumn "customer_id",
        .plain "total" .float, .plain "status" .string, (FieldSpec.plain "note" .string).orNull])
    [] {}

def counter : Model (Dict Cell) :=
  Layout.model
    [("id", .text), ("hits", .nat)]
    { typeName := "Counter", package := "metrics", fields := [idKey, .plain "hits" .integer] }
    [] {}

def full : Model (Dict Cell) :=
  Layout.model
    [("id", .text), ("n", .int), ("u", .nat), ("x", .real), ("on", .flag), ("raw", .bytes),
      ("tags", .texts), ("on_n", .optional .int), ("on_u", .optional .nat), ("on_x", .optional .real),
      ("on_s", .optional .text), ("on_b", .optional .flag), ("on_raw", .optional .bytes),
      ("on_map", .optional .counts)]
    (declare "Full"
      [idKey, .plain "n" .integer, .plain "u" .integer, .plain "x" .float, .plain "on" .bool,
        .plain "raw" .bytes, .plain "tags" .composite, (FieldSpec.plain "on_n" .integer).orNull,
        (FieldSpec.plain "on_u" .integer).orNull, (FieldSpec.plain "on_x" .float).orNull,
        (FieldSpec.plain "on_s" .string).orNull, (FieldSpec.plain "on_b" .bool).orNull,
        (FieldSpec.plain "on_raw" .bytes).orNull, (FieldSpec.plain "on_map" .composite).orNull])
    [] {}

def dyn : Model Value :=
  .dynamic (declare "Dyn" []) [] {}

def dynHooked : Model Value :=
  .dynamic (declare "DynHooked" []) Role.all
    { beforeSave := fun _ v => journalBeforeSave (memberText v "id") (memberText v "body") v v
      afterSave := fun _ v => journalAfterSave (memberText v "id") (memberText v "body")
      afterLoad := fun _ v => journalAfterLoad (memberText v "id") (memberText v "body") v
      beforeDelete := fun _ => journalBeforeDelete
      afterDelete := fun _ => journalAfterDelete }

/-- A type with a hook before saves that its roles leave out. -/
def muted : Model (Dict Cell) :=
  Layout.model [("id", .text)] (declare "Muted" [idKey]) [.afterDelete]
    { beforeSave := fun _ record => ⟨record, [], false, some "never run"⟩
      afterDelete := fun _ => journalAfterDelete }

/-- A type with every role and hooks that do nothing. -/
def lazy : Model (Dict Cell) :=
  Layout.model [("id", .text)] (declare "Lazy" [idKey]) Role.all {}

/-- A type with a type argument, which its name does not show. -/
def wrap : Model (Dict Cell) :=
  Layout.model [("id", .text)] (declare "Wrap<Text>" [idKey]) [] {}

def twoKeys : Model (Dict Cell) :=
  Layout.model [("a", .text), ("b", .text)]
    (declare "TwoKeys" [(FieldSpec.plain "a" .string).asKey, (FieldSpec.plain "b" .string).asKey])
    [] {}

/-- Every type of the catalogue under its name. -/
def all : List (String × RecordType) :=
  [("User", ⟨_, user⟩), ("Note", ⟨_, note⟩), ("Doc", ⟨_, doc⟩), ("Order", ⟨_, order⟩),
    ("Counter", ⟨_, counter⟩), ("Full", ⟨_, full⟩), ("Dyn", ⟨_, dyn⟩), ("DynHooked", ⟨_, dynHooked⟩),
    ("Muted", ⟨_, muted⟩), ("Lazy", ⟨_, lazy⟩), ("Wrap", ⟨_, wrap⟩), ("TwoKeys", ⟨_, twoKeys⟩)]

def find? (name : String) : Option RecordType :=
  all.lookup name

end Catalog

end Depot
