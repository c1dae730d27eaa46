import Depot.Dict
import Depot.Record.Model

/-!
# Records with fixed fields

The usual record type has a list of fields, each with a type: a `Layout`. Its records hold a cell
for every field. They are written as a map of all fields and read from such a map, in which unknown
members are ignored and members of optional fields may be missing, or from an array that holds
exactly the fields in order.
-/

namespace Depot

inductive CellType
  | text
  | flag
  /-- A whole number with a sign. -/
  | int
  /-- A whole number without a sign. -/
  | nat
  | real
  | bytes
  | texts
  /-- Whole numbers under names. -/
  | counts
  | optional (inner : CellType)
deriving DecidableEq

inductive Cell
  | text (s : String)
  | flag (b : Bool)
  | int (i : Int64)
  | nat (u : UInt64)
  | real (x : Binary64)
  | bytes (b : List UInt8)
  | texts (list : List String)
  | counts (dict : Dict Int64)
  /-- An optional field without a content. -/
  | absent

namespace CellType

/-- Whether a record may do without the field. -/
def isOptional : CellType → Bool
  | optional _ => true
  | _ => false

/-- Whole numbers under names. -/
def readCounts? (members : List (String × Value)) : Option (Dict Int64) := do
  let counts ← members.mapM fun (k, v) => v.asInt64?.map fun i => (k, i)
  return .ofList counts

/-- The content that interchange data stands for. A whole number widens to a real one, but a real
number is never read as a whole one. -/
def read? : CellType → Value → Option Cell
  | text, v => v.asString?.map .text
  | flag, v => v.asBool?.map .flag
  | int, v => v.asInt64?.map .int
  | nat, v => v.asUInt64?.map .nat
  | real, v => v.asFloat?.map .real
  | bytes, .array items => (items.mapM Atom.byteOf?).map .bytes
  | texts, .array items => (items.mapM Value.asString?).map .texts
  | counts, .map members => (readCounts? members).map .counts
  | optional inner, v => if v.isNull then some .absent else inner.read? v
  | _, _ => none

end CellType

/-- The interchange data of a content. Numbers that are not finite have none and become null. -/
def Cell.write : Cell → Value
  | text s => .string s
  | flag b => .bool b
  | int i => .integer i
  | nat u => .ofUInt64 u
  | real x => if x.isFinite then .float x else .null
  | bytes b => .array (b.map Value.ofByte)
  | texts list => .array (list.map .string)
  | counts dict => .ofDict (dict.map .integer)
  | absent => .null

/-- The fields of a record type, in order. -/
abbrev Layout := List (String × CellType)

namespace Layout

def readMember? (members : List (String × Value)) (field : String × CellType) :
    Option (String × Cell) :=
  match members.lookup field.1 with
  | some v => (field.2.read? v).map fun cell => (field.1, cell)
  | none => if field.2.isOptional then some (field.1, .absent) else none

/-- The content of a field at its place in an array. -/
def readItem? (field : String × CellType) (v : Value) : Option (String × Cell) :=
  (field.2.read? v).map fun cell => (field.1, cell)

/-- The record that interchange data stands for. -/
def read? (layout : Layout) : Value → Option (Dict Cell)
  | .map members => (layout.mapM (readMember? members)).map .ofList
  | .array items =>
    if items.length = layout.length then
      ((layout.zip items).mapM fun (field, v) => readItem? field v).map .ofList
    else none
  | _ => none

/-- The interchange data of a record. -/
def write (record : Dict Cell) : Value :=
  .ofDict (record.map Cell.write)

/-- The record type of a layout. -/
def model (layout : Layout) (declaration : Declaration) (roles : List Role) (hooks : Hooks (Dict Cell)) :
    Model (Dict Cell) where
  declaration
  roles
  read? := layout.read?
  write := write
  hooks

end Layout

/-- The record type that takes any interchange data as it is. -/
def Model.dynamic (declaration : Declaration) (roles : List Role) (hooks : Hooks Value) :
    Model Value where
  declaration
  roles
  read? v := some v
  write v := v.interchange .numbers
  hooks

end Depot
