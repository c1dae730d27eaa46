import Depot.Number.Literal
import Depot.Spec.Basic
import Depot.Record.Model
import Depot.Text.Utf8
import Depot.Value.Describe

/-!
# Keys of rows as text

A store of records is addressed by text, a table by the value in its key column. The text is read as
a value of the kind of the key field (`FieldSpec.keyOf`); the other way round, the key cell of a row
has a text under which hooks are told of it (`Row.keyText`).
-/

namespace Depot

/-- The failure of a text that is no key of the kind wanted. -/
def FieldSpec.keyRefusal (f : FieldSpec) (text wanted : String) : Error :=
  .invalidKey ("'" ++ text ++ "' is not a valid " ++ wanted ++ " for key column '" ++ f.column ++ "'")

/-- The value of a kind that a key text denotes. Nested values cannot be keys. -/
def FieldKind.readKey? : FieldKind → String → Option Value
  | string, text => some (.string text)
  | integer, text => (Literal.int? text).bind Value.ofInt?
  | float, text => (Literal.real? text).map .float
  | bool, "true" => some (.bool true)
  | bool, "false" => some (.bool false)
  | bool, _ => none
  | bytes, text => some (.bytes (Text.Utf8.encode text))
  | composite, _ => none

/-- The value that addresses a row by its key field. -/
def FieldSpec.keyOf (f : FieldSpec) (text : String) : Except Error Value := do
  checkKey text
  match f.kind.readKey? text with
  | some v => return v
  | none => .error (f.keyRefusal text (if f.kind = .composite then "scalar" else f.kind.name))

/-- The text of the cell in a key column, empty if the row has none. -/
def Row.keyText (row : Row) (column : String) : String :=
  match row.get? column with
  | some v => v.hookKeyText
  | none => ""

end Depot
