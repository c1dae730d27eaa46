import Depot.Value.Basic
import Depot.Number.Decimal
import Depot.Text.Quoted

/-!
# Values in messages

The text by which a message names a value: the kind and the content, containers spelled out. A key
is named more plainly, by its content alone where it has one.
-/

namespace Depot.Value

def bracketed (opening : String) (parts : List String) (closing : String) : String :=
  opening ++ ", ".intercalate parts ++ closing

mutual

/-- The text that names a value in a message. -/
def describe : Value → String
  | null => "Null"
  | bool b => "Bool(" ++ (if b then "true" else "false") ++ ")"
  | integer i => "Integer(" ++ toString i.toInt ++ ")"
  | uinteger u => "UInteger(" ++ toString u.toNat ++ ")"
  | float x => "Float(" ++ Decimal.describe .described x ++ ")"
  | string s => "String(" ++ String.ofList (Text.Quoted.described s) ++ ")"
  | bytes b => bracketed "Bytes([" (b.map fun x => toString x.toNat) "])"
  | array items => bracketed "Array([" (describeItems items) "])"
  | map members => bracketed "Map(\x7b" (describeMembers members) "\x7d)"

def describeItems : List Value → List String
  | [] => []
  | v :: rest => v.describe :: describeItems rest

def describeMembers : List (String × Value) → List String
  | [] => []
  | (k, v) :: rest => (String.ofList (Text.Quoted.described k) ++ ": " ++ v.describe) :: describeMembers rest

end

/-- The text of a key cell in a message about a missing row: texts and whole numbers by their content,
anything else described. -/
def keyText : Value → String
  | string s => s
  | integer i => toString i.toInt
  | uinteger u => toString u.toNat
  | v => v.describe

/-- The text of a key cell that is handed to hooks: every scalar by its content. -/
def hookKeyText : Value → String
  | float x => Decimal.describe .plain x
  | bool b => if b then "true" else "false"
  | v => v.keyText

end Depot.Value
