import Depot.Number.Binary64
import Depot.Spec.Basic
import Depot.Value.Basic

/-!
# Atoms

An `Atom` is a record without its type: the fields sorted into partitions by kind, under their
declared names. Fields that may lack a value have partitions of their own, in which an entry without
a value stands for a field that is unset.

An atom is made from the map that a record is written as, and that map is put together again from
it; both directions are led by the spec of the record type. Making an atom fails with `encode`,
reading one with `decode`.
-/

namespace Depot

/-- The fields of a record, in partitions by kind. -/
structure Atom where
  typeName : String
  ints : Dict Int64 := .empty
  /-- Integer fields with numbers above the range of `ints`. -/
  uints : Dict UInt64 := .empty
  floats : Dict Binary64 := .empty
  strings : Dict String := .empty
  bools : Dict Bool := .empty
  bytes : Dict (List UInt8) := .empty
  composites : Dict Value := .empty
  nullableInts : Dict (Option Int64) := .empty
  nullableUInts : Dict (Option UInt64) := .empty
  nullableFloats : Dict (Option Binary64) := .empty
  nullableStrings : Dict (Option String) := .empty
  nullableBools : Dict (Option Bool) := .empty
  nullableBytes : Dict (Option (List UInt8)) := .empty
  nullableComposites : Dict (Option Value) := .empty

namespace Atom

def ofType (typeName : String) : Atom := { typeName }

/-- The names of the partitions in their order, each with the names of its fields. -/
def partitions (a : Atom) : List (String × List String) :=
  [("ints", a.ints.keys), ("uints", a.uints.keys), ("floats", a.floats.keys),
    ("strings", a.strings.keys), ("bools", a.bools.keys), ("bytes", a.bytes.keys),
    ("composites", a.composites.keys), ("int_ptrs", a.nullableInts.keys),
    ("uint_ptrs", a.nullableUInts.keys), ("float_ptrs", a.nullableFloats.keys),
    ("string_ptrs", a.nullableStrings.keys), ("bool_ptrs", a.nullableBools.keys),
    ("bytes_ptrs", a.nullableBytes.keys), ("composite_ptrs", a.nullableComposites.keys)]

/-- The names of all fields in order, a name once for every partition that has it. -/
def fieldNames (a : Atom) : List String :=
  (a.partitions.flatMap Prod.snd).mergeSort fun x y => decide (x ≤ y)

def size (a : Atom) : Nat := a.fieldNames.length

def isEmpty (a : Atom) : Bool := a.size == 0

def partitionOf? (a : Atom) (name : String) : Option String :=
  (a.partitions.find? fun p => p.2.contains name).map Prod.fst

def contains (a : Atom) (name : String) : Bool :=
  (a.partitionOf? name).isSome

/-! ### Setting fields -/

def setInt (a : Atom) (name : String) (i : Int64) : Atom :=
  { a with ints := a.ints.insert name i }

def setUInt (a : Atom) (name : String) (u : UInt64) : Atom :=
  { a with uints := a.uints.insert name u }

def setFloat (a : Atom) (name : String) (x : Binary64) : Atom :=
  { a with floats := a.floats.insert name x }

def setString (a : Atom) (name : String) (s : String) : Atom :=
  { a with strings := a.strings.insert name s }

def setBool (a : Atom) (name : String) (b : Bool) : Atom :=
  { a with bools := a.bools.insert name b }

def setBytes (a : Atom) (name : String) (b : List UInt8) : Atom :=
  { a with bytes := a.bytes.insert name b }

def setComposite (a : Atom) (name : String) (v : Value) : Atom :=
  { a with composites := a.composites.insert name v }

def setNullableInt (a : Atom) (name : String) (i : Option Int64) : Atom :=
  { a with nullableInts := a.nullableInts.insert name i }

def setNullableUInt (a : Atom) (name : String) (u : Option UInt64) : Atom :=
  { a with nullableUInts := a.nullableUInts.insert name u }

def setNullableFloat (a : Atom) (name : String) (x : Option Binary64) : Atom :=
  { a with nullableFloats := a.nullableFloats.insert name x }

def setNullableString (a : Atom) (name : String) (s : Option String) : Atom :=
  { a with nullableStrings := a.nullableStrings.insert name s }

def setNullableBool (a : Atom) (name : String) (b : Option Bool) : Atom :=
  { a with nullableBools := a.nullableBools.insert name b }

def setNullableBytes (a : Atom) (name : String) (b : Option (List UInt8)) : Atom :=
  { a with nullableBytes := a.nullableBytes.insert name b }

def setNullableComposite (a : Atom) (name : String) (v : Option Value) : Atom :=
  { a with nullableComposites := a.nullableComposites.insert name v }

/-! ### From a value -/

/-- A byte, if a value is a whole number that is one. -/
def byteOf? (v : Value) : Option UInt8 :=
  match v.asInt64? with
  | some i => if 0 ≤ i.toInt ∧ i.toInt < 256 then some (.ofNat i.toInt.toNat) else none
  | none => none

/-- The bytes of a byte string, or of an array of bytes. -/
def bytesOf? : Value → Option (List UInt8)
  | .bytes b => some b
  | .array items => items.mapM byteOf?
  | _ => none

def kindMismatch (field : FieldSpec) (v : Value) : Error :=
  .encode .value ("field '" ++ field.name ++ "' is declared " ++ field.kind.name ++ " but holds " ++
    v.kindName)

def insertUnset (a : Atom) (field : FieldSpec) : Atom :=
  match field.kind with
  | .integer => a.setNullableInt field.name none
  | .float => a.setNullableFloat field.name none
  | .string => a.setNullableString field.name none
  | .bool => a.setNullableBool field.name none
  | .bytes => a.setNullableBytes field.name none
  | .composite => a.setNullableComposite field.name none

/-- The atom with the value of a field, in the partition of the field's kind. -/
def insertValue (a : Atom) (field : FieldSpec) (v : Value) : Except Error Atom :=
  let name := field.name
  match field.kind with
  | .integer =>
    match v with
    | .integer i => .ok (if field.nullable then a.setNullableInt name (some i) else a.setInt name i)
    | .uinteger u => .ok (if field.nullable then a.setNullableUInt name (some u) else a.setUInt name u)
    | v => .error (kindMismatch field v)
  | .float =>
    match v.asFloat? with
    | some x => .ok (if field.nullable then a.setNullableFloat name (some x) else a.setFloat name x)
    | none => .error (kindMismatch field v)
  | .string =>
    match v.asString? with
    | some s => .ok (if field.nullable then a.setNullableString name (some s) else a.setString name s)
    | none => .error (kindMismatch field v)
  | .bool =>
    match v.asBool? with
    | some b => .ok (if field.nullable then a.setNullableBool name (some b) else a.setBool name b)
    | none => .error (kindMismatch field v)
  | .bytes =>
    match bytesOf? v with
    | some b => .ok (if field.nullable then a.setNullableBytes name (some b) else a.setBytes name b)
    | none => .error (kindMismatch field v)
  | .composite =>
    .ok (if field.nullable then a.setNullableComposite name (some v) else a.setComposite name v)

def insertMember (members : List (String × Value)) (a : Atom) (field : FieldSpec) : Except Error Atom :=
  match members.lookup field.name with
  | none | some .null =>
    if field.nullable then .ok (a.insertUnset field)
    else .error (.encode .value ("non-nullable field '" ++ field.name ++ "' has no value"))
  | some v => a.insertValue field v

/-- The members of the map that a record is written as, all of them declared. -/
def recordMembers (spec : Spec) (v : Value) : Except Error (List (String × Value)) :=
  match v with
  | .map members =>
    match members.find? fun m => !spec.declares m.1 with
    | some (name, _) =>
      .error (.encode .value ("field '" ++ name ++ "' is not declared by " ++ spec.typeName))
    | none => .ok members
  | v =>
    .error (.encode .value (spec.typeName ++ " serialized to " ++ v.kindName ++ ", expected a map"))

def ofValue (spec : Spec) (v : Value) : Except Error Atom := do
  let members ← recordMembers spec v
  spec.fields.foldlM (insertMember members) (ofType spec.typeName)

/-! ### To a value -/

/-- Bytes as a value: an array of whole numbers, which is how records write them. -/
def bytesValue (b : List UInt8) : Value :=
  .array (b.map Value.ofByte)

def orNull : Option Value → Value
  | some v => v
  | none => .null

/-- The value of a field in the partitions that its spec names. -/
def lookup? (a : Atom) (field : FieldSpec) : Option Value :=
  let name := field.name
  if field.nullable then
    match field.kind with
    | .integer =>
      match a.nullableInts.get? name, a.nullableUInts.get? name with
      | some (some i), _ => some (.integer i)
      | _, some (some u) => some (.uinteger u)
      | none, none => none
      | _, _ => some .null
    | .float => (a.nullableFloats.get? name).map fun x => orNull (x.map .float)
    | .string => (a.nullableStrings.get? name).map fun s => orNull (s.map .string)
    | .bool => (a.nullableBools.get? name).map fun b => orNull (b.map .bool)
    | .bytes => (a.nullableBytes.get? name).map fun b => orNull (b.map bytesValue)
    | .composite => (a.nullableComposites.get? name).map orNull
  else
    match field.kind with
    | .integer =>
      match a.ints.get? name with
      | some i => some (.integer i)
      | none => (a.uints.get? name).map .uinteger
    | .float => (a.floats.get? name).map .float
    | .string => (a.strings.get? name).map .string
    | .bool => (a.bools.get? name).map .bool
    | .bytes => (a.bytes.get? name).map bytesValue
    | .composite => a.composites.get? name

/-- The value of a field, or why there is none. -/
def fieldValue (a : Atom) (field : FieldSpec) : Except Error Value :=
  match a.lookup? field with
  | some v => .ok v
  | none =>
    match a.partitionOf? field.name with
    | none =>
      if field.nullable then .ok .null
      else .error (.decode .value ("non-nullable field '" ++ field.name ++ "' is absent"))
    | some partition =>
      .error (.decode .value ("field '" ++ field.name ++ "' is in the " ++ partition ++
        " partition, expected " ++ (if field.nullable then "nullable " else "") ++ field.kind.name))

def toValue (a : Atom) (spec : Spec) : Except Error Value :=
  match a.fieldNames.find? fun name => !spec.declares name with
  | some name =>
    .error (.decode .value ("field '" ++ name ++ "' is not declared by " ++ spec.typeName))
  | none => do
    let members ← spec.fields.mapM fun field => do return (field.name, ← a.fieldValue field)
    return .ofDict (.ofList members)

end Atom

end Depot
