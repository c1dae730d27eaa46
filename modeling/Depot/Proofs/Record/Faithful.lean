import Depot.Proofs.Record.Standard

/-!
# Record types that read what they write

A record type is left to itself in how it reads and writes its records. What a store relies on is that
a legal record is written in the interchange form and comes back from it, exactly or in a normal form
(`Model.Faithful`). Passing through the interchange form again on the way back changes nothing, since
the value is plain already, so the law carries over to what a store does (`Faithful.ofValue_toValue`)
and to what a codec returns (`StandardCodec.decode_bytes`).

Types that take any data are faithful up to the interchange form of the data.
-/

namespace Depot

namespace Value

variable (form : ByteForm)

theorem ofUInt64_of_plain {u : UInt64} (h : (uinteger u).Plain) : ofUInt64 u = uinteger u := by
  rw [ofUInt64_eq_narrowLeaf]
  exact narrowLeaf_of_plain (uinteger u) h

mutual

/-- A plain value is its own interchange form, whatever becomes of bytes. -/
theorem interchange_of_plain : ∀ v : Value, v.Plain → v.interchange form = v
  | array items, h => congrArg array (interchangeItems_of_plain items h)
  | map members, h => congrArg map (interchangeMembers_of_plain members h)
  | uinteger _, h => ofUInt64_of_plain h
  | float x, h => if_pos (show x.isFinite = true from h)
  | null, _ | bool _, _ | integer _, _ | string _, _ => rfl

theorem interchangeItems_of_plain :
    ∀ items : List Value, PlainItems items → interchangeItems form items = items
  | [], _ => rfl
  | v :: rest, h => by
      rw [interchangeItems, interchange_of_plain v h.1, interchangeItems_of_plain rest h.2]

theorem interchangeMembers_of_plain : ∀ members : List (String × Value), PlainMembers members →
    interchangeMembers form members = members
  | [], _ => rfl
  | (k, v) :: rest, h => by
      rw [interchangeMembers, interchange_of_plain v h.1, interchangeMembers_of_plain rest h.2]

end

end Value

namespace Model

variable {ρ : Type} {m : Model ρ}

/-- What a legal record is written as is in the interchange form, and is read as the record in its
normal form. -/
structure Faithful (m : Model ρ) (Legal : ρ → Prop) (normal : ρ → ρ) : Prop where
  isWritten : ∀ record, Legal record → (m.write record).IsWritten
  read?_write : ∀ record, Legal record → m.read? (m.write record) = some (normal record)

/-- A written value is read by the type as it is. -/
theorem ofValue_of_isWritten {v : Value} (written : v.IsWritten) :
    m.ofValue v =
      match m.read? v with
      | some record => .ok record
      | none => .error (.decode .value "the value does not fit the record type") := by
  have same := Value.interchange_of_plain .numbers v written.plain
  exact congrArg (fun v => match m.read? v with
    | some record => Except.ok record
    | none => Except.error (Error.decode .value "the value does not fit the record type")) same

variable {Legal : ρ → Prop} {normal : ρ → ρ}

theorem Faithful.ofValue_toValue (h : m.Faithful Legal normal) {record : ρ} (legal : Legal record) :
    m.ofValue (m.toValue record) = .ok (normal record) := by
  rw [toValue, ofValue_of_isWritten (h.isWritten record legal), h.read?_write record legal]

end Model

namespace StandardCodec

/-- What a codec makes of a value. -/
def bytes (c : StandardCodec) (v : Value) : List UInt8 :=
  match c with
  | json => Text.Utf8.encode (String.ofList (Json.encode v))
  | messagePack => MessagePack.write v

/-- A standard codec takes every value. -/
theorem encode_eq_ok (c : StandardCodec) (v : Value) : c.codec.encode v = .ok (c.bytes v) := by
  cases c <;> rfl

theorem decode_bytes (c : StandardCodec) {v : Value} (written : v.IsWritten) (within : c.Carries v) :
    c.codec.decode (c.bytes v) = .ok v := by
  obtain ⟨bytes, encoded, decoded⟩ := c.decode_encode written within
  rw [c.encode_eq_ok] at encoded
  cases encoded
  exact decoded

end StandardCodec

/-- The bytes that are kept of a record. -/
def Model.bytes {ρ : Type} (m : Model ρ) (c : StandardCodec) (record : ρ) : List UInt8 :=
  c.bytes (m.toValue record)

/-- What a get answers of the bytes that are held, or of none. -/
def Model.retrieve {ρ : Type} (m : Model ρ) (c : StandardCodec) (missing : Error) :
    Option (List UInt8) → Except Error ρ
  | some bytes => do m.ofValue (← c.codec.decode bytes)
  | none => .error missing

/-- What was written within the limits of a codec is recalled as the type reads it. -/
theorem Model.retrieve_bytes {ρ : Type} {m : Model ρ} (c : StandardCodec) (missing : Error) {record : ρ}
    (written : (m.write record).IsWritten) (within : c.Carries (m.toValue record)) :
    m.retrieve c missing (some (m.bytes c record)) = m.ofValue (m.toValue record) := by
  have decoded : c.codec.decode (m.bytes c record) = .ok (m.toValue record) :=
    c.decode_bytes written within
  rw [retrieve, decoded]
  rfl

/-! ### Records without fixed fields -/

/-- A type that takes any data gives it back in its interchange form. -/
theorem Model.faithful_dynamic (declaration : Declaration) (roles : List Role) (hooks : Hooks Value) :
    (dynamic declaration roles hooks).Faithful Value.Ordered (Value.interchange .numbers) where
  isWritten v ordered := Value.isWritten_interchange .numbers v ordered
  read?_write _ _ := rfl

end Depot
