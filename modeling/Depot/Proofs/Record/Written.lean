import Depot.Proofs.Value.Plain
import Depot.Record.Layout

/-!
# What records are written as

Records are written in the interchange form, so the value of a record is one that JSON can say, with its
members in order (`Value.IsWritten`). Both kinds of record types keep to that, those with fixed fields
(`Layout.isWritten_write`) and those that take any data (`Value.isWritten_interchange`).
-/

namespace Depot

/-- The value is plain and its members are in order. -/
structure Value.IsWritten (v : Value) : Prop where
  plain : v.Plain
  ordered : v.Ordered

namespace Value

theorem plain_ofUInt64 (u : UInt64) : (ofUInt64 u).Plain := by
  rw [ofUInt64_eq_narrowLeaf]
  exact plain_canonical (uinteger u)

theorem plainItems_map {α : Type} {f : α → Value} (h : ∀ a, (f a).Plain) :
    ∀ xs : List α, PlainItems (xs.map f)
  | [] => trivial
  | x :: rest => ⟨h x, plainItems_map h rest⟩

theorem orderedItems_map {α : Type} {f : α → Value} (h : ∀ a, (f a).Ordered) :
    ∀ xs : List α, OrderedItems (xs.map f)
  | [] => trivial
  | x :: rest => ⟨h x, orderedItems_map h rest⟩

theorem plainMembers_map {α : Type} {f : α → Value} (h : ∀ a, (f a).Plain) :
    ∀ entries : Entries α, PlainMembers (entries.map fun e => (e.1, f e.2))
  | [] => trivial
  | e :: rest => ⟨h e.2, plainMembers_map h rest⟩

theorem orderedMembers_map {α : Type} {f : α → Value} (h : ∀ a, (f a).Ordered) :
    ∀ entries : Entries α, OrderedMembers (entries.map fun e => (e.1, f e.2))
  | [] => trivial
  | e :: rest => ⟨h e.2, orderedMembers_map h rest⟩

/-- A map of written values. -/
theorem isWritten_ofDict_map {α : Type} {f : α → Value} (h : ∀ a, (f a).IsWritten) (d : Dict α) :
    (ofDict (d.map f)).IsWritten where
  plain := plainMembers_map (fun a => (h a).plain) d.entries
  ordered := ⟨(d.map f).ordered, orderedMembers_map (fun a => (h a).ordered) d.entries⟩

/-- An array of written values. -/
theorem isWritten_array_map {α : Type} {f : α → Value} (h : ∀ a, (f a).IsWritten) (xs : List α) :
    (array (xs.map f)).IsWritten where
  plain := plainItems_map (fun a => (h a).plain) xs
  ordered := orderedItems_map (fun a => (h a).ordered) xs

end Value

/-! ### Records with fixed fields -/

theorem Cell.isWritten_write : ∀ cell : Cell, cell.write.IsWritten
  | text _ | flag _ | int _ | absent => ⟨trivial, trivial⟩
  | nat u => by
      refine ⟨Value.plain_ofUInt64 u, ?_⟩
      show (Value.ofUInt64 u).Ordered
      rw [Value.ofUInt64]
      split <;> trivial
  | real x => by
      rw [write]
      split
      · next finite => exact ⟨finite, trivial⟩
      · exact ⟨trivial, trivial⟩
  | bytes b => Value.isWritten_array_map (f := Value.ofByte) (fun _ => ⟨trivial, trivial⟩) b
  | texts list => Value.isWritten_array_map (f := .string) (fun _ => ⟨trivial, trivial⟩) list
  | counts dict => Value.isWritten_ofDict_map (f := .integer) (fun _ => ⟨trivial, trivial⟩) dict

theorem Layout.isWritten_write (record : Dict Cell) : (Layout.write record).IsWritten :=
  Value.isWritten_ofDict_map Cell.isWritten_write record

/-! ### Records without fixed fields -/

namespace Value

variable (form : ByteForm)

theorem isWritten_apply (b : List UInt8) : (form.apply b).IsWritten := by
  cases form with
  | base64 => exact ⟨trivial, trivial⟩
  | numbers => exact isWritten_array_map (f := ofByte) (fun _ => ⟨trivial, trivial⟩) b

theorem keys_interchangeMembers (members : List (String × Value)) :
    (interchangeMembers form members).map Prod.fst = members.map Prod.fst := by
  induction members with
  | nil => rfl
  | cons member rest ih =>
      obtain ⟨k, v⟩ := member
      rw [interchangeMembers, List.map_cons, List.map_cons, ih]

mutual

theorem isWritten_interchange : ∀ v : Value, v.Ordered → (v.interchange form).IsWritten
  | array items, h =>
      have written := isWritten_interchangeItems items h
      ⟨written.1, written.2⟩
  | map members, h =>
      have written := isWritten_interchangeMembers members h.2
      ⟨written.1, h.1.of_keys (keys_interchangeMembers form members), written.2⟩
  | uinteger u, _ => Cell.isWritten_write (.nat u)
  | float x, _ => Cell.isWritten_write (.real x)
  | bytes b, _ => isWritten_apply form b
  | null, _ | bool _, _ | integer _, _ | string _, _ => ⟨trivial, trivial⟩

theorem isWritten_interchangeItems : ∀ items : List Value, OrderedItems items →
    PlainItems (interchangeItems form items) ∧ OrderedItems (interchangeItems form items)
  | [], _ => ⟨trivial, trivial⟩
  | v :: rest, h =>
      have first := isWritten_interchange v h.1
      have others := isWritten_interchangeItems rest h.2
      ⟨⟨first.plain, others.1⟩, first.ordered, others.2⟩

theorem isWritten_interchangeMembers : ∀ members : List (String × Value), OrderedMembers members →
    PlainMembers (interchangeMembers form members) ∧ OrderedMembers (interchangeMembers form members)
  | [], _ => ⟨trivial, trivial⟩
  | (_, v) :: rest, h =>
      have first := isWritten_interchange v h.1
      have others := isWritten_interchangeMembers rest h.2
      ⟨⟨first.plain, others.1⟩, first.ordered, others.2⟩

end

end Value

end Depot
