import Depot.Proofs.Number.Rounding
import Depot.Proofs.Record.Layout

/-!
# Records with fixed fields, read from any data

Whatever data a record with fixed fields was read from, it has a cell of the right type for every field,
and its numbers are finite: data on its way between records and stores holds no others, and whole numbers
are far too small to widen to infinity (`Layout.legal_of_read?`).
-/

namespace Depot

theorem List.forall₂_of_mapM_eq_some {α β : Type} {f : α → Option β} : ∀ {xs : List α} {ys : List β},
    xs.mapM f = some ys → List.Forall₂ (fun x y => f x = some y) xs ys
  | [], _, h => by
      cases h
      exact .nil
  | x :: xs, ys, h => by
      rw [List.mapM_cons] at h
      obtain ⟨y, first, h⟩ := Option.bind_eq_some_iff.1 h
      obtain ⟨rest, others, h⟩ := Option.bind_eq_some_iff.1 h
      cases h
      exact .cons first (forall₂_of_mapM_eq_some others)

namespace Value

/-- Interchange data holds no number that is not finite, whole numbers that count as real included. -/
theorem isFinite_of_asFloat? {v : Value} {x : Binary64} (read : (v.interchange .numbers).asFloat? = some x) :
    x.isFinite = true := by
  cases v with
  | integer i =>
      cases read
      exact Binary64.isFinite_ofInt (by have := i.toInt_lt; have := i.le_toInt; omega)
  | uinteger u =>
      rw [interchange, ofUInt64] at read
      split at read
      · cases read
        have low := (Int64.ofInt u.toNat).le_toInt
        have high := (Int64.ofInt u.toNat).toInt_lt
        exact Binary64.isFinite_ofInt (by omega)
      · cases read
        exact Binary64.isFinite_ofInt (by have := u.toNat_lt; omega)
  | float x =>
      rw [interchange] at read
      split at read
      · next finite =>
          cases read
          exact finite
      · cases read
  | _ => cases read

end Value

theorem CellType.holds_absent {type : CellType} (optional : type.isOptional = true) :
    type.Holds .absent := by
  cases type with
  | optional inner => exact .inl rfl
  | _ => cases optional

/-- What a cell is read as is of its type, and finite. -/
theorem CellType.holds_of_read? {v : Value} : ∀ (type : CellType) {cell : Cell},
    type.read? (v.interchange .numbers) = some cell → type.Holds cell ∧ cell.isFinite = true
  | optional inner, cell, read => by
      rw [read?] at read
      split at read
      · cases read
        exact ⟨.inl rfl, rfl⟩
      · obtain ⟨holds, finite⟩ := holds_of_read? inner read
        exact ⟨.inr holds, finite⟩
  | real, cell, read => by
      obtain ⟨x, view, rfl⟩ := Option.map_eq_some_iff.1 read
      exact ⟨trivial, Value.isFinite_of_asFloat? view⟩
  | text, cell, read | flag, cell, read | int, cell, read | nat, cell, read => by
      obtain ⟨_, _, rfl⟩ := Option.map_eq_some_iff.1 read
      exact ⟨trivial, rfl⟩
  | bytes, cell, read | texts, cell, read | counts, cell, read => by
      generalize v.interchange .numbers = w at read
      cases w <;> first
        | cases read
        | obtain ⟨_, _, rfl⟩ := Option.map_eq_some_iff.1 read
          exact ⟨trivial, rfl⟩

namespace Value

variable {form : ByteForm}

theorem interchangeMembers_eq_map (members : List (String × Value)) :
    interchangeMembers form members = members.map fun e => (e.1, e.2.interchange form) := by
  induction members with
  | nil => rfl
  | cons e rest ih => rw [interchangeMembers, ih, List.map_cons]

theorem interchangeItems_eq_map (items : List Value) :
    interchangeItems form items = items.map (interchange form) := by
  induction items with
  | nil => rfl
  | cons v rest ih => rw [interchangeItems, ih, List.map_cons]

end Value

namespace Layout

variable {layout : Layout} {record : Dict Cell} {cells : Entries Cell}

/-- The entry is one for the field, and its numbers are finite. -/
def ReadFor (field : String × CellType) (e : String × Cell) : Prop :=
  e.1 = field.1 ∧ field.2.Holds e.2 ∧ e.2.isFinite = true

theorem readFor_of_readMember? {members : List (String × Value)} {field : String × CellType}
    {e : String × Cell}
    (read : readMember? (Value.interchangeMembers .numbers members) field = some e) :
    ReadFor field e := by
  rw [readMember?, Value.interchangeMembers_eq_map,
    Entries.lookup_map (fun e : String × Value => e.2.interchange .numbers)] at read
  cases held : members.lookup field.1 with
  | none =>
      rw [held] at read
      dsimp only [Option.map_none] at read
      split at read
      · next optional =>
          cases read
          exact ⟨rfl, CellType.holds_absent optional, rfl⟩
      · cases read
  | some v =>
      rw [held] at read
      obtain ⟨cell, found, rfl⟩ := Option.map_eq_some_iff.1 read
      exact ⟨rfl, field.2.holds_of_read? found⟩

theorem readFor_of_readItem? {v : Value} {field : String × CellType} {e : String × Cell}
    (read : readItem? field (v.interchange .numbers) = some e) : ReadFor field e := by
  obtain ⟨cell, found, rfl⟩ := Option.map_eq_some_iff.1 read
  exact ⟨rfl, field.2.holds_of_read? found⟩

theorem legal_ofList (nodup : (layout.map Prod.fst).Nodup)
    (found : List.Forall₂ ReadFor layout cells) :
    Fits layout (.ofList cells) ∧ IsFinite (.ofList cells) := by
  have names := names_eq (found.imp fun _ _ read => read.1)
  have finite : ∀ e ∈ cells, e.2.isFinite = true := by
    clear nodup names
    induction found with
    | nil => simp
    | cons first _ ih => exact List.forall_mem_cons.2 ⟨first.2.2, ih⟩
  exact ⟨fits_ofList nodup (found.imp fun _ _ read => ⟨read.1, read.2.1⟩),
    isFinite_ofList (names ▸ nodup) finite⟩

theorem legal_of_read?_array {items : List Value} (nodup : (layout.map Prod.fst).Nodup)
    (read : layout.read? (.array (items.map (Value.interchange .numbers))) = some record) :
    Fits layout record ∧ IsFinite record := by
  rw [Layout.read?] at read
  split at read
  · next same =>
      obtain ⟨cells, found, rfl⟩ := Option.map_eq_some_iff.1 read
      rw [List.zip_map_right, List.mapM_map] at found
      have whole : (layout.zip items).map Prod.fst = layout := by
        rw [List.length_map] at same
        exact List.map_fst_zip (Nat.le_of_eq same.symm)
      apply legal_ofList nodup
      rw [← whole, List.forall₂_map_left_iff]
      exact (List.forall₂_of_mapM_eq_some found).imp fun _ _ => readFor_of_readItem?
  · cases read

/-- Every record that is read from interchange data fits its layout, and its numbers are finite. -/
theorem legal_of_read? {v : Value} (nodup : (layout.map Prod.fst).Nodup)
    (read : layout.read? (v.interchange .numbers) = some record) :
    Fits layout record ∧ IsFinite record := by
  cases v with
  | map members =>
      obtain ⟨cells, found, rfl⟩ := Option.map_eq_some_iff.1 read
      exact legal_ofList nodup
        ((List.forall₂_of_mapM_eq_some found).imp fun _ _ => readFor_of_readMember?)
  | array items =>
      rw [Value.interchange, Value.interchangeItems_eq_map] at read
      exact legal_of_read?_array nodup read
  | bytes b =>
      -- A byte string is read as the array of its bytes, which are interchange data already.
      have same : (b.map Value.ofByte).map (Value.interchange .numbers) = b.map Value.ofByte := by
        rw [List.map_map]
        rfl
      apply legal_of_read?_array nodup
      rw [same]
      exact read
  | uinteger u =>
      rw [Value.interchange, Value.ofUInt64] at read
      split at read <;> cases read
  | float x =>
      rw [Value.interchange] at read
      split at read <;> cases read
  | _ => cases read

end Layout

end Depot
