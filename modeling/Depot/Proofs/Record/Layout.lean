import Depot.Proofs.Fallible
import Depot.Proofs.Dict.Lookup
import Depot.Proofs.Record.Faithful
import Mathlib.Data.List.Forall2
import Mathlib.Data.UInt

/-!
# Records with fixed fields, written and read

A record fits a layout if it has a cell of the right type for every field and no others. Every cell but
one that holds a number that is not finite is read from what it is written as; such a number is written
as null, which an optional field takes for absent and any other field refuses (`CellType.read?_write`).
So the record comes back exactly if its required numbers are finite, without its optional ones that are
not (`Layout.read?_write`), and a layout is faithful to the records all of whose numbers are finite
(`Layout.faithful_model`).
-/

namespace Depot

/-! ### Cells -/

/-- The cell is one that a field of the type can hold. -/
def CellType.Holds : CellType → Cell → Prop
  | text, .text _ | flag, .flag _ | int, .int _ | nat, .nat _ | real, .real _ | bytes, .bytes _
  | texts, .texts _ | counts, .counts _ => True
  | optional inner, cell => cell = .absent ∨ inner.Holds cell
  | _, _ => False

namespace Cell

/-- The cell can be written: it is no number that is not finite. -/
def isFinite : Cell → Bool
  | real x => x.isFinite
  | _ => true

/-- The cell that is read back where a number that is not finite counts as absent. -/
def settled (cell : Cell) : Cell :=
  if cell.isFinite then cell else absent

theorem settled_of_isFinite {cell : Cell} (h : cell.isFinite = true) : cell.settled = cell := if_pos h

/-- Nothing but a content that is not there, or that cannot be written, is written as null. -/
theorem isNull_write_iff {cell : Cell} :
    cell.write.isNull = true ↔ cell = absent ∨ cell.isFinite = false := by
  cases cell with
  | nat u =>
      rw [write, Value.ofUInt64]
      split <;> simp [isFinite, Value.isNull]
  | real x =>
      rw [write, isFinite]
      cases x.isFinite <;> simp [Value.isNull]
  | _ => simp [write, isFinite, Value.isNull, Value.ofDict]

end Cell

namespace Value

theorem asUInt64?_ofUInt64 (u : UInt64) : (ofUInt64 u).asUInt64? = some u := by
  rw [ofUInt64]
  split
  · next small =>
      have whole : (Int64.ofInt u.toNat).toInt = u.toNat := by
        apply Int64.toInt_ofInt_of_le <;> simp only [integerMax] at small <;> omega
      rw [asUInt64?, whole, if_pos (Int.natCast_nonneg _), Int.toNat_natCast]
      exact congrArg some (UInt64.ofNat_toNat)
  · rfl

theorem byteOf?_ofByte (b : UInt8) : Atom.byteOf? (ofByte b) = some b := by
  have range := b.toNat_lt
  have whole : (Int64.ofInt b.toNat).toInt = b.toNat := by
    apply Int64.toInt_ofInt_of_le <;> omega
  rw [Atom.byteOf?, ofByte]
  simp only [asInt64?, whole]
  rw [if_pos ⟨Int.natCast_nonneg _, by omega⟩, Int.toNat_natCast]
  exact congrArg some (UInt8.ofNat_toNat)

end Value

/-- What every element is read from, the list is. -/
theorem List.mapM_map_some {α β : Type} {f : β → Option α} {g : α → β}
    (h : ∀ a, f (g a) = some a) (xs : List α) : (xs.map g).mapM f = some xs := by
  induction xs with
  | nil => rfl
  | cons x xs ih => simp [h, ih]

theorem List.isSome_mapM_iff {α β : Type} {f : α → Option β} {xs : List α} :
    (xs.mapM f).isSome ↔ ∀ x ∈ xs, (f x).isSome := by
  induction xs with
  | nil => simp
  | cons x xs ih =>
      rw [List.forall_mem_cons, ← ih, List.mapM_cons]
      cases f x <;> cases xs.mapM f <;> simp

/-- A dictionary is made of its own entries. -/
theorem Dict.ofList_entries {α : Type} (d : Dict α) : ofList d.entries = d :=
  ext_get? fun key => get?_ofList d.ordered.nodup key

namespace CellType

theorem readCounts?_write (counts : Dict Int64) :
    readCounts? (counts.map Value.integer).entries = some counts := by
  have read : (counts.map Value.integer).entries.mapM
      (fun e : String × Value => e.2.asInt64?.map fun i => (e.1, i)) = some counts.entries :=
    List.mapM_map_some (g := fun e : String × Int64 => (e.1, Value.integer e.2))
      (fun _ => rfl) counts.entries
  show ((counts.map Value.integer).entries.mapM
    fun e : String × Value => e.2.asInt64?.map fun i => (e.1, i)).bind
      (fun counts => some (Dict.ofList counts)) = _
  rw [read, Option.bind_some, Dict.ofList_entries]

/-- A cell is read from what it is written as, unless it is a number that is not finite; that is read
as absent if the field is optional and refused otherwise. -/
theorem read?_write : ∀ (type : CellType) {cell : Cell}, type.Holds cell →
    type.read? cell.write =
      if cell.isFinite = true ∨ type.isOptional = true then some cell.settled else none
  | optional inner, cell, holds => by
      rw [if_pos (.inr rfl), read?]
      cases null : cell.write.isNull with
      | true =>
          rcases Cell.isNull_write_iff.1 null with rfl | infinite
          · rfl
          · simp [Cell.settled, infinite]
      | false =>
          have present : ¬ (cell = .absent ∨ cell.isFinite = false) := by
            rw [← Cell.isNull_write_iff, null]
            exact Bool.false_ne_true
          rw [not_or, Bool.not_eq_false] at present
          rw [if_neg Bool.false_ne_true, read?_write inner (holds.resolve_left present.1),
            if_pos (.inl present.2)]
  | text, .text _, _ | flag, .flag _, _ | int, .int _, _ => rfl
  | nat, .nat u, _ => by
      simp [read?, Cell.write, Value.asUInt64?_ofUInt64, Cell.isFinite, Cell.settled]
  | real, .real x, _ => by
      rw [Cell.write, Cell.settled, Cell.isFinite]
      cases finite : x.isFinite with
      | true => rfl
      | false => rfl
  | bytes, .bytes b, _ => by
      simp [read?, Cell.write, List.mapM_map_some Value.byteOf?_ofByte, Cell.isFinite, Cell.settled]
  | texts, .texts list, _ => by
      have read : (list.map Value.string).mapM Value.asString? = some list :=
        List.mapM_map_some (f := Value.asString?) (g := Value.string) (fun _ => rfl) list
      simp [read?, Cell.write, read, Cell.isFinite, Cell.settled]
  | counts, .counts dict, _ => by
      have read := readCounts?_write dict
      simp [read?, Cell.write, Value.ofDict, read, Cell.isFinite, Cell.settled]

end CellType

/-! ### Records -/

namespace Layout

/-- The record has a cell for every field of the layout, and no others. -/
structure Fits (layout : Layout) (record : Dict Cell) : Prop where
  holds : ∀ field ∈ layout, ∃ cell, record.get? field.1 = some cell ∧ field.2.Holds cell
  named : ∀ name cell, record.get? name = some cell → name ∈ layout.map Prod.fst

theorem names_eq {layout : Layout} {cells : Entries Cell}
    (named : List.Forall₂ (fun field e => e.1 = field.1) layout cells) :
    cells.map Prod.fst = layout.map Prod.fst := by
  induction named with
  | nil => rfl
  | cons first _ ih => rw [List.map_cons, List.map_cons, first, ih]

/-- A record that is listed cell by cell fits. -/
theorem fits_ofList {layout : Layout} {cells : Entries Cell} (nodup : (layout.map Prod.fst).Nodup)
    (listed : List.Forall₂ (fun field e => e.1 = field.1 ∧ field.2.Holds e.2) layout cells) :
    Fits layout (.ofList cells) := by
  have names := names_eq (listed.imp fun _ _ same => same.1)
  have distinct := names ▸ nodup
  constructor
  · intro field mem
    obtain ⟨i, lt, rfl⟩ := List.mem_iff_getElem.1 mem
    have also : i < cells.length := listed.length_eq ▸ lt
    obtain ⟨named, holds⟩ := listed.get lt also
    refine ⟨cells[i].2, ?_, holds⟩
    rw [Dict.get?_ofList distinct, ← show cells[i].1 = layout[i].1 from named]
    exact Entries.lookup_of_mem_of_nodup distinct (List.getElem_mem also)
  · intro name cell held
    rw [Dict.get?_ofList distinct] at held
    rw [← names]
    exact List.mem_map_of_mem (Entries.mem_of_lookup held)

/-- Every number that the record has to have is finite. -/
def Expressible (layout : Layout) (record : Dict Cell) : Prop :=
  ∀ field ∈ layout, ∀ cell, record.get? field.1 = some cell →
    cell.isFinite = true ∨ field.2.isOptional = true

instance (layout : Layout) (record : Dict Cell) : Decidable (Expressible layout record) :=
  decidable_of_iff (∀ field ∈ layout, ∀ cell ∈ record.get? field.1,
    cell.isFinite = true ∨ field.2.isOptional = true) Iff.rfl

/-- The record with its numbers that are not finite taken for absent. -/
def settled (record : Dict Cell) : Dict Cell := record.map Cell.settled

/-- All numbers of the record are finite. -/
def IsFinite (record : Dict Cell) : Prop :=
  ∀ name cell, record.get? name = some cell → cell.isFinite = true

theorem isFinite_ofList {cells : Entries Cell} (nodup : (cells.map Prod.fst).Nodup)
    (finite : ∀ e ∈ cells, e.2.isFinite = true) : IsFinite (.ofList cells) := by
  intro name cell held
  rw [Dict.get?_ofList nodup] at held
  exact finite _ (Entries.mem_of_lookup held)

theorem settled_eq_iff {record : Dict Cell} : settled record = record ↔ IsFinite record := by
  constructor
  · intro same name cell held
    cases finite : cell.isFinite with
    | true => rfl
    | false =>
        have settledHeld := Dict.get?_map record Cell.settled name
        have lost : cell.settled = .absent := by simp [Cell.settled, finite]
        rw [show record.map Cell.settled = record from same, held, Option.map_some, lost,
          Option.some.injEq] at settledHeld
        rw [settledHeld] at finite
        cases finite
  · intro finite
    apply Dict.ext_get?
    intro name
    rw [settled, Dict.get?_map]
    cases held : record.get? name with
    | none => rfl
    | some cell => rw [Option.map_some, Cell.settled_of_isFinite (finite name cell held)]

variable {layout : Layout} {record : Dict Cell}

theorem lookup_write (record : Dict Cell) (name : String) :
    (record.map Cell.write).entries.lookup name = (record.get? name).map Cell.write :=
  Dict.get?_map record Cell.write name

theorem readMember?_write {field : String × CellType} {cell : Cell}
    (held : record.get? field.1 = some cell) (holds : field.2.Holds cell) :
    readMember? (record.map Cell.write).entries field =
      if cell.isFinite = true ∨ field.2.isOptional = true then some (field.1, cell.settled)
      else none := by
  rw [readMember?, lookup_write, held, Option.map_some]
  dsimp only
  rw [CellType.read?_write field.2 holds]
  split <;> rfl

/-- The members of an expressible record are read one by one. -/
theorem mapM_readMember? : ∀ fields : Layout,
    (∀ field ∈ fields, ∃ cell, record.get? field.1 = some cell ∧ field.2.Holds cell) →
      Expressible fields record →
        ∃ cells, fields.mapM (readMember? (record.map Cell.write).entries) = some cells ∧
          cells.map Prod.fst = fields.map Prod.fst ∧
            ∀ e ∈ cells, (record.get? e.1).map Cell.settled = some e.2
  | [], _, _ => ⟨[], rfl, rfl, by simp⟩
  | field :: rest, holds, expressible => by
      obtain ⟨cell, held, holdsCell⟩ := holds field (by simp)
      have read := readMember?_write held holdsCell
      rw [if_pos (expressible field (by simp) cell held)] at read
      obtain ⟨cells, others, names, found⟩ :=
        mapM_readMember? rest (fun f mem => holds f (by simp [mem]))
          fun f mem => expressible f (by simp [mem])
      refine ⟨(field.1, cell.settled) :: cells, by simp [read, others], by simp [names], ?_⟩
      rw [List.forall_mem_cons]
      exact ⟨by rw [held]; rfl, found⟩

/-- A record that is not expressible is refused at a number it has to have. -/
theorem mapM_readMember?_eq_none : ∀ fields : Layout,
    (∀ field ∈ fields, ∃ cell, record.get? field.1 = some cell ∧ field.2.Holds cell) →
      ¬ Expressible fields record →
        fields.mapM (readMember? (record.map Cell.write).entries) = none
  | [], _, refused => absurd (fun _ mem => absurd mem List.not_mem_nil) refused
  | field :: rest, holds, refused => by
      obtain ⟨cell, held, holdsCell⟩ := holds field (by simp)
      have read := readMember?_write held holdsCell
      by_cases first : cell.isFinite = true ∨ field.2.isOptional = true
      · have later : ¬ Expressible rest record := by
          intro expressible
          apply refused
          rw [Expressible, List.forall_mem_cons]
          refine ⟨fun other same => ?_, expressible⟩
          rw [held, Option.some.injEq] at same
          exact same ▸ first
        simp [mapM_readMember?_eq_none rest (fun f mem => holds f (by simp [mem])) later]
      · rw [if_neg first] at read
        simp [read]

/-- The record of a layout with distinct names is read from what it is written as exactly if the numbers
it has to have are finite; what comes back is the record without the optional ones that are not. -/
theorem read?_write (nodup : (layout.map Prod.fst).Nodup) (fits : Fits layout record) :
    layout.read? (write record) =
      if Expressible layout record then some (settled record) else none := by
  show (layout.mapM (readMember? (record.map Cell.write).entries)).map Dict.ofList = _
  split
  · next expressible =>
      obtain ⟨cells, read, names, found⟩ := mapM_readMember? layout fits.holds expressible
      rw [read, Option.map_some, Option.some.injEq]
      apply Dict.ext_get?
      intro name
      rw [Dict.get?_ofList (names ▸ nodup), settled, Dict.get?_map]
      cases held : cells.lookup name with
      | some cell => exact (found _ (Entries.mem_of_lookup held)).symm
      | none =>
          cases kept : record.get? name with
          | none => rfl
          | some cell =>
              have named : name ∈ cells.map Prod.fst := names ▸ fits.named name cell kept
              obtain ⟨e, mem, rfl⟩ := List.mem_map.1 named
              rw [Entries.lookup_of_mem_of_nodup (names ▸ nodup) mem] at held
              cases held
  · next refused => rw [mapM_readMember?_eq_none layout fits.holds refused, Option.map_none]

/-- A layout with distinct names is faithful to the records that fit it and whose numbers are finite. -/
theorem faithful_model (nodup : (layout.map Prod.fst).Nodup) (declaration : Declaration)
    (roles : List Role) (hooks : Hooks (Dict Cell)) :
    (layout.model declaration roles hooks).Faithful
      (fun record => Fits layout record ∧ IsFinite record) id where
  isWritten record _ := isWritten_write record
  read?_write record legal := by
    have expressible : Expressible layout record :=
      fun _ _ cell held => .inl (legal.2 _ cell held)
    show layout.read? (write record) = _
    rw [read?_write nodup legal.1, if_pos expressible, settled_eq_iff.2 legal.2]
    rfl

end Layout

end Depot
