import Depot.Proofs.Record.Layout
import Depot.Proofs.Record.Row
import Depot.Record.Catalog

/-!
# Records that a spec describes

A spec is a declaration beside the record type, so nothing makes the two agree. Where they do, a record
is written as a map of the declared fields, each with a content of its kind or with null
(`Spec.Describes`). Such a map is put together again from the contents of the declared fields, in
whatever order and under whatever columns they were kept (`Spec.Describes.eq_ofDict`). A spec that gives
a field a value in every record must not meet a null there (`FilledBy`).

The records of a layout are described by each spec that lists its fields with their kinds
(`Spec.Lists.describes`).
-/

namespace Depot

/-- The content is of the kind. Bytes are written as an array of whole numbers, and anything may be
nested. -/
def FieldKind.Takes : FieldKind → Value → Prop
  | integer, .integer _ | integer, .uinteger _ | float, .float _ | string, .string _
  | bool, .bool _ => True
  | bytes, v => ∃ b, v = Atom.bytesValue b
  | composite, _ => True
  | _, _ => False

/-- The value is a map of exactly the declared fields, each null or of its kind. -/
structure Spec.Describes (spec : Spec) (v : Value) : Prop where
  isMap : ∃ members, v = .map members ∧ Entries.Ordered members
  names : ∀ name, (v.field? name).isSome = true ↔ spec.declares name = true
  kinds : ∀ f ∈ spec.fields, (v.content f.name).isNull = false → f.kind.Takes (v.content f.name)

/-- Every field that must have a value has one. -/
def FilledBy (spec : Spec) (v : Value) : Prop :=
  ∀ f ∈ spec.fields, f.nullable = false → (v.content f.name).isNull = false

/-- What a plain value holds in its fields is plain. -/
theorem Value.plain_content {v : Value} (plain : v.Plain) (field : String) : (v.content field).Plain := by
  have found : ∀ members : List (String × Value), PlainMembers members →
      ((members.lookup field).getD .null).Plain := by
    intro members plain
    induction members with
    | nil => trivial
    | cons member rest ih =>
        obtain ⟨name, held⟩ := member
        rw [List.lookup_cons]
        split
        · exact plain.1
        · exact ih plain.2
  cases v with
  | map members => exact found members plain
  | _ => trivial

theorem Spec.declares_iff {spec : Spec} {name : String} :
    spec.declares name = true ↔ name ∈ spec.fields.map FieldSpec.name := by
  rw [declares, field?, List.find?_isSome, List.mem_map]
  simp only [beq_iff_eq]

theorem Spec.isSome_field?_recordOf_iff {spec : Spec} (content : FieldSpec → Value) {name : String} :
    ((spec.recordOf content).field? name).isSome ↔ spec.declares name = true := by
  rw [field?_recordOf, List.lookup_isSome_iff, declares_iff, ← spec.names_recordOf content, List.mem_map]
  exact exists_congr fun e => and_congr_right fun _ => by rw [beq_iff_eq, eq_comm]

namespace Spec.Describes

variable {spec : Spec} {v : Value}

theorem declaredBy (h : spec.Describes v) : DeclaredBy spec v := by
  obtain ⟨members, rfl, _⟩ := h.isMap
  refine ⟨members, rfl, fun m mem => (h.names m.1).1 ?_⟩
  exact List.lookup_isSome_iff.2 ⟨m, mem, beq_self_eq_true _⟩

/-- The contents of the declared fields make up the whole value. -/
theorem eq_ofDict (h : spec.Describes v) :
    Value.ofDict (.ofList (spec.fields.map fun f => (f.name, v.content f.name))) = v := by
  obtain ⟨members, rfl, ordered⟩ := h.isMap
  have same : Dict.ofList (spec.fields.map fun f => (f.name, (Value.map members).content f.name)) =
      ⟨members, ordered⟩ := by
    apply Dict.ext_get?
    intro name
    have named := h.names name
    by_cases declared : spec.declares name = true
    · obtain ⟨f, mem, rfl⟩ := List.mem_map.1 (declares_iff.1 declared)
      obtain ⟨held, found⟩ := Option.isSome_iff_exists.1 (named.2 declared)
      refine (spec.lookup_recordOf _ mem).trans (.trans ?_ found.symm)
      rw [Value.content, found, Option.getD_some]
    · have missing : (Value.map members).field? name = none := by
        rw [← Option.not_isSome_iff_eq_none]
        exact fun held => declared (named.1 held)
      refine Eq.trans ?_ missing.symm
      rw [← Option.not_isSome_iff_eq_none]
      exact fun held => declared ((isSome_field?_recordOf_iff _).1 held)
  rw [same]
  rfl

end Spec.Describes

/-! ### Layouts -/

/-- The kind of what the cells of a type are written as. -/
def CellType.kind : CellType → FieldKind
  | text => .string
  | flag => .bool
  | int | nat => .integer
  | real => .float
  | bytes => .bytes
  | texts | counts => .composite
  | optional inner => inner.kind

theorem CellType.takes_write : ∀ (type : CellType) {cell : Cell}, type.Holds cell →
    cell.write.isNull = false → type.kind.Takes cell.write
  | optional inner, _, .inr holds, filled => takes_write inner holds filled
  | text, .text _, _, _ | flag, .flag _, _, _ | int, .int _, _, _ => trivial
  | nat, .nat u, _, _ => by
      rw [Cell.write, Value.ofUInt64]
      split <;> trivial
  | real, .real x, _, filled => by
      rw [Cell.write] at filled ⊢
      split
      · trivial
      · next infinite => simp [infinite, Value.isNull] at filled
  | bytes, .bytes b, _, _ => ⟨b, rfl⟩
  | texts, .texts _, _, _ | counts, .counts _, _, _ => trivial

/-- The spec lists the fields of the layout with their kinds. -/
structure Spec.Lists (spec : Spec) (layout : Layout) : Prop where
  names : ∀ name, spec.declares name = true ↔ name ∈ layout.map Prod.fst
  kinds : ∀ f ∈ spec.fields, ∀ type, (f.name, type) ∈ layout → type.kind = f.kind

/-- The fields that the layout makes optional may be null. -/
def Spec.Spares (spec : Spec) (layout : Layout) : Prop :=
  ∀ f ∈ spec.fields, ∀ type, (f.name, type) ∈ layout → type.isOptional = true → f.nullable = true

namespace Spec.Lists

variable {spec : Spec} {layout : Layout} {record : Dict Cell}

/-- The content of a declared field is that of a cell of the right type. -/
theorem exists_content (lists : spec.Lists layout) (fits : layout.Fits record) {f : FieldSpec}
    (mem : f ∈ spec.fields) : ∃ type cell, (f.name, type) ∈ layout ∧ record.get? f.name = some cell ∧
      type.Holds cell ∧ (Layout.write record).content f.name = cell.write := by
  have declared : spec.declares f.name = true := declares_iff.2 (List.mem_map_of_mem mem)
  obtain ⟨⟨name, type⟩, listed, same⟩ := List.mem_map.1 ((lists.names f.name).1 declared)
  subst same
  obtain ⟨cell, held, holds⟩ := fits.holds _ listed
  refine ⟨type, cell, listed, held, holds, ?_⟩
  have found := Layout.lookup_write record f.name
  rw [held] at found
  exact congrArg (Option.getD · .null) found

/-- A record that fits a layout is described by a spec that lists it. -/
theorem describes (lists : spec.Lists layout) (fits : layout.Fits record) :
    spec.Describes (Layout.write record) where
  isMap := ⟨_, rfl, (record.map Cell.write).ordered⟩
  names name := by
    have found := Layout.lookup_write record name
    show ((record.map Cell.write).entries.lookup name).isSome = true ↔ _
    rw [found, Option.isSome_map, lists.names]
    constructor
    · intro held
      obtain ⟨cell, held⟩ := Option.isSome_iff_exists.1 held
      exact fits.named name cell held
    · intro listed
      obtain ⟨field, mem, rfl⟩ := List.mem_map.1 listed
      obtain ⟨cell, held, _⟩ := fits.holds field mem
      rw [held]
      rfl
  kinds f mem filled := by
    obtain ⟨type, cell, listed, _, holds, content⟩ := lists.exists_content fits mem
    rw [content] at filled ⊢
    rw [← lists.kinds f mem type listed]
    exact type.takes_write holds filled

/-- A record whose numbers are finite has a value wherever its layout asks for one. -/
theorem filledBy (lists : spec.Lists layout) (spares : spec.Spares layout) (fits : layout.Fits record)
    (finite : Layout.IsFinite record) : FilledBy spec (Layout.write record) := by
  intro f mem required
  obtain ⟨type, cell, listed, held, holds, content⟩ := lists.exists_content fits mem
  rw [content]
  cases null : cell.write.isNull with
  | false => rfl
  | true =>
      rcases Cell.isNull_write_iff.1 null with rfl | infinite
      · have optional : type.isOptional = true := by
          cases type <;> first | rfl | exact holds.elim
        rw [spares f mem type listed optional] at required
        cases required
      · rw [finite f.name cell held] at infinite
        cases infinite

end Spec.Lists

/-! ### Orders

A record type with a column of another name than its field and with a field that may be null. -/

namespace Orders

def layout : Layout :=
  [("id", .int), ("customer", .text), ("total", .real), ("status", .text), ("note", .optional .text)]

/-- Orders are numbered. -/
def number : FieldSpec := (FieldSpec.plain "id" .integer).asKey

/-- The spec of orders, which keeps the customer in a column of another name. -/
def spec : Spec where
  typeName := "Order"
  package := Catalog.package
  fields := [number, (FieldSpec.plain "customer" .string).inColumn "customer_id", .plain "total" .float,
    .plain "status" .string, (FieldSpec.plain "note" .string).orNull]
  key := number
  names_ne := by decide
  names_nodup := by decide
  columns_nodup := by decide
  keys_eq := rfl
  key_nullable := rfl

def model : Model (Dict Cell) :=
  layout.model { typeName := "Order", package := Catalog.package, fields := spec.fields } [] {}

theorem lists : spec.Lists layout where
  names name := by
    rw [Spec.declares_iff]
    rfl
  kinds f mem type listed := by
    simp only [spec, List.mem_cons, List.not_mem_nil, or_false] at mem
    rcases mem with rfl | rfl | rfl | rfl | rfl <;>
      simp [layout, number, FieldSpec.plain, FieldSpec.asKey, FieldSpec.inColumn, FieldSpec.orNull]
        at listed <;>
      subst listed <;> rfl

/-- An order without a note. -/
def order (id : Int64) (status : String) : Dict Cell :=
  .ofList [("id", .int id), ("customer", .text "c"), ("total", .real (.ofInt 3)), ("status", .text status),
    ("note", .absent)]

theorem legal_order (id : Int64) (status : String) :
    layout.Fits (order id status) ∧ Layout.IsFinite (order id status) := by
  constructor
  · apply Layout.fits_ofList (by decide)
    exact .cons ⟨rfl, trivial⟩ (.cons ⟨rfl, trivial⟩ (.cons ⟨rfl, trivial⟩
      (.cons ⟨rfl, trivial⟩ (.cons ⟨rfl, .inl rfl⟩ .nil))))
  · apply Layout.isFinite_ofList (by simp)
    have three : (Binary64.ofInt 3).isFinite = true := by decide
    simp [Cell.isFinite, three]

end Orders

end Depot
