import Depot.Proofs.Record.Described
import Depot.Proofs.Record.Reading

/-!
# Records as atoms

An atom is filled field by field, each content going to the partition of its field's kind under the
field's own name. What an atom holds under a name (`Atom.slots`) is settled by the one field of that name,
so the field finds its content again after all the others were put in (`Atom.exists_foldlM_insertMember`).
A record that its spec describes thus becomes an atom from which it is put together as it was
(`Spec.Describes.exists_atom`), and a type that reads what it writes reads it from there.
-/

namespace Depot

namespace Atom

/-- What an atom holds under a name, partition by partition. -/
def slots (a : Atom) (name : String) :
    (Option Int64 × Option UInt64 × Option Binary64 × Option String × Option Bool ×
      Option (List UInt8) × Option Value) ×
    (Option (Option Int64) × Option (Option UInt64) × Option (Option Binary64) ×
      Option (Option String) × Option (Option Bool) × Option (Option (List UInt8)) ×
      Option (Option Value)) :=
  ((a.ints.get? name, a.uints.get? name, a.floats.get? name, a.strings.get? name, a.bools.get? name,
      a.bytes.get? name, a.composites.get? name),
    (a.nullableInts.get? name, a.nullableUInts.get? name, a.nullableFloats.get? name,
      a.nullableStrings.get? name, a.nullableBools.get? name, a.nullableBytes.get? name,
      a.nullableComposites.get? name))

/-- No partition has an entry under the name. -/
def Lacks (a : Atom) (name : String) : Prop :=
  a.slots name = (ofType a.typeName).slots name

theorem lacks_ofType (typeName name : String) : (ofType typeName).Lacks name := rfl

variable {a b : Atom} {f : FieldSpec} {name : String}

/-- A field is looked up under its own name alone. -/
theorem lookup?_of_slots (same : b.slots f.name = a.slots f.name) : b.lookup? f = a.lookup? f := by
  simp only [slots, Prod.mk.injEq] at same
  obtain ⟨⟨ints, uints, floats, strings, bools, bytes, composites⟩,
    nullableInts, nullableUInts, nullableFloats, nullableStrings, nullableBools, nullableBytes,
    nullableComposites⟩ := same
  rw [lookup?, lookup?, ints, uints, floats, strings, bools, bytes, composites, nullableInts,
    nullableUInts, nullableFloats, nullableStrings, nullableBools, nullableBytes, nullableComposites]

/-- Every field of an atom is in a partition. -/
theorem not_mem_fieldNames (h : a.Lacks name) : name ∉ a.fieldNames := by
  simp only [Lacks, slots, ofType, Dict.get?_empty, Prod.mk.injEq] at h
  simp [fieldNames, partitions, Dict.mem_keys_iff, h]

/-! ### Putting a field in -/

/-- One atom is another one with a content put into a field. -/
structure Puts (a : Atom) (f : FieldSpec) (v : Value) (b : Atom) : Prop where
  found : b.lookup? f = some v
  others : ∀ name ≠ f.name, b.slots name = a.slots name

/-- A field that is unset is found so. -/
theorem puts_insertUnset (fresh : a.Lacks f.name) (nullable : f.nullable = true) :
    a.Puts f .null (a.insertUnset f) := by
  simp only [Lacks, slots, ofType, Dict.get?_empty, Prod.mk.injEq] at fresh
  cases kind : f.kind <;> constructor <;>
    simp +contextual [insertUnset, lookup?, slots, kind, nullable, fresh, orNull, setNullableInt,
      setNullableFloat, setNullableString, setNullableBool, setNullableBytes, setNullableComposite,
      Dict.get?_insert_of_ne]

theorem bytesOf?_bytesValue (b : List UInt8) : bytesOf? (bytesValue b) = some b :=
  List.mapM_map_some Value.byteOf?_ofByte b

/-- A content of the kind of its field is found again. -/
theorem exists_insertValue {v : Value} (fresh : a.Lacks f.name) (takes : f.kind.Takes v) :
    ∃ b, a.insertValue f v = .ok b ∧ a.Puts f v b := by
  simp only [Lacks, slots, ofType, Dict.get?_empty, Prod.mk.injEq] at fresh
  -- Where the field may be null, its content goes to another partition than where it may not.
  cases kind : f.kind <;> rw [kind] at takes
  case integer =>
    match v, takes with
    | .integer i, _ =>
        refine ⟨_, by simp only [insertValue, kind]; rfl, ?_⟩
        cases nullable : f.nullable <;> constructor <;>
          simp +contextual [lookup?, slots, kind, nullable, fresh, setInt, setNullableInt,
            Dict.get?_insert_of_ne]
    | .uinteger u, _ =>
        refine ⟨_, by simp only [insertValue, kind]; rfl, ?_⟩
        cases nullable : f.nullable <;> constructor <;>
          simp +contextual [lookup?, slots, kind, nullable, fresh, setUInt, setNullableUInt,
            Dict.get?_insert_of_ne]
  case float =>
    match v, takes with
    | .float x, _ =>
        refine ⟨_, by simp only [insertValue, kind, Value.asFloat?]; rfl, ?_⟩
        cases nullable : f.nullable <;> constructor <;>
          simp +contextual [lookup?, slots, kind, nullable, setFloat, setNullableFloat, orNull,
            Dict.get?_insert_of_ne]
  case string =>
    match v, takes with
    | .string s, _ =>
        refine ⟨_, by simp only [insertValue, kind, Value.asString?]; rfl, ?_⟩
        cases nullable : f.nullable <;> constructor <;>
          simp +contextual [lookup?, slots, kind, nullable, setString, setNullableString, orNull,
            Dict.get?_insert_of_ne]
  case bool =>
    match v, takes with
    | .bool x, _ =>
        refine ⟨_, by simp only [insertValue, kind, Value.asBool?]; rfl, ?_⟩
        cases nullable : f.nullable <;> constructor <;>
          simp +contextual [lookup?, slots, kind, nullable, setBool, setNullableBool, orNull,
            Dict.get?_insert_of_ne]
  case bytes =>
    obtain ⟨b, rfl⟩ := takes
    refine ⟨_, by simp only [insertValue, kind, bytesOf?_bytesValue]; rfl, ?_⟩
    cases nullable : f.nullable <;> constructor <;>
      simp +contextual [lookup?, slots, kind, nullable, setBytes, setNullableBytes, orNull,
        Dict.get?_insert_of_ne]
  case composite =>
    refine ⟨_, by simp only [insertValue, kind]; rfl, ?_⟩
    cases nullable : f.nullable <;> constructor <;>
      simp +contextual [lookup?, slots, kind, nullable, setComposite, setNullableComposite,
        orNull, Dict.get?_insert_of_ne]

variable {members : List (String × Value)}

/-- What becomes of a field is settled by its content. -/
theorem insertMember_eq_content (members : List (String × Value)) (a : Atom) (f : FieldSpec) :
    insertMember members a f =
      if ((Value.map members).content f.name).isNull then
        if f.nullable then .ok (a.insertUnset f)
        else .error (.encode .value ("non-nullable field '" ++ f.name ++ "' has no value"))
      else a.insertValue f ((Value.map members).content f.name) := by
  rw [insertMember, Value.content_map]
  cases members.lookup f.name with
  | none => rfl
  | some v => cases v <;> rfl

/-- A member is put into its field: its content if there is one, else that there is none. -/
theorem exists_insertMember (fresh : a.Lacks f.name)
    (filled : f.nullable = false → ((Value.map members).content f.name).isNull = false)
    (takes : ((Value.map members).content f.name).isNull = false →
      f.kind.Takes ((Value.map members).content f.name)) :
    ∃ b, insertMember members a f = .ok b ∧ a.Puts f ((Value.map members).content f.name) b := by
  rw [insertMember_eq_content]
  cases null : ((Value.map members).content f.name).isNull with
  | true =>
      have nullable : f.nullable = true := by
        cases required : f.nullable with
        | true => rfl
        | false => cases null.symm.trans (filled required)
      rw [Value.isNull_eq_true_iff.1 null]
      exact ⟨_, if_pos nullable, puts_insertUnset fresh nullable⟩
  | false => exact exists_insertValue fresh (takes null)

/-- Fields that are not there are not there either once another one was put in. -/
theorem lacks_rest {rest : List FieldSpec} (apart : f.name ∉ rest.map FieldSpec.name)
    (fresh : ∀ g ∈ rest, a.Lacks g.name) (others : ∀ name ≠ f.name, b.slots name = a.slots name) :
    ∀ g ∈ rest, b.Lacks g.name := by
  intro g mem
  have other : g.name ≠ f.name := fun same => apart (same ▸ List.mem_map_of_mem mem)
  exact (others g.name other).trans (fresh g mem)

/-- Members put into their fields, one after the other, are all found again. -/
theorem exists_foldlM_insertMember : ∀ (fields : List FieldSpec) (a : Atom),
    (fields.map FieldSpec.name).Nodup → (∀ f ∈ fields, a.Lacks f.name) →
    (∀ f ∈ fields, f.nullable = false → ((Value.map members).content f.name).isNull = false) →
    (∀ f ∈ fields, ((Value.map members).content f.name).isNull = false →
      f.kind.Takes ((Value.map members).content f.name)) →
    ∃ b, fields.foldlM (insertMember members) a = .ok b ∧
      (∀ f ∈ fields, b.lookup? f = some ((Value.map members).content f.name)) ∧
      ∀ name ∉ fields.map FieldSpec.name, b.slots name = a.slots name
  | [], a, _, _, _, _ => ⟨a, rfl, by simp, fun _ _ => rfl⟩
  | f :: rest, a, nodup, fresh, filled, takes => by
      simp only [List.map_cons, List.nodup_cons] at nodup
      simp only [List.forall_mem_cons] at fresh filled takes
      obtain ⟨b, made, puts⟩ := exists_insertMember fresh.1 filled.1 takes.1
      have still := lacks_rest nodup.1 fresh.2 puts.others
      obtain ⟨c, others, found, kept⟩ :=
        exists_foldlM_insertMember rest b nodup.2 still filled.2 takes.2
      refine ⟨c, by rw [List.foldlM_cons, made]; exact others, ?_, fun name outside => ?_⟩
      · rw [List.forall_mem_cons]
        exact ⟨(lookup?_of_slots (kept f.name nodup.1)).trans puts.found, found⟩
      · rw [List.map_cons, List.mem_cons, not_or] at outside
        exact (kept name outside.2).trans (puts.others name outside.1)

/-! ### Putting a value together again -/

theorem mapM_fieldValue {content : FieldSpec → Value} {fields : List FieldSpec}
    (found : ∀ f ∈ fields, a.fieldValue f = .ok (content f)) :
    fields.mapM (fun f => (do return (f.name, ← a.fieldValue f) : Except Error (String × Value))) =
      .ok (fields.map fun f => (f.name, content f)) := by
  induction fields with
  | nil => rfl
  | cons f rest ih =>
      rw [List.forall_mem_cons] at found
      rw [List.mapM_cons, found.1, ih found.2]
      rfl

/-- An atom of declared fields that finds a content for each of them is put together from these. -/
theorem toValue_of_lookup? {spec : Spec} {content : FieldSpec → Value}
    (declared : ∀ name, spec.declares name = false → a.Lacks name)
    (found : ∀ f ∈ spec.fields, a.lookup? f = some (content f)) :
    a.toValue spec = .ok (.ofDict (.ofList (spec.fields.map fun f => (f.name, content f)))) := by
  have known : a.fieldNames.find? (fun name => !spec.declares name) = none := by
    rw [List.find?_eq_none]
    intro name mem undeclared
    exact not_mem_fieldNames (declared name (Bool.not_eq_true' _ ▸ undeclared)) mem
  rw [toValue, known]
  dsimp only
  rw [mapM_fieldValue fun f mem => by rw [fieldValue, found f mem]]
  rfl

end Atom

/-- A value that its spec describes, with a content wherever there must be one, becomes an atom from which
it is put together again. -/
theorem Spec.Describes.exists_atom {spec : Spec} {v : Value} (h : spec.Describes v)
    (filled : FilledBy spec v) : ∃ a, Atom.ofValue spec v = .ok a ∧ a.toValue spec = .ok v := by
  obtain ⟨members, whole, _⟩ := h.isMap
  obtain ⟨own, same, known⟩ := h.declaredBy
  obtain rfl : own = members := Value.map.inj (same.symm.trans whole)
  subst whole
  obtain ⟨a, made, found, kept⟩ := Atom.exists_foldlM_insertMember spec.fields
    (.ofType spec.typeName) spec.names_nodup (fun _ _ => Atom.lacks_ofType _ _) filled h.kinds
  refine ⟨a, ?_, ?_⟩
  · rw [Atom.ofValue, Atom.recordMembers_eq_ok_iff.2 ⟨rfl, known⟩]
    exact made
  · have undeclared : ∀ name, spec.declares name = false → a.Lacks name := by
      intro name unknown
      apply kept
      rw [← declares_iff, unknown]
      exact Bool.false_ne_true
    rw [Atom.toValue_of_lookup? undeclared found]
    exact congrArg Except.ok h.eq_ofDict

namespace Model

variable {ρ : Type} {m : Model ρ} {spec : Spec} {Legal : ρ → Prop}

/-- Records of the type and atoms under the spec are two forms of the same data: a legal record is
described by the spec and is read from what it is written as, and every record that is read is legal. -/
structure AtomicUnder (m : Model ρ) (spec : Spec) (Legal : ρ → Prop) : Prop where
  faithful : m.Faithful Legal id
  describes : ∀ record, Legal record → spec.Describes (m.toValue record)
  filledBy : ∀ record, Legal record → FilledBy spec (m.toValue record)
  legal : ∀ v record, m.ofValue v = .ok record → Legal record

namespace AtomicUnder

/-- A legal record becomes an atom, from which it is put together again. -/
theorem exists_atom (h : m.AtomicUnder spec Legal) {record : ρ} (legal : Legal record) :
    ∃ a, m.atomize spec record = .ok a ∧ m.deatomize spec a = .ok record := by
  obtain ⟨a, made, whole⟩ := (h.describes record legal).exists_atom (h.filledBy record legal)
  refine ⟨a, made, ?_⟩
  rw [deatomize, whole]
  exact h.faithful.ofValue_toValue legal

theorem deatomize_of_atomize (h : m.AtomicUnder spec Legal) {record : ρ} (legal : Legal record)
    {a : Atom} (made : m.atomize spec record = .ok a) : m.deatomize spec a = .ok record := by
  obtain ⟨b, also, whole⟩ := h.exists_atom legal
  cases made.symm.trans also
  exact whole

end AtomicUnder

end Model

/-- Records of a layout whose numbers are finite are as well atoms under each spec that lists the fields
with their kinds and lets the optional ones be null. -/
theorem Layout.atomicUnder {layout : Layout} {spec : Spec} (nodup : (layout.map Prod.fst).Nodup)
    (lists : spec.Lists layout) (spares : spec.Spares layout) (declaration : Declaration)
    (roles : List Role) (hooks : Hooks (Dict Cell)) :
    (layout.model declaration roles hooks).AtomicUnder spec
      (fun record => Fits layout record ∧ IsFinite record) where
  faithful := faithful_model nodup declaration roles hooks
  describes _ legal := lists.describes legal.1
  filledBy _ legal := lists.filledBy spares legal.1 legal.2
  legal v record read := by
    apply legal_of_read? (v := v) nodup
    rw [Model.ofValue] at read
    split at read
    · next own found =>
        cases read
        exact found
    · cases read

end Depot
