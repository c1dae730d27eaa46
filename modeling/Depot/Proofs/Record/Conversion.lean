import Depot.Proofs.Record.Edits

/-!
# Which values become atoms

An atom is made of a map field by field. Whether a field can be made says the field with its own content
alone (`Atom.exists_insertMember_iff`), so an atom is made of exactly those maps in which every content
fits (`Spec.Accepts`). Contents of different forms may make the same field: a whole number goes to a float
field as a float, a byte string to the bytes it consists of. Among the maps that make the same atom one is
in normal form, and it is the one that the atom is put together to (`Atom.ofValue_exact`).

To make a field is one setter call, whatever its kind and nullability (`Atom.exists_edit_of_insertMember`),
so a field that was not there before is there once afterwards.
-/

namespace Depot

/-! ### What fits a field -/

/-- A value is a whole number that is a byte. -/
def Value.IsByte (v : Value) : Prop :=
  ∃ i : Int64, v = .integer i ∧ 0 ≤ i.toInt ∧ i.toInt < 256

namespace FieldKind

/-- A content that is not null fits the kind. Whole numbers fit float fields as well, arrays of bytes
fit fields of bytes, and anything may be nested. -/
def Fits : FieldKind → Value → Prop
  | integer, .integer _ | integer, .uinteger _ => True
  | float, .integer _ | float, .uinteger _ | float, .float _ => True
  | string, .string _ | bool, .bool _ | bytes, .bytes _ => True
  | bytes, .array items => ∀ item ∈ items, item.IsByte
  | composite, _ => True
  | _, _ => False

/-- The form of a content in which a field of the kind gives it back. -/
def normal : FieldKind → Value → Value
  | float, .integer i => .float (.ofInt i.toInt)
  | float, .uinteger u => .float (.ofInt u.toNat)
  | bytes, .bytes b => Atom.bytesValue b
  | _, v => v

end FieldKind

/-- A map of declared fields, with a content wherever there must be one, and each content fits. -/
structure Spec.Accepts (spec : Spec) (v : Value) : Prop where
  declared : DeclaredBy spec v
  filled : FilledBy spec v
  fits : ∀ f ∈ spec.fields, (v.content f.name).isNull = false → f.kind.Fits (v.content f.name)

/-- The map of all declared fields, each with its content in normal form, or with null. -/
def Spec.normalForm (spec : Spec) (v : Value) : Value :=
  spec.recordOf fun f => f.kind.normal (v.content f.name)

/-- A new key is there once. -/
theorem Dict.perm_keys_insert {α : Type} {d : Dict α} {key : String} (fresh : d.get? key = none)
    (value : α) : (d.insert key value).keys.Perm (key :: d.keys) := by
  have missing : key ∉ d.keys := by simp [mem_keys_iff, fresh]
  have once : (d.insert key value).keys.Nodup := (d.insert key value).ordered.nodup
  rw [List.perm_ext_iff_of_nodup once (List.nodup_cons.2 ⟨missing, d.ordered.nodup⟩)]
  intro other
  rw [mem_keys_iff, get?_insert, List.mem_cons, mem_keys_iff]
  by_cases same : other = key <;> simp [same]

/-! ### Bytes -/

theorem Value.isSome_byteOf?_iff {v : Value} : (Atom.byteOf? v).isSome ↔ v.IsByte := by
  cases v with
  | integer i =>
      rw [Atom.byteOf?, asInt64?]
      dsimp only
      split
      · next range => exact ⟨fun _ => ⟨i, rfl, range⟩, fun _ => rfl⟩
      · next outside =>
          constructor
          · intro byte
            cases byte
          · rintro ⟨_, same, range⟩
            cases same
            exact absurd range outside
  | _ =>
      constructor
      · intro byte
        cases byte
      · rintro ⟨_, same, _⟩
        cases same

theorem Value.ofByte_of_byteOf? {v : Value} {b : UInt8} (byte : Atom.byteOf? v = some b) :
    ofByte b = v := by
  cases v with
  | integer i =>
      rw [Atom.byteOf?, asInt64?] at byte
      dsimp only at byte
      split at byte
      · next range =>
          cases byte
          have whole : (UInt8.ofNat i.toInt.toNat).toNat = i.toInt.toNat := by
            rw [UInt8.toNat_ofNat']
            omega
          rw [ofByte, whole, Int.toNat_of_nonneg range.1, Int64.ofInt_toInt]
      · cases byte
  | _ => cases byte

/-- An array of bytes is written as it is. -/
theorem Atom.bytesValue_of_bytesOf? {items : List Value} {b : List UInt8}
    (bytes : bytesOf? (.array items) = some b) : bytesValue b = .array items := by
  have same : ∀ (items : List Value) (b : List UInt8), items.mapM byteOf? = some b →
      b.map Value.ofByte = items := by
    intro items
    induction items with
    | nil =>
        intro b bytes
        cases bytes
        rfl
    | cons item rest ih =>
        intro b bytes
        rw [List.mapM_cons, Option.bind_eq_bind, Option.bind_eq_some_iff] at bytes
        obtain ⟨first, byte, bytes⟩ := bytes
        rw [Option.bind_eq_bind, Option.bind_eq_some_iff] at bytes
        obtain ⟨others, read, whole⟩ := bytes
        cases whole
        rw [List.map_cons, Value.ofByte_of_byteOf? byte, ih others read]
  exact congrArg Value.array (same items b bytes)

/-! ### Contents in normal form -/

namespace FieldKind

variable {kind : FieldKind} {v : Value}

theorem isNull_normal : (kind.normal v).isNull = v.isNull := by
  cases kind <;> cases v <;> rfl

/-- What fits a kind is of the kind in normal form. -/
theorem takes_normal (fits : kind.Fits v) : kind.Takes (kind.normal v) := by
  cases kind <;> cases v <;> first | trivial | cases fits | skip
  case bytes.bytes b => exact ⟨b, rfl⟩
  case bytes.array items =>
    obtain ⟨b, read⟩ := Option.isSome_iff_exists.1
      (List.isSome_mapM_iff.2 fun item mem => Value.isSome_byteOf?_iff.2 (fits item mem))
    exact ⟨b, (Atom.bytesValue_of_bytesOf? read).symm⟩

end FieldKind

namespace Atom

variable {a b : Atom} {f : FieldSpec} {v : Value} {name : String}

/-! ### Making one field -/

/-- A content that fits makes the same field as its normal form. -/
theorem insertValue_normal (a : Atom) (f : FieldSpec) (v : Value) :
    a.insertValue f (f.kind.normal v) = a.insertValue f v := by
  cases kind : f.kind with
  | float => cases v <;> simp only [insertValue, kind, FieldKind.normal, Value.asFloat?]
  | bytes =>
      cases v with
      | bytes b =>
          simp only [insertValue, kind, FieldKind.normal, bytesOf?_bytesValue]
          rfl
      | _ => rfl
  | _ => rfl

/-- A field takes what fits its kind and nothing else. -/
theorem exists_insertValue_iff : (∃ b, a.insertValue f v = .ok b) ↔ f.kind.Fits v := by
  cases kind : f.kind with
  | integer => cases v <;> simp [insertValue, kind, FieldKind.Fits]
  | float => cases v <;> simp [insertValue, kind, FieldKind.Fits, Value.asFloat?]
  | string => cases v <;> simp [insertValue, kind, FieldKind.Fits, Value.asString?]
  | bool => cases v <;> simp [insertValue, kind, FieldKind.Fits, Value.asBool?]
  | composite => cases v <;> simp [insertValue, kind, FieldKind.Fits]
  | bytes =>
      have read : (∃ b, a.insertValue f v = .ok b) ↔ (bytesOf? v).isSome := by
        simp only [insertValue, kind]
        cases bytesOf? v <;> simp
      rw [read]
      cases v with
      | bytes b => exact ⟨fun _ => trivial, fun _ => rfl⟩
      | array items =>
          rw [bytesOf?, List.isSome_mapM_iff]
          exact forall₂_congr fun _ _ => Value.isSome_byteOf?_iff
      | _ => exact ⟨fun some => (by cases some), False.elim⟩

/-- A field is made if it may be unset or has a content, and a content fits. -/
theorem exists_insertMember_iff (members : List (String × Value)) (a : Atom) (f : FieldSpec) :
    (∃ b, insertMember members a f = .ok b) ↔
    (f.nullable = false → ((Value.map members).content f.name).isNull = false) ∧
      (((Value.map members).content f.name).isNull = false →
        f.kind.Fits ((Value.map members).content f.name)) := by
  rw [insertMember_eq_content]
  cases ((Value.map members).content f.name).isNull with
  | true => cases f.nullable <;> simp
  | false => simpa using exists_insertValue_iff

/-! ### The names of the fields -/

variable {members : List (String × Value)}

/-- The names of all fields, partition by partition. -/
def names (a : Atom) : List String := a.partitions.flatMap Prod.snd

/-- A setter call for a new field adds its name once. -/
theorem perm_names_apply (fresh : a.Lacks name) (e : Edit) :
    (e.apply a name).names.Perm (name :: a.names) := by
  simp only [Lacks, slots, ofType, Dict.get?_empty, Prod.mk.injEq] at fresh
  -- The name goes into the middle of the list, so the places before and behind it are counted.
  rw [List.perm_iff_count]
  intro other
  have added {α : Type} {d : Dict α} (missing : d.get? name = none) (x : α) :=
    (Dict.perm_keys_insert missing x).count_eq other
  simp only [names, partitions, List.flatMap_cons, List.flatMap_nil, List.count_append, List.count_cons]
    at added ⊢
  cases e with
  | plain p content =>
      cases p <;>
        simp only [Edit.apply, setInt, setUInt, setFloat, setString, setBool, setBytes, setComposite,
          added, fresh] <;> omega
  | nullable p content =>
      cases p <;>
        simp only [Edit.apply, setNullableInt, setNullableUInt, setNullableFloat, setNullableString,
          setNullableBool, setNullableBytes, setNullableComposite, added, fresh] <;> omega

/-- The setter for a field's kind and nullability. -/
theorem exists_edit_of_choice {p : Partition} (content : p.Content)
    (made : .ok (if f.nullable then (Edit.nullable p (some content)).apply a f.name
      else (Edit.plain p content).apply a f.name) = Except.ok (ε := Error) b) :
    ∃ e : Edit, e.apply a f.name = b := by
  split at made
  · exact ⟨_, Except.ok.inj made⟩
  · exact ⟨_, Except.ok.inj made⟩

theorem exists_edit_of_insertUnset (made : a.insertUnset f = b) :
    ∃ e : Edit, e.apply a f.name = b := by
  rw [insertUnset] at made
  split at made
  · exact ⟨.nullable .ints none, made⟩
  · exact ⟨.nullable .floats none, made⟩
  · exact ⟨.nullable .strings none, made⟩
  · exact ⟨.nullable .bools none, made⟩
  · exact ⟨.nullable .bytes none, made⟩
  · exact ⟨.nullable .composites none, made⟩

theorem exists_edit_of_insertValue (made : a.insertValue f v = .ok b) :
    ∃ e : Edit, e.apply a f.name = b := by
  unfold insertValue at made
  split at made
  · split at made
    · exact exists_edit_of_choice (p := .ints) _ made
    · exact exists_edit_of_choice (p := .uints) _ made
    · cases made
  · split at made
    · exact exists_edit_of_choice (p := .floats) _ made
    · cases made
  · split at made
    · exact exists_edit_of_choice (p := .strings) _ made
    · cases made
  · split at made
    · exact exists_edit_of_choice (p := .bools) _ made
    · cases made
  · split at made
    · exact exists_edit_of_choice (p := .bytes) _ made
    · cases made
  · exact exists_edit_of_choice (p := .composites) _ made

/-- To make a field is one setter call. -/
theorem exists_edit_of_insertMember (made : insertMember members a f = .ok b) :
    ∃ e : Edit, e.apply a f.name = b := by
  rw [insertMember_eq_content] at made
  split at made
  · split at made
    · exact exists_edit_of_insertUnset (Except.ok.inj made)
    · cases made
  · exact exists_edit_of_insertValue made

theorem perm_names_foldlM {fields : List FieldSpec} (nodup : (fields.map FieldSpec.name).Nodup)
    (fresh : ∀ f ∈ fields, a.Lacks f.name) (made : fields.foldlM (insertMember members) a = .ok b) :
    b.names.Perm (fields.map FieldSpec.name ++ a.names) := by
  induction fields generalizing a with
  | nil =>
      cases made
      exact .refl _
  | cons f rest ih =>
      rw [List.map_cons, List.nodup_cons] at nodup
      rw [List.forall_mem_cons] at fresh
      rw [List.foldlM_cons, Fallible.bind_eq_ok_iff] at made
      obtain ⟨c, first, made⟩ := made
      obtain ⟨e, rfl⟩ := exists_edit_of_insertMember first
      have still := lacks_rest nodup.1 fresh.2 fun _ apart => slots_apply_of_ne (e := e) apart
      calc List.Perm b.names (rest.map FieldSpec.name ++ (e.apply a f.name).names) :=
            ih nodup.2 still made
        List.Perm _ (rest.map FieldSpec.name ++ f.name :: a.names) :=
            (perm_names_apply fresh.1 e).append_left _
        List.Perm _ (f.name :: rest.map FieldSpec.name ++ a.names) := List.perm_middle

/-- An atom made from a value has the declared fields, each once. -/
theorem perm_names_ofValue {spec : Spec} (made : ofValue spec v = .ok a) :
    a.names.Perm (spec.fields.map FieldSpec.name) := by
  rw [ofValue, Fallible.bind_eq_ok_iff] at made
  obtain ⟨members, _, made⟩ := made
  have perm := perm_names_foldlM spec.names_nodup (fun _ _ => lacks_ofType _ _) made
  rwa [show (ofType spec.typeName).names = [] from rfl, List.append_nil] at perm

theorem pairwise_fieldNames (once : a.names.Nodup) : a.fieldNames.Pairwise (· < ·) := by
  have sorted : a.fieldNames.Pairwise (· ≤ ·) := by
    refine List.Pairwise.imp of_decide_eq_true (List.pairwise_mergeSort ?_ ?_ a.names)
    · intro x y z xy yz
      rw [decide_eq_true_eq] at *
      exact Std.le_trans xy yz
    · intro x y
      rw [Bool.or_eq_true, decide_eq_true_eq, decide_eq_true_eq]
      exact Std.le_total
  have nodup : a.fieldNames.Nodup := (List.mergeSort_perm ..).nodup_iff.2 once
  exact (sorted.and nodup).imp fun both => Std.lt_of_le_of_ne both.1 both.2

end Atom

/-! ### Atoms of values -/

namespace Spec

variable {spec : Spec} {v : Value}

theorem content_normalForm {f : FieldSpec} (mem : f ∈ spec.fields) :
    (spec.normalForm v).content f.name = f.kind.normal (v.content f.name) :=
  congrArg (fun found : Option Value => found.getD .null)
    (spec.lookup_recordOf (fun f => f.kind.normal (v.content f.name)) mem)

namespace Accepts

/-- The normal form of a value that makes an atom is described by the spec. -/
theorem describes_normalForm (accepted : spec.Accepts v) : spec.Describes (spec.normalForm v) where
  isMap := ⟨_, rfl, Dict.ordered _⟩
  names _ := isSome_field?_recordOf_iff _
  kinds f mem filled := by
    rw [content_normalForm mem] at filled ⊢
    rw [FieldKind.isNull_normal] at filled
    exact FieldKind.takes_normal (accepted.fits f mem filled)

theorem filledBy_normalForm (accepted : spec.Accepts v) : FilledBy spec (spec.normalForm v) := by
  intro f mem required
  rw [content_normalForm mem, FieldKind.isNull_normal]
  exact accepted.filled f mem required

end Accepts

end Spec

namespace Atom

variable {spec : Spec} {v : Value} {a : Atom}

/-- The normal form makes the same atom. -/
theorem ofValue_normalForm (declared : DeclaredBy spec v) :
    ofValue spec (spec.normalForm v) = ofValue spec v := by
  obtain ⟨members, rfl, known⟩ := declared
  obtain ⟨normal, whole⟩ : ∃ normal, spec.normalForm (.map members) = .map normal := ⟨_, rfl⟩
  have names : ∀ m ∈ normal, spec.declares m.1 = true := by
    intro m mem
    apply (Spec.isSome_field?_recordOf_iff _).1
    show ((spec.normalForm (.map members)).field? m.1).isSome
    rw [whole]
    exact List.lookup_isSome_iff.2 ⟨m, mem, beq_self_eq_true _⟩
  rw [whole, ofValue, ofValue, recordMembers_eq_ok_iff.2 ⟨rfl, names⟩,
    recordMembers_eq_ok_iff.2 ⟨rfl, known⟩]
  refine Fallible.foldlM_congr (fun f mem b => ?_) _
  have content : (Value.map normal).content f.name = _ := whole ▸ Spec.content_normalForm mem
  rw [insertMember_eq_content, insertMember_eq_content, content, FieldKind.isNull_normal,
    insertValue_normal]

/-- An atom is made exactly of a value that its spec accepts. -/
theorem exists_ofValue_iff : (∃ a, ofValue spec v = .ok a) ↔ spec.Accepts v := by
  have fold (members : List (String × Value)) (b : Atom) :=
    Fallible.exists_foldlM_iff (fun f b => exists_insertMember_iff members b f) spec.fields b
  simp only [ofValue, Fallible.bind_eq_ok_iff]
  constructor
  · rintro ⟨a, members, whole, made⟩
    obtain ⟨rfl, known⟩ := recordMembers_eq_ok_iff.1 whole
    have fields := (fold members _).1 ⟨a, made⟩
    exact ⟨⟨members, rfl, known⟩, fun f mem => (fields f mem).1, fun f mem => (fields f mem).2⟩
  · rintro ⟨⟨members, rfl, known⟩, filled, fits⟩
    obtain ⟨a, made⟩ := (fold members _).2 fun f mem => ⟨filled f mem, fits f mem⟩
    exact ⟨a, members, recordMembers_eq_ok_iff.2 ⟨rfl, known⟩, made⟩

/-- What an atom has to do with the value it was made from: its fields are the declared ones, in order and
each once, it is put together to the normal form of the value, and that makes the same atom again. -/
structure ConvertsExactly (spec : Spec) (v : Value) (a : Atom) : Prop where
  rising : a.fieldNames.Pairwise (· < ·)
  mem_fieldNames_iff : ∀ name, name ∈ a.fieldNames ↔ spec.declares name = true
  toValue : a.toValue spec = .ok (spec.normalForm v)
  ofValue : Atom.ofValue spec (spec.normalForm v) = .ok a

/-- **Atoms are made exactly of the values that fit.** Whatever the spec and the value: an atom is made if
and only if the value is a map of declared fields, every field that may not be null has a content, and
every content that is not null fits the kind of its field. Then the atom has the declared fields, each
once and in order. It is put together to a map of all declared fields: a field that may be null and was
missing has null, a whole number in a float field is a float, a byte string is an array of whole numbers,
and everything else is as it was. Made from that map, the atom is the same. -/
theorem ofValue_exact (spec : Spec) (v : Value) :
    ((∃ a, ofValue spec v = .ok a) ↔ spec.Accepts v) ∧
      ∀ a, ofValue spec v = .ok a → ConvertsExactly spec v a := by
  refine ⟨exists_ofValue_iff, fun a made => ?_⟩
  have accepted := exists_ofValue_iff.1 ⟨a, made⟩
  have again := (ofValue_normalForm accepted.declared).trans made
  obtain ⟨b, also, whole⟩ :=
    accepted.describes_normalForm.exists_atom accepted.filledBy_normalForm
  obtain rfl : a = b := Except.ok.inj (again.symm.trans also)
  have names := perm_names_ofValue made
  refine ⟨pairwise_fieldNames (names.nodup_iff.2 spec.names_nodup), fun name => ?_, whole, again⟩
  rw [fieldNames, List.mem_mergeSort, Spec.declares_iff]
  exact names.mem_iff

/-- An order without a note, with a whole number as its total. -/
theorem ofValue_exact_order :
    ∃ a, ofValue Orders.spec (.map [("customer", .string "c"), ("id", .integer 7),
        ("status", .string "open"), ("total", .integer 3)]) = .ok a ∧
      a.fieldNames.Pairwise (· < ·) ∧ "note" ∈ a.fieldNames ∧
      a.toValue Orders.spec = .ok (.map [("customer", .string "c"), ("id", .integer 7), ("note", .null),
        ("status", .string "open"), ("total", .float (.ofInt 3))]) := by
  obtain ⟨a, made⟩ : ∃ a, ofValue Orders.spec (.map [("customer", .string "c"), ("id", .integer 7),
    ("status", .string "open"), ("total", .integer 3)]) = .ok a := ⟨_, rfl⟩
  have converts := (ofValue_exact Orders.spec _).2 a made
  refine ⟨a, made, converts.rising, (converts.mem_fieldNames_iff "note").2 rfl, ?_⟩
  rw [converts.toValue]
  rfl

end Atom

end Depot
