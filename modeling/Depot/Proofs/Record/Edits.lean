import Depot.Proofs.Record.Atoms

/-!
# Edits of atoms

A setter puts a content under a name into one partition and leaves all the others alone
(`Atom.half_apply`). A field of most kinds has one partition, so it shows what the last setter call for
it gave. An integer field has two, one for signed numbers and one for those above their range, and no
setter of the one clears the other: the field shows its signed half, and the unsigned half only where
the signed one is unset. `Atom.toValue_edited` says for every sequence of setter calls what the atom is
put together to, and exactly when that is what the last call gave.
-/

namespace Depot

/-- A signed number as it is, null in place of everything else. -/
def Value.signed : Value → Value
  | .integer i => .integer i
  | _ => .null

/-- A number above the range of the signed ones as it is, null in place of everything else. -/
def Value.unsigned : Value → Value
  | .uinteger u => .uinteger u
  | _ => .null

namespace Atom

/-! ### Setter calls -/

/-- The partitions of an atom, each of which it has once for fields that have a value and once for
fields that may lack one. -/
inductive Partition
  | ints
  | uints
  | floats
  | strings
  | bools
  | bytes
  | composites
deriving DecidableEq

namespace Partition

/-- What a partition holds under a name. -/
abbrev Content : Partition → Type
  | ints => Int64
  | uints => UInt64
  | floats => Binary64
  | strings => String
  | bools => Bool
  | bytes => List UInt8
  | composites => Value

/-- The kind of the fields in a partition. -/
def kind : Partition → FieldKind
  | ints | uints => .integer
  | floats => .float
  | strings => .string
  | bools => .bool
  | bytes => .bytes
  | composites => .composite

/-- A content as the value that a field with it maps to. -/
def value : (p : Partition) → p.Content → Value
  | ints, i => .integer i
  | uints, u => .uinteger u
  | floats, x => .float x
  | strings, s => .string s
  | bools, b => .bool b
  | bytes, b => bytesValue b
  | composites, v => v

end Partition

/-- What a setter is called with: a content, or for a field that may lack one also nothing. -/
inductive Edit
  | plain (p : Partition) (content : p.Content)
  | nullable (p : Partition) (content : Option p.Content)

namespace Edit

def partition : Edit → Partition
  | plain p _ | nullable p _ => p

def isNullable : Edit → Bool
  | plain _ _ => false
  | nullable _ _ => true

/-- The value that the call gives to its field. -/
def value : Edit → Value
  | plain p content => p.value content
  | nullable p content => orNull (content.map p.value)

/-- The setter is one for fields of the kind and nullability. -/
def Suits (e : Edit) (f : FieldSpec) : Prop :=
  e.partition.kind = f.kind ∧ e.isNullable = f.nullable

/-- Calls the setter for a name. -/
def apply (a : Atom) (name : String) : Edit → Atom
  | plain .ints i => a.setInt name i
  | plain .uints u => a.setUInt name u
  | plain .floats x => a.setFloat name x
  | plain .strings s => a.setString name s
  | plain .bools b => a.setBool name b
  | plain .bytes b => a.setBytes name b
  | plain .composites v => a.setComposite name v
  | nullable .ints i => a.setNullableInt name i
  | nullable .uints u => a.setNullableUInt name u
  | nullable .floats x => a.setNullableFloat name x
  | nullable .strings s => a.setNullableString name s
  | nullable .bools b => a.setNullableBool name b
  | nullable .bytes b => a.setNullableBytes name b
  | nullable .composites v => a.setNullableComposite name v

end Edit

/-- Setter calls, each with the name it is made for. -/
abbrev Edits := List (String × Edit)

/-- The atom after setter calls, one after the other. -/
def edited (a : Atom) (edits : Edits) : Atom :=
  edits.foldl (fun a e => e.2.apply a e.1) a

namespace Edits

/-- The calls of setters that fill a partition. -/
def through (edits : Edits) (p : Partition) : Edits :=
  edits.filter fun e => e.2.partition = p

/-- What the last call for a name gave it, and what it had before if there was none. -/
def last (edits : Edits) (name : String) (old : Value) : Value :=
  edits.foldl (fun v e => if e.1 = name then e.2.value else v) old

/-- The signed half of an integer field after the calls. -/
def signedHalf (edits : Edits) (name : String) (old : Value) : Value :=
  (edits.through .ints).last name old.signed

/-- The unsigned half of an integer field after the calls. -/
def unsignedHalf (edits : Edits) (name : String) (old : Value) : Value :=
  (edits.through .uints).last name old.unsigned

variable {edits : Edits} {e : String × Edit} {name : String} {p : Partition} {old : Value}

@[simp] theorem last_cons :
    last (e :: edits) name old = last edits name (if e.1 = name then e.2.value else old) := rfl

theorem last_of_untouched (untouched : ∀ e ∈ edits, e.1 ≠ name) : edits.last name old = old := by
  induction edits with
  | nil => rfl
  | cons e rest ih =>
      rw [List.forall_mem_cons] at untouched
      rw [last_cons, if_neg untouched.1, ih untouched.2]

theorem last_through_cons : last (through (e :: edits) p) name old =
    last (through edits p) name (if e.1 = name ∧ e.2.partition = p then e.2.value else old) := by
  by_cases own : e.2.partition = p <;> simp [through, own]

/-- Where all calls for a name fill one partition, it is theirs alone. -/
theorem last_through (one : ∀ e ∈ edits, e.1 = name → e.2.partition = p) :
    last (through edits p) name old = edits.last name old := by
  induction edits generalizing old with
  | nil => rfl
  | cons e rest ih =>
      rw [List.forall_mem_cons] at one
      rw [last_through_cons, last_cons, ih one.2]
      by_cases same : e.1 = name
      · rw [if_pos ⟨same, one.1 same⟩, if_pos same]
      · rw [if_neg fun h => same h.1, if_neg same]

end Edits

/-! ### What a field shows -/

/-- What a partition holds for a name, as the value it stands for. -/
def held? (a : Atom) (name : String) : Bool → Partition → Option Value
  | false, .ints => (a.ints.get? name).map .integer
  | false, .uints => (a.uints.get? name).map .uinteger
  | false, .floats => (a.floats.get? name).map .float
  | false, .strings => (a.strings.get? name).map .string
  | false, .bools => (a.bools.get? name).map .bool
  | false, .bytes => (a.bytes.get? name).map bytesValue
  | false, .composites => a.composites.get? name
  | true, .ints => (a.nullableInts.get? name).map fun i => orNull (i.map .integer)
  | true, .uints => (a.nullableUInts.get? name).map fun u => orNull (u.map .uinteger)
  | true, .floats => (a.nullableFloats.get? name).map fun x => orNull (x.map .float)
  | true, .strings => (a.nullableStrings.get? name).map fun s => orNull (s.map .string)
  | true, .bools => (a.nullableBools.get? name).map fun b => orNull (b.map .bool)
  | true, .bytes => (a.nullableBytes.get? name).map fun b => orNull (b.map bytesValue)
  | true, .composites => (a.nullableComposites.get? name).map orNull

/-- What a partition holds for a field, null if that is nothing. -/
def half (a : Atom) (f : FieldSpec) (p : Partition) : Value :=
  (a.held? f.name f.nullable p).getD .null

/-- A signed number shows before an unsigned one. -/
def joined (signed unsigned : Value) : Value :=
  if signed.isNull then unsigned else signed

@[simp] theorem joined_null (unsigned : Value) : joined .null unsigned = unsigned := rfl

@[simp] theorem joined_integer (i : Int64) (unsigned : Value) :
    joined (.integer i) unsigned = .integer i := rfl

/-- What a field maps to after setter calls if it mapped to a value before: an integer field to its
signed half as the calls left it, unless this is null, and then to its unsigned half; every other
field to what the last call gave it. -/
def settled (f : FieldSpec) (edits : Edits) (old : Value) : Value :=
  match f.kind with
  | .integer => joined (edits.signedHalf f.name old) (edits.unsignedHalf f.name old)
  | _ => edits.last f.name old

theorem settled_of_integer {f : FieldSpec} (kind : f.kind = .integer) (edits : Edits) (old : Value) :
    settled f edits old = joined (edits.signedHalf f.name old) (edits.unsignedHalf f.name old) := by
  rw [settled, kind]

theorem settled_of_other {f : FieldSpec} (other : f.kind ≠ .integer) (edits : Edits) (old : Value) :
    settled f edits old = edits.last f.name old := by
  unfold settled
  split
  · next integer => exact absurd integer other
  · rfl

variable {a b : Atom} {f : FieldSpec} {p : Partition} {e : Edit} {name : String}

theorem held?_apply_self (nullable : e.isNullable = f.nullable) :
    (e.apply a f.name).held? f.name f.nullable e.partition = some e.value := by
  rw [← nullable]
  cases e with
  | plain p content =>
      cases p <;>
        simp [Edit.apply, held?, Edit.isNullable, Edit.partition, Edit.value, Partition.value, setInt,
          setUInt, setFloat, setString, setBool, setBytes, setComposite]
  | nullable p content =>
      cases p <;> cases content <;>
        simp [Edit.apply, held?, Edit.isNullable, Edit.partition, Edit.value, Partition.value,
          setNullableInt, setNullableUInt, setNullableFloat, setNullableString, setNullableBool,
          setNullableBytes, setNullableComposite]

/-- A setter leaves the partitions alone that it is not for. -/
theorem held?_apply_of_ne (nullable : e.isNullable = f.nullable) (other : p ≠ e.partition) :
    (e.apply a name).held? f.name f.nullable p = a.held? f.name f.nullable p := by
  rw [← nullable]
  cases e with
  | plain q content => cases q <;> cases p <;> first | exact absurd rfl other | rfl
  | nullable q content => cases q <;> cases p <;> first | exact absurd rfl other | rfl

/-- A setter changes nothing under another name. -/
theorem slots_apply_of_ne {other : String} (apart : other ≠ name) :
    (e.apply a name).slots other = a.slots other := by
  cases e with
  | plain p content =>
      cases p <;>
        simp [Edit.apply, slots, setInt, setUInt, setFloat, setString, setBool, setBytes, setComposite,
          Dict.get?_insert_of_ne _ apart]
  | nullable p content =>
      cases p <;>
        simp [Edit.apply, slots, setNullableInt, setNullableUInt, setNullableFloat, setNullableString,
          setNullableBool, setNullableBytes, setNullableComposite, Dict.get?_insert_of_ne _ apart]

theorem held?_of_slots {nullable : Bool} (same : b.slots name = a.slots name) :
    b.held? name nullable p = a.held? name nullable p := by
  simp only [slots, Prod.mk.injEq] at same
  cases nullable <;> cases p <;> simp [held?, same]

/-- One setter call for a field that it suits. -/
theorem held?_apply (suits : e.Suits f) :
    (e.apply a f.name).held? f.name f.nullable p =
      if e.partition = p then some e.value else a.held? f.name f.nullable p := by
  split
  · next own =>
      subst own
      exact held?_apply_self suits.2
  · next other => exact held?_apply_of_ne suits.2 (Ne.symm other)

/-! ### Looking a field up -/

/-- An integer field is there if one of its two partitions has it, and then shows its halves joined. -/
theorem lookup?_of_integer (kind : f.kind = .integer) :
    a.lookup? f =
      if (a.held? f.name f.nullable .ints).isSome ∨ (a.held? f.name f.nullable .uints).isSome then
        some (joined (a.half f .ints) (a.half f .uints))
      else none := by
  rw [lookup?, kind]
  cases nullable : f.nullable with
  | false =>
      rw [half, half, nullable]
      cases ints : a.ints.get? f.name <;> cases uints : a.uints.get? f.name <;>
        rw [held?, held?, ints, uints] <;> rfl
  | true =>
      rw [half, half, nullable]
      rcases ints : a.nullableInts.get? f.name with _ | _ | i <;>
        rcases uints : a.nullableUInts.get? f.name with _ | _ | u <;>
        rw [held?, held?, ints, uints] <;> rfl

/-- A field of another kind has one partition. -/
theorem lookup?_of_kind (kind : p.kind = f.kind) (other : f.kind ≠ .integer) :
    a.lookup? f = a.held? f.name f.nullable p := by
  rw [lookup?]
  cases p <;> cases nullable : f.nullable <;> first
    | exact absurd kind.symm other
    | simp [held?, ← kind, Partition.kind]

theorem isSome_lookup? (kind : p.kind = f.kind) (held : (a.held? f.name f.nullable p).isSome) :
    (a.lookup? f).isSome := by
  by_cases integer : f.kind = .integer
  · rw [lookup?_of_integer integer, if_pos]
    · rfl
    · rw [integer] at kind
      cases p with
      | ints => exact .inl held
      | uints => exact .inr held
      | _ => cases kind
  · rw [lookup?_of_kind kind integer]
    exact held

/-! ### Before the edits -/

/-- A content of the kind of its field, whatever it was made from. -/
theorem takes_of_insertValue {v : Value} (made : a.insertValue f v = .ok b) :
    ∃ own, f.kind.Takes own ∧ a.insertValue f own = .ok b := by
  rw [← made]
  cases kind : f.kind
  case integer =>
    cases v with
    | integer i => exact ⟨.integer i, trivial, rfl⟩
    | uinteger u => exact ⟨.uinteger u, trivial, rfl⟩
    | _ => simp [insertValue, kind] at made
  case float =>
    cases seen : v.asFloat? with
    | some x => exact ⟨.float x, trivial, by simp only [insertValue, kind, seen]; rfl⟩
    | none => simp [insertValue, kind, seen] at made
  case string =>
    cases seen : v.asString? with
    | some s => exact ⟨.string s, trivial, by simp only [insertValue, kind, seen]; rfl⟩
    | none => simp [insertValue, kind, seen] at made
  case bool =>
    cases seen : v.asBool? with
    | some x => exact ⟨.bool x, trivial, by simp only [insertValue, kind, seen]; rfl⟩
    | none => simp [insertValue, kind, seen] at made
  case bytes =>
    cases seen : bytesOf? v with
    | some x =>
        exact ⟨bytesValue x, ⟨x, rfl⟩, by simp [insertValue, kind, seen, bytesOf?_bytesValue]⟩
    | none => simp [insertValue, kind, seen] at made
  case composite => exact ⟨v, trivial, rfl⟩

/-- An atom has a field, and of the halves of an integer field only the one that the field shows. -/
structure Has (a : Atom) (f : FieldSpec) (v : Value) : Prop where
  found : a.lookup? f = some v
  signed : f.kind = .integer → a.half f .ints = v.signed
  unsigned : f.kind = .integer → a.half f .uints = v.unsigned

theorem Has.of_slots {v : Value} (has : a.Has f v) (same : b.slots f.name = a.slots f.name) :
    b.Has f v where
  found := (lookup?_of_slots same).trans has.found
  signed kind := by rw [half, held?_of_slots same]; exact has.signed kind
  unsigned kind := by rw [half, held?_of_slots same]; exact has.unsigned kind

theorem has_insertUnset (fresh : a.Lacks f.name) (nullable : f.nullable = true) :
    (a.insertUnset f).Has f .null where
  found := (puts_insertUnset fresh nullable).found
  signed kind := by
    simp [insertUnset, half, held?, kind, nullable, orNull, setNullableInt, Value.signed]
  unsigned kind := by
    simp only [Lacks, slots, ofType, Dict.get?_empty, Prod.mk.injEq] at fresh
    simp [insertUnset, half, held?, kind, nullable, fresh, setNullableInt, Value.unsigned]

theorem has_insertValue {v : Value} (fresh : a.Lacks f.name) (takes : f.kind.Takes v)
    (made : a.insertValue f v = .ok b) (puts : a.Puts f v b) : b.Has f v := by
  suffices halves : f.kind = .integer → b.half f .ints = v.signed ∧ b.half f .uints = v.unsigned from
    ⟨puts.found, fun kind => (halves kind).1, fun kind => (halves kind).2⟩
  intro kind
  simp only [Lacks, slots, ofType, Dict.get?_empty, Prod.mk.injEq] at fresh
  rw [kind] at takes
  cases v with
  | integer i =>
      cases nullable : f.nullable <;> simp [insertValue, kind, nullable] at made <;> subst made <;>
        simp [half, held?, nullable, fresh, orNull, setInt, setNullableInt, Value.signed, Value.unsigned]
  | uinteger u =>
      cases nullable : f.nullable <;> simp [insertValue, kind, nullable] at made <;> subst made <;>
        simp [half, held?, nullable, fresh, orNull, setUInt, setNullableUInt, Value.signed,
          Value.unsigned]
  | _ => cases takes

variable {members : List (String × Value)}

/-- A field into which a member was put is there, and nothing else has changed. -/
theorem has_insertMember (fresh : a.Lacks f.name) (made : insertMember members a f = .ok b) :
    (∃ v, b.Has f v) ∧ ∀ name ≠ f.name, b.slots name = a.slots name := by
  rw [insertMember_eq_content] at made
  split at made
  · split at made
    · next nullable =>
        cases made
        exact ⟨⟨_, has_insertUnset fresh nullable⟩, (puts_insertUnset fresh nullable).others⟩
    · cases made
  · obtain ⟨own, takes, made⟩ := takes_of_insertValue made
    obtain ⟨c, also, puts⟩ := exists_insertValue fresh takes
    obtain rfl : b = c := Except.ok.inj (made.symm.trans also)
    exact ⟨⟨own, has_insertValue fresh takes made puts⟩, puts.others⟩

theorem has_foldlM_insertMember {fields : List FieldSpec} (nodup : (fields.map FieldSpec.name).Nodup)
    (fresh : ∀ f ∈ fields, a.Lacks f.name) (made : fields.foldlM (insertMember members) a = .ok b) :
    (∀ f ∈ fields, ∃ v, b.Has f v) ∧
      ∀ name ∉ fields.map FieldSpec.name, b.slots name = a.slots name := by
  induction fields generalizing a with
  | nil =>
      cases made
      exact ⟨by simp, fun _ _ => rfl⟩
  | cons f rest ih =>
      rw [List.map_cons, List.nodup_cons] at nodup
      rw [List.forall_mem_cons] at fresh
      rw [List.foldlM_cons, Fallible.bind_eq_ok_iff] at made
      obtain ⟨c, first, made⟩ := made
      obtain ⟨⟨v, has⟩, others⟩ := has_insertMember fresh.1 first
      obtain ⟨found, kept⟩ := ih nodup.2 (lacks_rest nodup.1 fresh.2 others) made
      refine ⟨?_, fun name outside => ?_⟩
      · rw [List.forall_mem_cons]
        exact ⟨⟨v, has.of_slots (kept f.name nodup.1)⟩, found⟩
      · rw [List.map_cons, List.mem_cons, not_or] at outside
        exact (kept name outside.2).trans (others name outside.1)

/-- An atom made from a value has exactly the fields that its spec declares. -/
theorem has_ofValue {spec : Spec} {v : Value} (made : ofValue spec v = .ok a) :
    (∀ f ∈ spec.fields, ∃ own, a.Has f own) ∧ ∀ name, spec.declares name = false → a.Lacks name := by
  rw [ofValue, Fallible.bind_eq_ok_iff] at made
  obtain ⟨members, _, made⟩ := made
  obtain ⟨found, kept⟩ := has_foldlM_insertMember spec.names_nodup (fun _ _ => lacks_ofType _ _) made
  refine ⟨found, fun name unknown => kept name ?_⟩
  rw [← Spec.declares_iff, unknown]
  exact Bool.false_ne_true

/-! ### The edits -/

/-- Setter calls for declared fields, each by a setter of the field's kind and nullability. -/
def Edits.Suit (edits : Edits) (spec : Spec) : Prop :=
  ∀ e ∈ edits, ∃ f ∈ spec.fields, f.name = e.1 ∧ e.2.Suits f

variable {spec : Spec} {edits : Edits}

/-- A declared field is the only one of its name. -/
theorem Edits.Suit.suits (suit : Edits.Suit edits spec) (mem : f ∈ spec.fields) :
    ∀ e ∈ edits, e.1 = f.name → e.2.Suits f := by
  intro e called same
  obtain ⟨g, also, named, suits⟩ := suit e called
  obtain rfl : g = f :=
    List.inj_on_of_nodup_map spec.names_nodup also mem (named.trans same)
  exact suits

/-- The halves of a field after setter calls that suit it: each what the last call through it gave. -/
theorem half_edited (suits : ∀ e ∈ edits, e.1 = f.name → e.2.Suits f) :
    (a.edited edits).half f p = (edits.through p).last f.name (a.half f p) := by
  induction edits generalizing a with
  | nil => rfl
  | cons e rest ih =>
      rw [List.forall_mem_cons] at suits
      show ((e.2.apply a e.1).edited rest).half f p = _
      rw [ih suits.2, Edits.last_through_cons]
      congr 1
      by_cases same : e.1 = f.name
      · rw [half, same, held?_apply (suits.1 same)]
        by_cases own : e.2.partition = p
        · simp [own]
        · simp [own, half]
      · rw [half, held?_of_slots (slots_apply_of_ne (Ne.symm same)), if_neg fun h => same h.1]
        rfl

/-- No setter takes a field away. -/
theorem isSome_lookup?_edited (suits : ∀ e ∈ edits, e.1 = f.name → e.2.Suits f)
    (found : (a.lookup? f).isSome) : ((a.edited edits).lookup? f).isSome := by
  induction edits generalizing a with
  | nil => exact found
  | cons e rest ih =>
      rw [List.forall_mem_cons] at suits
      refine ih suits.2 ?_
      by_cases same : e.1 = f.name
      · have own := suits.1 same
        refine isSome_lookup? own.1 ?_
        dsimp only
        rw [same, held?_apply own, if_pos rfl]
        rfl
      · rw [lookup?_of_slots (slots_apply_of_ne (Ne.symm same))]
        exact found

theorem slots_edited (untouched : ∀ e ∈ edits, e.1 ≠ name) :
    (a.edited edits).slots name = a.slots name := by
  induction edits generalizing a with
  | nil => rfl
  | cons e rest ih =>
      rw [List.forall_mem_cons] at untouched
      exact (ih untouched.2).trans (slots_apply_of_ne (Ne.symm untouched.1))

theorem FieldKind.exists_partition (kind : FieldKind) : ∃ p : Partition, p.kind = kind := by
  cases kind with
  | integer => exact ⟨.ints, rfl⟩
  | float => exact ⟨.floats, rfl⟩
  | string => exact ⟨.strings, rfl⟩
  | bool => exact ⟨.bools, rfl⟩
  | bytes => exact ⟨.bytes, rfl⟩
  | composite => exact ⟨.composites, rfl⟩

theorem Partition.eq_of_kind {p q : Partition} (same : p.kind = q.kind) (other : q.kind ≠ .integer) :
    p = q := by
  cases p <;> cases q <;> first | rfl | exact absurd rfl other | cases same

theorem lookup?_edited {old : Value} (has : a.Has f old)
    (suits : ∀ e ∈ edits, e.1 = f.name → e.2.Suits f) :
    (a.edited edits).lookup? f = some (settled f edits old) := by
  have found : ((a.edited edits).lookup? f).isSome :=
    isSome_lookup?_edited suits (by rw [has.found]; rfl)
  by_cases integer : f.kind = .integer
  · rw [lookup?_of_integer integer] at found ⊢
    split at found
    · next there =>
        rw [if_pos there, half_edited suits, half_edited suits, has.signed integer,
          has.unsigned integer, settled_of_integer integer]
        rfl
    · cases found
  · obtain ⟨p, kind⟩ := FieldKind.exists_partition f.kind
    have before : a.half f p = old := by
      rw [half, ← lookup?_of_kind kind integer, has.found]
      rfl
    have one : ∀ e ∈ edits, e.1 = f.name → e.2.partition = p := fun e called same =>
      Partition.eq_of_kind ((suits e called same).1.trans kind.symm) (kind ▸ integer)
    obtain ⟨v, shown⟩ := Option.isSome_iff_exists.1 found
    have after : v = (a.edited edits).half f p := by
      rw [half, ← lookup?_of_kind kind integer, shown]
      rfl
    rw [shown, after, half_edited suits, before, Edits.last_through one, settled_of_other integer]

/-! ### Which edits reach the record -/

/-- An integer field shows what the last setter call for it gave: a signed number always, a number above
their range only if the signed half is unset, and that it is unset only if both halves are. -/
def Edits.Show (edits : Edits) (f : FieldSpec) (old : Value) : Prop :=
  (∃ i, edits.last f.name old = .integer i) ∨
    edits.signedHalf f.name old = .null ∧
      (edits.last f.name old = .null → edits.unsignedHalf f.name old = .null)

/-- Three values: what the last setter call for an integer field gave, and the halves of the field. -/
structure Halves (latest signed unsigned : Value) : Prop where
  isSigned : signed.signed = signed
  isUnsigned : unsigned.unsigned = unsigned
  isHalf : latest = signed ∨ latest = unsigned

theorem Has.joined {old : Value} (has : a.Has f old) (kind : f.kind = .integer) :
    joined old.signed old.unsigned = old := by
  have found := has.found
  rw [lookup?_of_integer kind] at found
  split at found
  · rw [← has.signed kind, ← has.unsigned kind]
    exact Option.some.inj found
  · cases found

theorem Has.halves {old : Value} (has : a.Has f old) (kind : f.kind = .integer) :
    Halves old old.signed old.unsigned where
  isSigned := by cases old <;> rfl
  isUnsigned := by cases old <;> rfl
  isHalf := by
    have shown := has.joined kind
    rw [Atom.joined] at shown
    split at shown
    · exact .inr shown.symm
    · exact .inl shown.symm

theorem Edit.signed_value (ints : e.partition = .ints) : e.value.signed = e.value := by
  cases e with
  | plain p content =>
      obtain rfl : p = .ints := ints
      rfl
  | nullable p content =>
      obtain rfl : p = .ints := ints
      cases content <;> rfl

theorem Edit.unsigned_value (uints : e.partition = .uints) : e.value.unsigned = e.value := by
  cases e with
  | plain p content =>
      obtain rfl : p = .uints := uints
      rfl
  | nullable p content =>
      obtain rfl : p = .uints := uints
      cases content <;> rfl

/-- Each setter call fills one half, which is then the latest. -/
theorem Edits.halves_last {latest signed unsigned : Value} (h : Halves latest signed unsigned)
    (suits : ∀ e ∈ edits, e.1 = name → e.2.partition.kind = .integer) :
    Halves (edits.last name latest) ((edits.through .ints).last name signed)
      ((edits.through .uints).last name unsigned) := by
  induction edits generalizing latest signed unsigned with
  | nil => exact h
  | cons e rest ih =>
      rw [List.forall_mem_cons] at suits
      rw [last_cons, last_through_cons, last_through_cons]
      refine ih ?_ suits.2
      by_cases same : e.1 = name
      · have integer := suits.1 same
        cases through : e.2.partition with
        | ints =>
            simp only [same, and_self, reduceCtorEq, and_false, if_true, if_false]
            exact ⟨Edit.signed_value through, h.isUnsigned, .inl rfl⟩
        | uints =>
            simp only [same, and_self, reduceCtorEq, and_false, if_true, if_false]
            exact ⟨h.isSigned, Edit.unsigned_value through, .inr rfl⟩
        | _ =>
            rw [through] at integer
            cases integer
      · simpa [same] using h

theorem Halves.joined_eq_iff {latest signed unsigned : Value} (h : Halves latest signed unsigned) :
    joined signed unsigned = latest ↔
      (∃ i, latest = .integer i) ∨ signed = .null ∧ (latest = .null → unsigned = .null) := by
  obtain ⟨isSigned, isUnsigned, isHalf⟩ := h
  cases signed with
  | null =>
      rw [joined_null]
      cases unsigned with
      | null => rcases isHalf with rfl | rfl <;> simp
      | uinteger u => rcases isHalf with rfl | rfl <;> simp
      | _ => cases isUnsigned
  | integer i =>
      rw [joined_integer]
      cases unsigned with
      | null => rcases isHalf with rfl | rfl <;> simp
      | uinteger u => rcases isHalf with rfl | rfl <;> simp
      | _ => cases isUnsigned
  | _ => cases isSigned

theorem Has.settled_of_untouched {old : Value} (has : a.Has f old)
    (untouched : ∀ e ∈ edits, e.1 ≠ f.name) : settled f edits old = old := by
  by_cases integer : f.kind = .integer
  · have none (p : Partition) : ∀ e ∈ edits.through p, e.1 ≠ f.name :=
      fun e called => untouched e (List.mem_of_mem_filter called)
    rw [settled_of_integer integer, Edits.signedHalf, Edits.unsignedHalf,
      Edits.last_of_untouched (none .ints), Edits.last_of_untouched (none .uints)]
    exact has.joined integer
  · rw [settled_of_other integer, Edits.last_of_untouched untouched]

theorem Has.settled_eq_last_iff {old : Value} (has : a.Has f old)
    (suits : ∀ e ∈ edits, e.1 = f.name → e.2.Suits f) :
    settled f edits old = edits.last f.name old ↔ (f.kind = .integer → edits.Show f old) := by
  by_cases integer : f.kind = .integer
  · have halves := Edits.halves_last (has.halves integer)
      fun e called same => ((suits e called same).1).trans integer
    rw [settled_of_integer integer]
    exact halves.joined_eq_iff.trans ⟨fun h _ => h, fun h => h integer⟩
  · exact ⟨fun _ is => absurd is integer, fun _ => settled_of_other integer edits old⟩

theorem toValue_edited_eq (found : ∀ f ∈ spec.fields, ∃ v, a.Has f v)
    (lacks : ∀ name, spec.declares name = false → a.Lacks name) (suit : edits.Suit spec) :
    (a.edited edits).toValue spec =
      .ok (spec.recordOf fun f => settled f edits ((a.lookup? f).getD .null)) := by
  refine toValue_of_lookup? (fun name unknown => ?_) fun f mem => ?_
  · refine (slots_edited fun e called same => ?_).trans (lacks name unknown)
    obtain ⟨g, also, named, -⟩ := suit e called
    have declared : spec.declares g.name = true := Spec.declares_iff.2 (List.mem_map_of_mem also)
    rw [named, same, unknown] at declared
    cases declared
  · obtain ⟨v, has⟩ := found f mem
    rw [lookup?_edited has (suit.suits mem), has.found, Option.getD_some]

/-- What an atom that was made from a value is put together to after setter calls for declared fields,
each by a setter of the field's kind and nullability. A field without a call maps to what it mapped to
before; a field with calls maps to what the last one gave it, except for an integer field in whose other
half an earlier call, or the value that the atom was made from, has left a number that hides it. -/
theorem toValue_edited {v : Value} (made : ofValue spec v = .ok a) (suit : edits.Suit spec) :
    ∃ before : FieldSpec → Value,
      a.toValue spec = .ok (spec.recordOf before) ∧
      (a.edited edits).toValue spec = .ok (spec.recordOf fun f => settled f edits (before f)) ∧
      ∀ f ∈ spec.fields,
        ((∀ e ∈ edits, e.1 ≠ f.name) → settled f edits (before f) = before f) ∧
        (settled f edits (before f) = edits.last f.name (before f) ↔
          (f.kind = .integer → edits.Show f (before f))) := by
  obtain ⟨found, lacks⟩ := has_ofValue made
  have has : ∀ f ∈ spec.fields, a.Has f ((a.lookup? f).getD .null) := by
    intro f mem
    obtain ⟨v, has⟩ := found f mem
    rwa [has.found, Option.getD_some]
  exact ⟨fun f => (a.lookup? f).getD .null,
    toValue_of_lookup? lacks fun f mem => (has f mem).found,
    toValue_edited_eq found lacks suit, fun f mem =>
    ⟨(has f mem).settled_of_untouched, (has f mem).settled_eq_last_iff (suit.suits mem)⟩⟩

end Atom

namespace Counters

def keyField : FieldSpec := (FieldSpec.plain "id" .string).asKey

def hitsField : FieldSpec := .plain "hits" .integer

def spec : Spec where
  typeName := "Counter"
  package := ""
  fields := [keyField, hitsField]
  key := keyField
  names_ne := by decide
  names_nodup := by decide
  columns_nodup := by decide
  keys_eq := rfl
  key_nullable := rfl

def counter (hits : Value) : Value := .map [("hits", hits), ("id", .string "c")]

/-- A counter with five hits as an atom. -/
def five : Atom := ((Atom.ofType "Counter").setString "id" "c").setInt "hits" 5

/-- Sets a number of hits above the range of signed numbers. -/
def huge : String × Atom.Edit := ("hits", .plain .uints 18446744073709551615)

def seven : String × Atom.Edit := ("hits", .plain .ints 7)

theorem ofValue_five : Atom.ofValue spec (counter (.integer 5)) = .ok five := rfl

theorem suit {edits : Atom.Edits} (known : ∀ e ∈ edits, e = huge ∨ e = seven) : edits.Suit spec := by
  intro e called
  refine ⟨hitsField, by simp [spec], ?_⟩
  rcases known e called with rfl | rfl <;> exact ⟨rfl, rfl, rfl⟩

theorem recordOf_spec (content : FieldSpec → Value) : spec.recordOf content =
    .map [("hits", content hitsField), ("id", content keyField)] := by
  have below : "hits" < "id" := by decide
  simp [Spec.recordOf, Value.ofDict, Dict.ofList, Entries.arrange, Entries.insert, spec, hitsField,
    keyField, FieldSpec.plain, FieldSpec.asKey, below]

/-- A counter with five hits after setter calls. -/
theorem toValue_edited_five (edits : Atom.Edits) (known : ∀ e ∈ edits, e = huge ∨ e = seven) :
    (five.edited edits).toValue spec = .ok (spec.recordOf fun f =>
      Atom.settled f edits ((five.lookup? f).getD .null)) :=
  have has := Atom.has_ofValue ofValue_five
  Atom.toValue_edited_eq has.1 has.2 (suit known)

end Counters

theorem Atom.toValue_edited_counters :
    Atom.ofValue Counters.spec (Counters.counter (.integer 5)) = .ok Counters.five ∧
      Edits.Suit [Counters.huge, Counters.seven] Counters.spec ∧
      (Counters.five.edited [Counters.huge, Counters.seven]).toValue Counters.spec =
        .ok (Counters.counter (.integer 7)) := by
  have suit : Edits.Suit [Counters.huge, Counters.seven] Counters.spec := Counters.suit (by simp)
  refine ⟨Counters.ofValue_five, suit, ?_⟩
  obtain ⟨before, whole, edited, -⟩ := Atom.toValue_edited Counters.ofValue_five suit
  have unedited : Counters.five.toValue Counters.spec = .ok (Counters.counter (.integer 5)) :=
    Counters.toValue_edited_five [] (by simp)
  have held := Except.ok.inj (whole.symm.trans unedited)
  rw [Counters.recordOf_spec] at held
  simp only [Counters.counter, Value.map.injEq, List.cons.injEq, Prod.mk.injEq, true_and, and_true] at held
  rw [edited, Counters.recordOf_spec, held.1, held.2]
  rfl

/-- A counter keeps the number of hits it was made with: the number that the last call gave, above the
range of signed numbers, is hidden by it. -/
theorem Atom.edit_hidden_by_signed_half :
    Atom.ofValue Counters.spec (Counters.counter (.integer 5)) = .ok Counters.five ∧
      Edits.Suit [Counters.huge] Counters.spec ∧
      (Counters.five.edited [Counters.huge]).toValue Counters.spec =
        .ok (Counters.counter (.integer 5)) ∧
      Edits.last [Counters.huge] "hits" (.integer 5) = .uinteger 18446744073709551615 :=
  ⟨Counters.ofValue_five, Counters.suit (by simp), Counters.toValue_edited_five _ (by simp), rfl⟩

end Depot
