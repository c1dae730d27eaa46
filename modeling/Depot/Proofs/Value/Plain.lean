import Depot.Proofs.Value.Leaves

/-!
# Plain values

A plain value is one that JSON can say as it is. Every value has a plain form (`canonical`), which is
what the interchange form with bytes as base64 text comes to, and a plain value is its own plain form.
-/

namespace Depot.Value

/-- What JSON cannot say becomes what it can: bytes are base64 text, a number that is not finite is
null, and a whole number is of the kind that fits it. -/
def canonicalLeaf : Value → Value
  | bytes b => string (String.ofList (Text.Base64.encode b))
  | float x => if x.isFinite then float x else null
  | v => narrowLeaf v

/-- The value with everything in it that JSON cannot say replaced. -/
def canonical (v : Value) : Value := v.mapLeaves canonicalLeaf

theorem ordered_canonicalLeaf {v : Value} (ordered : v.Ordered) : (canonicalLeaf v).Ordered := by
  rw [canonicalLeaf.eq_def]
  split
  · trivial
  · split <;> trivial
  · exact ordered_narrowLeaf ordered

theorem nesting_canonicalLeaf (v : Value) : (canonicalLeaf v).nesting = v.nesting := by
  rw [canonicalLeaf.eq_def]
  split
  · rfl
  · split <;> rfl
  · exact nesting_narrowLeaf v

theorem ordered_canonical {v : Value} (ordered : v.Ordered) : v.canonical.Ordered :=
  ordered_mapLeaves (fun _ => ordered_canonicalLeaf) v ordered

theorem nesting_canonical (v : Value) : v.canonical.nesting = v.nesting :=
  nesting_mapLeaves nesting_canonicalLeaf v

mutual

theorem interchange_eq_canonical : ∀ v : Value, v.interchange .base64 = v.canonical
  | array items => congrArg array (interchangeItems_eq_mapItems items)
  | map members => congrArg map (interchangeMembers_eq_mapMembers members)
  | uinteger u => ofUInt64_eq_narrowLeaf u
  | null => rfl
  | bool _ => rfl
  | integer _ => rfl
  | float _ => rfl
  | string _ => rfl
  | bytes _ => rfl

theorem interchangeItems_eq_mapItems :
    ∀ items : List Value, interchangeItems .base64 items = mapItems canonicalLeaf items
  | [] => rfl
  | v :: rest => by
      rw [interchangeItems, interchange_eq_canonical v, interchangeItems_eq_mapItems rest]
      rfl

theorem interchangeMembers_eq_mapMembers : ∀ members : List (String × Value),
    interchangeMembers .base64 members = mapMembers canonicalLeaf members
  | [] => rfl
  | (k, v) :: rest => by
      rw [interchangeMembers, interchange_eq_canonical v, interchangeMembers_eq_mapMembers rest]
      rfl

end

mutual

/-- The value is one that JSON can say: no bytes, finite floats, and unsigned numbers only above the
range of the signed ones. -/
def Plain : Value → Prop
  | uinteger u => 2 ^ 63 ≤ u.toNat
  | float x => x.isFinite = true
  | bytes _ => False
  | array items => PlainItems items
  | map members => PlainMembers members
  | _ => True

def PlainItems : List Value → Prop
  | [] => True
  | v :: rest => v.Plain ∧ PlainItems rest

def PlainMembers : List (String × Value) → Prop
  | [] => True
  | (_, v) :: rest => v.Plain ∧ PlainMembers rest

end

mutual

theorem plain_canonical : ∀ v : Value, v.canonical.Plain
  | array items => plain_mapItems items
  | map members => plain_mapMembers members
  | uinteger u => by
      show (narrowLeaf (uinteger u)).Plain
      rw [narrowLeaf]
      split
      · trivial
      · next large => exact Nat.le_of_not_lt large
  | float x => by
      show (canonicalLeaf (float x)).Plain
      rw [canonicalLeaf]
      split
      · next finite => exact finite
      · trivial
  | bytes _ => trivial
  | null => trivial
  | bool _ => trivial
  | integer _ => trivial
  | string _ => trivial

theorem plain_mapItems : ∀ items : List Value, PlainItems (mapItems canonicalLeaf items)
  | [] => trivial
  | v :: rest => ⟨plain_canonical v, plain_mapItems rest⟩

theorem plain_mapMembers :
    ∀ members : List (String × Value), PlainMembers (mapMembers canonicalLeaf members)
  | [] => trivial
  | (_, v) :: rest => ⟨plain_canonical v, plain_mapMembers rest⟩

end

mutual

/-- A change of the leaves that keeps plain values changes nothing in a plain value. -/
theorem mapLeaves_of_plain {f : Value → Value} (keeps : ∀ v, v.Plain → f v = v) :
    ∀ v : Value, v.Plain → v.mapLeaves f = v
  | array items, h => congrArg array (mapItems_of_plain keeps items h)
  | map members, h => congrArg map (mapMembers_of_plain keeps members h)
  | uinteger u, h => keeps (uinteger u) h
  | float x, h => keeps (float x) h
  | null, h => keeps null h
  | bool b, h => keeps (bool b) h
  | integer i, h => keeps (integer i) h
  | string s, h => keeps (string s) h

theorem mapItems_of_plain {f : Value → Value} (keeps : ∀ v, v.Plain → f v = v) :
    ∀ items : List Value, PlainItems items → mapItems f items = items
  | [], _ => rfl
  | v :: rest, h => by
      rw [mapItems, mapLeaves_of_plain keeps v h.1, mapItems_of_plain keeps rest h.2]

theorem mapMembers_of_plain {f : Value → Value} (keeps : ∀ v, v.Plain → f v = v) :
    ∀ members : List (String × Value), PlainMembers members → mapMembers f members = members
  | [], _ => rfl
  | (k, v) :: rest, h => by
      rw [mapMembers, mapLeaves_of_plain keeps v h.1, mapMembers_of_plain keeps rest h.2]

end

theorem narrowLeaf_of_plain : ∀ v : Value, v.Plain → narrowLeaf v = v
  | uinteger _, h => if_neg (Nat.not_lt_of_le h)
  | null, _ | bool _, _ | integer _, _ | float _, _ | string _, _ | array _, _ | map _, _ => rfl

theorem canonicalLeaf_of_plain : ∀ v : Value, v.Plain → canonicalLeaf v = v
  | float x, h => if_pos (show x.isFinite = true from h)
  | uinteger u, h => narrowLeaf_of_plain (uinteger u) h
  | null, _ | bool _, _ | integer _, _ | string _, _ | array _, _ | map _, _ => rfl

/-- A plain value is its own plain form. -/
theorem canonical_of_plain (v : Value) (h : v.Plain) : v.canonical = v :=
  mapLeaves_of_plain canonicalLeaf_of_plain v h

/-- Whole numbers of a plain value are of the kind that fits them. -/
theorem narrow_of_plain (v : Value) (h : v.Plain) : v.narrow = v :=
  mapLeaves_of_plain narrowLeaf_of_plain v h

end Depot.Value
