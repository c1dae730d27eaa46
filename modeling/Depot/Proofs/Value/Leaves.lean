import Depot.Proofs.Value.Arrange

/-!
# Values changed at their leaves

A format may not know every kind of value and change what it does not know, at every depth. What it
changes are the leaves of the tree: its shape, and with it the nesting of containers and the order of
members, stays (`nesting_mapLeaves`, `ordered_mapLeaves`).
-/

namespace Depot.Value

mutual

/-- The value with a function applied to everything in it that is no container. -/
def mapLeaves (f : Value → Value) : Value → Value
  | array items => array (mapItems f items)
  | map members => map (mapMembers f members)
  | v => f v

def mapItems (f : Value → Value) : List Value → List Value
  | [] => []
  | v :: rest => v.mapLeaves f :: mapItems f rest

def mapMembers (f : Value → Value) : List (String × Value) → List (String × Value)
  | [] => []
  | (k, v) :: rest => (k, v.mapLeaves f) :: mapMembers f rest

end

variable {f : Value → Value}

theorem keys_mapMembers (f : Value → Value) (members : List (String × Value)) :
    (mapMembers f members).map Prod.fst = members.map Prod.fst := by
  induction members with
  | nil => rfl
  | cons m rest ih =>
      obtain ⟨k, v⟩ := m
      rw [mapMembers, List.map_cons, List.map_cons, ih]

mutual

theorem ordered_mapLeaves (h : ∀ v, v.Ordered → (f v).Ordered) :
    ∀ v : Value, v.Ordered → (v.mapLeaves f).Ordered
  | array items, ordered => ordered_mapItems h items ordered
  | map members, ordered =>
      ⟨ordered.1.of_keys (keys_mapMembers f members), ordered_mapMembers h members ordered.2⟩
  | null, ordered => h null ordered
  | bool b, ordered => h (bool b) ordered
  | integer i, ordered => h (integer i) ordered
  | uinteger u, ordered => h (uinteger u) ordered
  | float x, ordered => h (float x) ordered
  | string s, ordered => h (string s) ordered
  | bytes b, ordered => h (bytes b) ordered

theorem ordered_mapItems (h : ∀ v, v.Ordered → (f v).Ordered) :
    ∀ items : List Value, OrderedItems items → OrderedItems (mapItems f items)
  | [], _ => trivial
  | v :: rest, ordered => ⟨ordered_mapLeaves h v ordered.1, ordered_mapItems h rest ordered.2⟩

theorem ordered_mapMembers (h : ∀ v, v.Ordered → (f v).Ordered) :
    ∀ members : List (String × Value), OrderedMembers members →
      OrderedMembers (mapMembers f members)
  | [], _ => trivial
  | (_, v) :: rest, ordered => ⟨ordered_mapLeaves h v ordered.1, ordered_mapMembers h rest ordered.2⟩

end

mutual

theorem nesting_mapLeaves (h : ∀ v, (f v).nesting = v.nesting) :
    ∀ v : Value, (v.mapLeaves f).nesting = v.nesting
  | array items => by rw [mapLeaves, nesting, nesting, nesting_mapItems h items]
  | map members => by rw [mapLeaves, nesting, nesting, nesting_mapMembers h members]
  | null => h null
  | bool b => h (bool b)
  | integer i => h (integer i)
  | uinteger u => h (uinteger u)
  | float x => h (float x)
  | string s => h (string s)
  | bytes b => h (bytes b)

theorem nesting_mapItems (h : ∀ v, (f v).nesting = v.nesting) :
    ∀ items : List Value, nestingItems (mapItems f items) = nestingItems items
  | [] => rfl
  | v :: rest => by
      rw [mapItems, nestingItems, nestingItems, nesting_mapLeaves h v, nesting_mapItems h rest]

theorem nesting_mapMembers (h : ∀ v, (f v).nesting = v.nesting) :
    ∀ members : List (String × Value), nestingMembers (mapMembers f members) = nestingMembers members
  | [] => rfl
  | (_, v) :: rest => by
      rw [mapMembers, nestingMembers, nestingMembers, nesting_mapLeaves h v,
        nesting_mapMembers h rest]

end

/-! ### Whole numbers in the kind that fits them -/

/-- An unsigned number within the range of the signed ones becomes the equal signed one. -/
def narrowLeaf : Value → Value
  | uinteger u => if u.toNat < 2 ^ 63 then integer (.ofInt u.toNat) else uinteger u
  | v => v

/-- The value with every whole number in the kind that fits it; all else is kept. -/
def narrow (v : Value) : Value := v.mapLeaves narrowLeaf

theorem ofUInt64_eq_narrowLeaf (u : UInt64) : ofUInt64 u = narrowLeaf (uinteger u) := by
  rw [ofUInt64, narrowLeaf]
  by_cases small : u.toNat < 2 ^ 63
  · rw [if_pos small, if_pos (show u.toNat ≤ integerMax from Nat.le_of_lt_succ small)]
  · rw [if_neg small, if_neg (show ¬u.toNat ≤ integerMax from fun h => small (Nat.lt_succ_of_le h))]

theorem ordered_narrowLeaf {v : Value} (ordered : v.Ordered) : (narrowLeaf v).Ordered := by
  rw [narrowLeaf.eq_def]
  split
  · split <;> trivial
  · exact ordered

theorem nesting_narrowLeaf (v : Value) : (narrowLeaf v).nesting = v.nesting := by
  rw [narrowLeaf.eq_def]
  split
  · split <;> rfl
  · rfl

theorem ordered_narrow {v : Value} (ordered : v.Ordered) : v.narrow.Ordered :=
  ordered_mapLeaves (fun _ => ordered_narrowLeaf) v ordered

end Depot.Value
