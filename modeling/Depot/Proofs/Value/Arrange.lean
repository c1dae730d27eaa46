import Depot.Proofs.Dict.Lookup
import Depot.Value.Interchange

/-!
# Values that are arranged already

Codecs arrange the members of what they read, and a value whose members are in order at every depth
is not changed by that. A form of a value that keeps the keys keeps the order.
-/

namespace Depot

theorem Entries.arrange_of_ordered {α : Type} {entries : Entries α} (h : entries.Ordered) :
    entries.arrange = entries :=
  (Entries.ordered_arrange entries).ext h fun key => Dict.get?_ofList h.nodup key

/-- Whether keys rise is a matter of the keys alone. -/
theorem Entries.Ordered.of_keys {α β : Type} {as : Entries α} {bs : Entries β} (h : as.Ordered)
    (same : bs.map Prod.fst = as.map Prod.fst) : bs.Ordered := by
  have rising : (as.map Prod.fst).Pairwise (· < ·) := by
    rw [List.pairwise_map]
    exact h
  rw [← same, List.pairwise_map] at rising
  exact rising

namespace Value

mutual

/-- A value whose members are in order is arranged already. -/
theorem arrange_of_ordered : ∀ v : Value, v.Ordered → v.arrange = v
  | array items, h => by rw [arrange, arrangeItems_of_ordered items h]
  | map members, h => by
      rw [arrange, arrangeMembers_of_ordered members h.2, Entries.arrange_of_ordered h.1]
  | null, _ => rfl
  | bool _, _ => rfl
  | integer _, _ => rfl
  | uinteger _, _ => rfl
  | float _, _ => rfl
  | string _, _ => rfl
  | bytes _, _ => rfl

theorem arrangeItems_of_ordered : ∀ items : List Value, OrderedItems items → arrangeItems items = items
  | [], _ => rfl
  | v :: rest, h => by
      rw [arrangeItems, arrange_of_ordered v h.1, arrangeItems_of_ordered rest h.2]

theorem arrangeMembers_of_ordered :
    ∀ members : List (String × Value), OrderedMembers members → arrangeMembers members = members
  | [], _ => rfl
  | (k, v) :: rest, h => by
      rw [arrangeMembers, arrange_of_ordered v h.1, arrangeMembers_of_ordered rest h.2]

end

instance {α : Type} (entries : Entries α) : Decidable entries.Ordered :=
  inferInstanceAs (Decidable (List.Pairwise _ _))

mutual

instance decidableOrdered : ∀ v : Value, Decidable v.Ordered
  | array items => decidableOrderedItems items
  | map members => @instDecidableAnd _ _ _ (decidableOrderedMembers members)
  | null => isTrue trivial
  | bool _ => isTrue trivial
  | integer _ => isTrue trivial
  | uinteger _ => isTrue trivial
  | float _ => isTrue trivial
  | string _ => isTrue trivial
  | bytes _ => isTrue trivial

instance decidableOrderedItems : ∀ items : List Value, Decidable (OrderedItems items)
  | [] => isTrue trivial
  | v :: rest => @instDecidableAnd _ _ (decidableOrdered v) (decidableOrderedItems rest)

instance decidableOrderedMembers :
    ∀ members : List (String × Value), Decidable (OrderedMembers members)
  | [] => isTrue trivial
  | (_, v) :: rest => @instDecidableAnd _ _ (decidableOrdered v) (decidableOrderedMembers rest)

end

end Value

end Depot
