import Depot.Proofs.Number.Monotone
import Depot.Proofs.Value.Plain
import Depot.Relational.RowOrder
import Mathlib.Data.String.Basic

/-!
# When the order of cells is an order

A sort needs a comparison that is a total preorder on what it sorts (`IsPreorderOn`). The order of
cells is always reflexive, and its two sides always answer each other's opposite. Transitive it is just
on orderly cells (`isPreorderOn_orderCells_iff`): cells of one scale, nulls apart, among which no float
stands across two whole numbers, or cells of which no two are comparable and different.

Whole numbers are compared with each other exactly, and with a float by the floats they are rounded to.
So two whole numbers that are rounded to one float stand to both sides of it, although they differ.
-/

namespace Depot

/-- A comparison is a total preorder on some things: each of them is equal to itself, two compare one
way round as the opposite of the other, and what is not above passes on. -/
structure IsPreorderOn {α : Type} (cmp : α → α → Ordering) (xs : List α) : Prop where
  self : ∀ a ∈ xs, cmp a a = .eq
  swap : ∀ a ∈ xs, ∀ b ∈ xs, cmp b a = (cmp a b).swap
  trans : ∀ a ∈ xs, ∀ b ∈ xs, ∀ c ∈ xs, (cmp a b).isLE → (cmp b c).isLE → (cmp a c).isLE

namespace IsPreorderOn

variable {α β : Type} {cmp other : α → α → Ordering} {xs ys : List α} {a b c : α}

theorem mono (h : IsPreorderOn cmp xs) (sub : ∀ a ∈ ys, a ∈ xs) : IsPreorderOn cmp ys where
  self a ha := h.self a (sub a ha)
  swap a ha b hb := h.swap a (sub a ha) b (sub b hb)
  trans a ha b hb c hc := h.trans a (sub a ha) b (sub b hb) c (sub c hc)

theorem map_iff {cmp : β → β → Ordering} {f : α → β} :
    IsPreorderOn cmp (xs.map f) ↔ IsPreorderOn (fun a b => cmp (f a) (f b)) xs := by
  constructor
  · intro h
    have mem {a : α} (ha : a ∈ xs) : f a ∈ xs.map f := List.mem_map_of_mem ha
    exact ⟨fun a ha => h.self _ (mem ha), fun a ha b hb => h.swap _ (mem ha) _ (mem hb),
      fun a ha b hb c hc => h.trans _ (mem ha) _ (mem hb) _ (mem hc)⟩
  · intro h
    refine ⟨?_, ?_, ?_⟩ <;> simp only [List.forall_mem_map]
    · exact h.self
    · exact h.swap
    · exact h.trans

theorem congr (h : IsPreorderOn cmp xs) (same : ∀ a b, other a b = cmp a b) :
    IsPreorderOn other xs := by
  rwa [funext fun a => funext fun b => same a b]

/-- Strictly below what is not above something is strictly below that. -/
theorem lt_of_lt_of_le (h : IsPreorderOn cmp xs) (ha : a ∈ xs) (hb : b ∈ xs) (hc : c ∈ xs)
    (lt : cmp a b = .lt) (le : (cmp b c).isLE) : cmp a c = .lt := by
  have below : (cmp a c).isLE := h.trans a ha b hb c hc (by rw [lt]; rfl) le
  cases outcome : cmp a c with
  | lt => rfl
  | gt =>
      rw [outcome] at below
      cases below
  | eq =>
      -- then `b` would not be above `a`
      have back : (cmp c a).isLE := by
        rw [h.swap a ha c hc, outcome]
        rfl
      have against := h.trans b hb c hc a ha le back
      rw [h.swap a ha b hb, lt] at against
      cases against

theorem lt_of_le_of_lt (h : IsPreorderOn cmp xs) (ha : a ∈ xs) (hb : b ∈ xs) (hc : c ∈ xs)
    (le : (cmp a b).isLE) (lt : cmp b c = .lt) : cmp a c = .lt := by
  have below : (cmp a c).isLE := h.trans a ha b hb c hc le (by rw [lt]; rfl)
  cases outcome : cmp a c with
  | lt => rfl
  | gt =>
      rw [outcome] at below
      cases below
  | eq =>
      have back : (cmp c a).isLE := by
        rw [h.swap a ha c hc, outcome]
        rfl
      have against := h.trans c hc a ha b hb back le
      rw [h.swap b hb c hc, lt] at against
      cases against

theorem eq_of_isLE (h : IsPreorderOn cmp xs) (ha : a ∈ xs) (hb : b ∈ xs) (le : (cmp a b).isLE)
    (ge : (cmp b a).isLE) : cmp a b = .eq := by
  rw [h.swap a ha b hb] at ge
  revert le ge
  cases cmp a b <;> decide

/-- What is equal to one thing is equal to each other. -/
theorem eq_of_eq (h : IsPreorderOn cmp xs) (ha : a ∈ xs) (hb : b ∈ xs) (hc : c ∈ xs)
    (ab : cmp a b = .eq) (ac : cmp a c = .eq) : cmp b c = .eq := by
  have ba : cmp b a = .eq := by rw [h.swap a ha b hb, ab]; rfl
  have ca : cmp c a = .eq := by rw [h.swap a ha c hc, ac]; rfl
  apply h.eq_of_isLE hb hc
  · exact h.trans b hb a ha c hc (by rw [ba]; rfl) (by rw [ac]; rfl)
  · exact h.trans c hc a ha b hb (by rw [ca]; rfl) (by rw [ab]; rfl)

/-- One comparison after the other, where the first does not decide. -/
theorem andThen (h : IsPreorderOn cmp xs) (h' : IsPreorderOn other xs) :
    IsPreorderOn (fun a b => (cmp a b).then (other a b)) xs where
  self a ha := by rw [h.self a ha, h'.self a ha]; rfl
  swap a ha b hb := by rw [h.swap a ha b hb, h'.swap a ha b hb, Ordering.swap_then]
  trans a ha b hb c hc ab bc := by
    rw [Ordering.isLE_then_iff_and] at ab bc ⊢
    refine ⟨h.trans a ha b hb c hc ab.1 bc.1, ?_⟩
    rcases ab.2 with lt | le
    · exact .inl (h.lt_of_lt_of_le ha hb hc lt bc.1)
    rcases bc.2 with lt | le'
    · exact .inl (h.lt_of_le_of_lt ha hb hc ab.1 lt)
    · exact .inr (h'.trans a ha b hb c hc le le')

/-- The comparison the other way round. -/
theorem opposite (h : IsPreorderOn cmp xs) : IsPreorderOn (fun a b => (cmp a b).swap) xs where
  self a ha := by rw [h.self a ha]; rfl
  swap a ha b hb := by rw [h.swap a ha b hb]
  trans a ha b hb c hc ab bc := by
    rw [← h.swap a ha b hb] at ab
    rw [← h.swap b hb c hc] at bc
    rw [← h.swap a ha c hc]
    exact h.trans c hc b hb a ha bc ab

end IsPreorderOn

namespace Value

/-! ### Scales -/

/-- What scalars are ordered by. -/
inductive Scale
  | number
  | text
  | truth
  | bytes
deriving DecidableEq

/-- The scale on which a value has a place. Null, NaN, arrays and maps have none. -/
def scale? : Value → Option Scale
  | integer _ | uinteger _ => some .number
  | float x => if x.isNaN then none else some .number
  | string _ => some .text
  | bool _ => some .truth
  | bytes _ => some .bytes
  | null | array _ | map _ => none

theorem scale?_float_iff {x : Binary64} : (float x).scale? = some .number ↔ x.isNaN = false := by
  simp [scale?]

/-- Two values are comparable if they have their places on one scale. -/
theorem isSome_compare?_iff {a b : Value} :
    (a.compare? b).isSome ↔ ∃ k, a.scale? = some k ∧ b.scale? = some k := by
  have number (x y : Binary64) : (x.compare? y).isSome ↔ x.isNaN = false ∧ y.isNaN = false := by
    cases hx : x.isNaN <;> cases hy : y.isNaN <;> simp [Binary64.compare?, hx, hy]
  cases a <;> cases b <;>
    simp [compare?, asFloat?, scale?, number, Binary64.isNaN_ofInt, and_comm]

/-! ### Both ways round -/

theorem compareBytes_eq_compare : ∀ a b : List UInt8, compareBytes a b = compare a b
  | [], [] => rfl
  | [], _ :: _ => rfl
  | _ :: _, [] => rfl
  | x :: xs, y :: ys => by
      rw [compareBytes, compareBytes_eq_compare xs ys, List.compare_cons_cons]

theorem compareBytes_self (a : List UInt8) : compareBytes a a = .eq := by
  rw [compareBytes_eq_compare]
  exact Std.ReflCmp.compare_self

theorem compareBytes_swap (a b : List UInt8) : compareBytes b a = (compareBytes a b).swap := by
  rw [compareBytes_eq_compare, compareBytes_eq_compare]
  exact Std.OrientedCmp.eq_swap

/-- Every cell is equal to itself, comparable or not. -/
theorem orderCells_self (v : Value) : v.orderCells v = .eq := by
  have number (x : Binary64) : (x.compare? x).getD .eq = .eq := by
    rw [Binary64.compare?]
    split
    · rfl
    · show compare x.rank x.rank = .eq
      exact Std.ReflCmp.compare_self
  cases v <;> simp [orderCells, isNull, compare?, asFloat?, number, compareBytes_self]

theorem compare?_swap (a b : Value) : b.compare? a = (a.compare? b).map Ordering.swap := by
  have number (x y : Binary64) : y.compare? x = (x.compare? y).map Ordering.swap := by
    rw [Binary64.compare?, Binary64.compare?, Bool.or_comm]
    split
    · rfl
    · exact congrArg some Std.OrientedCmp.eq_swap
  cases a <;> cases b <;> first
    | rfl
    | exact number _ _
    | exact congrArg some Std.OrientedCmp.eq_swap
    | exact congrArg some (compareBytes_swap _ _)

/-- The order of two cells is the opposite of their order the other way round. -/
theorem orderCells_swap (a b : Value) : b.orderCells a = (a.orderCells b).swap := by
  rw [orderCells, orderCells]
  cases a.isNull <;> cases b.isNull
  · dsimp only
    rw [compare?_swap]
    cases a.compare? b <;> rfl
  all_goals rfl

/-! ### Nulls -/

theorem isLE_of_isNull {a : Value} (null : a.isNull = true) (b : Value) : (a.orderCells b).isLE := by
  rw [orderCells, null]
  cases b.isNull <;> rfl

/-- What is not below something that is not null is not null. -/
theorem not_null_of_isLE {a b : Value} (le : (a.orderCells b).isLE) (someA : a.isNull = false) :
    b.isNull = false := by
  cases null : b.isNull
  · rfl
  · rw [orderCells, someA, null] at le
    cases le

theorem orderCells_of_not_null {a b : Value} (ha : a.isNull = false) (hb : b.isNull = false) :
    a.orderCells b = (a.compare? b).getD .eq := by
  rw [orderCells, ha, hb]

/-! ### Within one scale -/

def isWhole : Value → Bool
  | integer _ | uinteger _ => true
  | _ => false

/-- The place of a whole number among whole numbers, the unsigned kind above the signed one. -/
def height : Value → Int
  | integer i => i.toInt
  | uinteger u => 2 ^ 63 + u.toNat
  | _ => 0

/-- The place of a number among floats. -/
def place (v : Value) : Int :=
  (v.asFloat?.getD .zero).rank

/-- Whole numbers are compared exactly. -/
theorem orderCells_of_isWhole {a b : Value} (ha : a.isWhole = true) (hb : b.isWhole = true) :
    a.orderCells b = compare a.height b.height := by
  cases a with
  | integer i =>
      cases b with
      | integer j =>
          show compareOfLessAndEq i j = compareOfLessAndEq i.toInt j.toInt
          simp only [compareOfLessAndEq, Int64.lt_iff_toInt_lt, Int64.toInt_inj]
      | uinteger u =>
          have small : i.toInt < 2 ^ 63 := i.toInt_lt
          have below : i.toInt < 2 ^ 63 + (u.toNat : Int) := by omega
          exact (Std.compare_eq_lt.2 below).symm
      | _ => cases hb
  | uinteger u =>
      cases b with
      | integer i =>
          have small : i.toInt < 2 ^ 63 := i.toInt_lt
          have below : i.toInt < 2 ^ 63 + (u.toNat : Int) := by omega
          exact (Std.compare_eq_gt.2 below).symm
      | uinteger v =>
          show compareOfLessAndEq u v =
            compareOfLessAndEq (2 ^ 63 + (u.toNat : Int)) (2 ^ 63 + (v.toNat : Int))
          simp only [compareOfLessAndEq, UInt64.lt_iff_toNat_lt, Int.add_lt_add_iff_left, Int.ofNat_lt,
            Int.add_right_inj, Int.ofNat_inj, UInt64.toNat_inj]
      | _ => cases hb
  | _ => cases ha

/-- A float is compared with any number as floats are. -/
theorem orderCells_of_not_isWhole {a b : Value} (ha : a.scale? = some .number)
    (hb : b.scale? = some .number) (real : ¬ (a.isWhole = true ∧ b.isWhole = true)) :
    a.orderCells b = compare a.place b.place := by
  have number {v : Value} (h : v.scale? = some .number) :
      v.isNull = false ∧ ∃ x, v.asFloat? = some x ∧ x.isNaN = false := by
    cases v with
    | integer i => exact ⟨rfl, _, rfl, Binary64.isNaN_ofInt _⟩
    | uinteger u => exact ⟨rfl, _, rfl, Binary64.isNaN_ofInt _⟩
    | float x => exact ⟨rfl, x, rfl, scale?_float_iff.1 h⟩
    | _ => cases h
  obtain ⟨someA, x, hx, notNaN⟩ := number ha
  obtain ⟨someB, y, hy, notNaN'⟩ := number hb
  have floats : a.compare? b = x.compare? y := by
    cases a <;> cases b <;> simp_all [compare?, isWhole, scale?]
  rw [orderCells_of_not_null someA someB, floats, Binary64.compare?, notNaN, notNaN', place, place, hx, hy]
  rfl

/-! ### Orderly cells -/

/-- A float stands across two whole numbers: it is not below the greater, as a float, and not above the
lesser. -/
def Straddles (x : Binary64) (a b : Value) : Prop :=
  a.height < b.height ∧ b.place ≤ x.rank ∧ x.rank ≤ a.place

instance (x : Binary64) (a b : Value) : Decidable (Straddles x a b) :=
  inferInstanceAs (Decidable (_ ∧ _ ∧ _))

/-- No float among the cells stands across two whole numbers among them. -/
def Unstraddled (cells : List Value) : Prop :=
  ∀ x, float x ∈ cells → ∀ a ∈ cells, ∀ b ∈ cells, a.isWhole = true → b.isWhole = true →
    ¬ Straddles x a b

/-- Cells that have an order. -/
inductive Orderly (cells : List Value) : Prop
  /-- No two of them are comparable and different. -/
  | level (h : ∀ a ∈ cells, ∀ b ∈ cells, a.isNull = false → b.isNull = false → a.orderCells b = .eq)
  /-- They are on one scale, and no float stands across two whole numbers. -/
  | scaled (k : Scale) (on : ∀ v ∈ cells, v.isNull = false → v.scale? = some k)
      (apart : Unstraddled cells)

theorem eq_of_height {a b : Value} (ha : a.isWhole = true) (hb : b.isWhole = true)
    (same : a.height = b.height) : a = b := by
  cases a with
  | integer i =>
      have small : i.toInt < 2 ^ 63 := i.toInt_lt
      cases b with
      | integer j => exact congrArg integer (Int64.toInt_inj.1 same)
      | uinteger u =>
          have same : i.toInt = 2 ^ 63 + (u.toNat : Int) := same
          omega
      | _ => cases hb
  | uinteger u =>
      cases b with
      | integer i =>
          have small : i.toInt < 2 ^ 63 := i.toInt_lt
          have same : 2 ^ 63 + (u.toNat : Int) = i.toInt := same
          omega
      | uinteger v =>
          have same : 2 ^ 63 + (u.toNat : Int) = 2 ^ 63 + (v.toNat : Int) := same
          exact congrArg uinteger (UInt64.toNat_inj.1 (by omega))
      | _ => cases hb
  | _ => cases ha

theorem scale?_of_isWhole {v : Value} (whole : v.isWhole = true) : v.scale? = some .number := by
  cases v <;> first | rfl | cases whole

/-- A number that is not whole is a float. -/
theorem exists_float {v : Value} (number : v.scale? = some .number) (real : v.isWhole = false) :
    ∃ x, v = float x := by
  cases v with
  | float x => exact ⟨x, rfl⟩
  | integer i => cases real
  | uinteger u => cases real
  | _ => cases number

section Numbers

variable {a b c : Value}

theorem isLE_iff_height (ha : a.isWhole = true) (hb : b.isWhole = true) :
    (a.orderCells b).isLE ↔ a.height ≤ b.height := by
  rw [orderCells_of_isWhole ha hb, Std.isLE_compare]

theorem isLE_iff_place (ha : a.scale? = some .number) (hb : b.scale? = some .number)
    (real : ¬ (a.isWhole = true ∧ b.isWhole = true)) :
    (a.orderCells b).isLE ↔ a.place ≤ b.place := by
  rw [orderCells_of_not_isWhole ha hb real, Std.isLE_compare]

theorem straddles_iff {x : Binary64} (hx : x.isNaN = false) (ha : a.isWhole = true)
    (hb : b.isWhole = true) :
    Straddles x a b ↔
      a.orderCells b = .lt ∧ (b.orderCells (float x)).isLE ∧ ((float x).orderCells a).isLE := by
  have number : (float x).scale? = some .number := scale?_float_iff.2 hx
  have real : ¬ (float x).isWhole = true := Bool.false_ne_true
  rw [orderCells_of_isWhole ha hb, Std.compare_eq_lt,
    isLE_iff_place (scale?_of_isWhole hb) number fun h => real h.2,
    isLE_iff_place number (scale?_of_isWhole ha) fun h => real h.1]
  rfl

/-- The order of numbers is transitive if no float among them stands across two whole ones. -/
theorem isLE_trans_number {cells : List Value} (apart : Unstraddled cells)
    (ha : a ∈ cells) (hb : b ∈ cells) (hc : c ∈ cells) (na : a.scale? = some .number)
    (nb : b.scale? = some .number) (nc : c.scale? = some .number)
    (ab : (a.orderCells b).isLE) (bc : (b.orderCells c).isLE) : (a.orderCells c).isLE := by
  have across {u v x : Value} (hu : u ∈ cells) (hv : v ∈ cells) (hx : x ∈ cells)
      (wu : u.isWhole = true) (wv : v.isWhole = true) (nx : x.scale? = some .number)
      (wx : x.isWhole = false) (below : v.place ≤ x.place) (above : x.place ≤ u.place) :
      v.height ≤ u.height := by
    obtain ⟨y, rfl⟩ := exists_float nx wx
    exact Int.not_lt.1 fun less => apart y hx u hu v hv wu wv ⟨less, below, above⟩
  have rigid {u v : Value} (wu : u.isWhole = true) (wv : v.isWhole = true) (le : u.height ≤ v.height)
      (ge : v.height ≤ u.height) : u.place = v.place := by
    rw [eq_of_height wu wv (by omega)]
  -- at most one whole number: floats are compared; three: whole numbers are; two: the float between
  -- them is compared with both
  cases wa : a.isWhole <;> cases wb : b.isWhole <;> cases wc : c.isWhole
  case true.true.true =>
    rw [isLE_iff_height wa wb] at ab
    rw [isLE_iff_height wb wc] at bc
    rw [isLE_iff_height wa wc]
    omega
  case false.true.true =>
    rw [isLE_iff_place na nb (by simp [wa])] at ab
    rw [isLE_iff_height wb wc] at bc
    rw [isLE_iff_place na nc (by simp [wa])]
    refine Int.not_lt.1 fun less => ?_
    have same := rigid wb wc bc (across hb hc ha wb wc na wa (by omega) ab)
    omega
  case true.false.true =>
    rw [isLE_iff_place na nb (by simp [wb])] at ab
    rw [isLE_iff_place nb nc (by simp [wb])] at bc
    rw [isLE_iff_height wa wc]
    exact across hc ha hb wc wa nb wb ab bc
  case true.true.false =>
    rw [isLE_iff_height wa wb] at ab
    rw [isLE_iff_place nb nc (by simp [wc])] at bc
    rw [isLE_iff_place na nc (by simp [wc])]
    refine Int.not_lt.1 fun less => ?_
    have same := rigid wa wb ab (across ha hb hc wa wb nc wc bc (by omega))
    omega
  all_goals
    rw [isLE_iff_place na nb (by simp [wa, wb])] at ab
    rw [isLE_iff_place nb nc (by simp [wb, wc])] at bc
    rw [isLE_iff_place na nc (by simp [wa, wc])]
    omega

end Numbers

theorem exists_string {v : Value} (text : v.scale? = some .text) : ∃ s, v = string s := by
  cases v <;> simp [scale?] at text ⊢

theorem exists_bool {v : Value} (truth : v.scale? = some .truth) : ∃ b, v = bool b := by
  cases v <;> simp [scale?] at truth ⊢

theorem exists_bytes {v : Value} (raw : v.scale? = some .bytes) : ∃ b, v = bytes b := by
  cases v <;> simp [scale?] at raw ⊢

/-- Places on one scale are ordered if no float among them stands across two whole numbers. -/
theorem isLE_trans_scaled {cells : List Value} {k : Scale} (apart : Unstraddled cells)
    {a b c : Value} (ha : a ∈ cells) (hb : b ∈ cells) (hc : c ∈ cells) (ka : a.scale? = some k)
    (kb : b.scale? = some k) (kc : c.scale? = some k)
    (ab : (a.orderCells b).isLE) (bc : (b.orderCells c).isLE) : (a.orderCells c).isLE := by
  cases k with
  | number => exact isLE_trans_number apart ha hb hc ka kb kc ab bc
  | text =>
      obtain ⟨s, rfl⟩ := exists_string ka
      obtain ⟨t, rfl⟩ := exists_string kb
      obtain ⟨u, rfl⟩ := exists_string kc
      exact (Std.TransCmp.isLE_trans ab bc : (compare s u).isLE)
  | truth =>
      obtain ⟨s, rfl⟩ := exists_bool ka
      obtain ⟨t, rfl⟩ := exists_bool kb
      obtain ⟨u, rfl⟩ := exists_bool kc
      exact (Std.TransCmp.isLE_trans ab bc : (compare s u).isLE)
  | bytes =>
      obtain ⟨s, rfl⟩ := exists_bytes ka
      obtain ⟨t, rfl⟩ := exists_bytes kb
      obtain ⟨u, rfl⟩ := exists_bytes kc
      have bytewise (a b : List UInt8) : (bytes a).orderCells (bytes b) = compare a b :=
        compareBytes_eq_compare a b
      rw [bytewise] at ab bc ⊢
      exact Std.TransCmp.isLE_trans ab bc

theorem Orderly.isPreorderOn {cells : List Value} (h : Orderly cells) :
    IsPreorderOn orderCells cells where
  self a _ := orderCells_self a
  swap a _ b _ := orderCells_swap a b
  trans a ha b hb c hc ab bc := by
    cases someA : a.isNull with
    | true => exact isLE_of_isNull someA c
    | false =>
        have someB := not_null_of_isLE ab someA
        have someC := not_null_of_isLE bc someB
        cases h with
        | level level => rw [level a ha c hc someA someC]; rfl
        | scaled k on apart =>
            exact isLE_trans_scaled apart ha hb hc (on a ha someA) (on b hb someB) (on c hc someC) ab bc

/-- The order of cells is a total preorder on orderly cells, and on no others. -/
theorem isPreorderOn_orderCells_iff {cells : List Value} :
    IsPreorderOn orderCells cells ↔ Orderly cells := by
  refine ⟨fun h => ?_, Orderly.isPreorderOn⟩
  by_cases level : ∀ a ∈ cells, ∀ b ∈ cells, a.isNull = false → b.isNull = false → a.orderCells b = .eq
  · exact .level level
  -- two cells differ, so one of them is below the other
  have apart : ∃ a ∈ cells, ∃ b ∈ cells, a.isNull = false ∧ b.isNull = false ∧ a.orderCells b = .lt := by
    push Not at level
    obtain ⟨a, ha, b, hb, someA, someB, differ⟩ := level
    cases order : a.orderCells b with
    | lt => exact ⟨a, ha, b, hb, someA, someB, order⟩
    | eq => exact absurd order differ
    | gt =>
        refine ⟨b, hb, a, ha, someB, someA, ?_⟩
        rw [orderCells_swap, order]
        rfl
  obtain ⟨a, ha, b, hb, someA, someB, less⟩ := apart
  have placed : (a.compare? b).isSome := by
    rw [orderCells_of_not_null someA someB] at less
    cases compared : a.compare? b with
    | none =>
        rw [compared] at less
        cases less
    | some o => rfl
  obtain ⟨k, ka, kb⟩ := isSome_compare?_iff.1 placed
  have on : ∀ v ∈ cells, v.isNull = false → v.scale? = some k := by
    intro v hv someV
    by_contra off
    -- a cell off the scale would be equal to both of them
    have level {w : Value} (kw : w.scale? = some k) (someW : w.isNull = false) :
        v.orderCells w = .eq := by
      have incomparable : v.compare? w = none := by
        rw [← Option.not_isSome_iff_eq_none, isSome_compare?_iff]
        rintro ⟨l, kv, kw'⟩
        rw [kw] at kw'
        cases kw'
        exact off kv
      rw [orderCells_of_not_null someV someW, incomparable]
      rfl
    have equal := h.eq_of_eq hv ha hb (level ka someA) (level kb someB)
    rw [less] at equal
    cases equal
  refine .scaled k on fun x hx u hu v hv wu wv straddles => ?_
  have notNaN : x.isNaN = false := by
    have placed := on (float x) hx rfl
    cases nan : x.isNaN
    · rfl
    · rw [scale?, nan] at placed
      cases placed
  obtain ⟨below, le, ge⟩ := (straddles_iff notNaN wu wv).1 straddles
  have back := h.trans v hv (float x) hx u hu le ge
  rw [orderCells_swap u v, below] at back
  cases back

/-! ### Cells of one kind -/

/-- Cells that are of one kind, nulls apart, and each comparable with its like. -/
def OneKind (cells : List Value) : Prop :=
  ∃ kind, ∀ v ∈ cells, v.isNull = false → v.kindName = kind ∧ v.scale?.isSome = true

theorem OneKind.mono {cells fewer : List Value} (h : OneKind cells) (sub : ∀ v ∈ fewer, v ∈ cells) :
    OneKind fewer :=
  h.imp fun _ alike v mem => alike v (sub v mem)

/-- The scale of a kind of scalars, by its name. -/
def Scale.ofKind (kind : String) : Scale :=
  if kind = "string" then .text
  else if kind = "bool" then .truth
  else if kind = "bytes" then .bytes
  else .number

theorem scale?_of_isSome {v : Value} (placed : v.scale?.isSome = true) :
    v.scale? = some (.ofKind v.kindName) := by
  cases v with
  | float x => exact scale?_float_iff.2 (by simpa [scale?] using placed)
  | _ => first | rfl | cases placed

theorem OneKind.orderly {cells : List Value} (h : OneKind cells) : Orderly cells := by
  obtain ⟨kind, alike⟩ := h
  refine .scaled (.ofKind kind) (fun v hv someV => ?_) fun x hx a ha b hb wa wb => ?_
  · obtain ⟨named, placed⟩ := alike v hv someV
    rw [scale?_of_isSome placed, named]
  · -- a float and a whole number are not of one kind
    have float := (alike _ hx rfl).1
    have whole := (alike a ha (by cases a <;> first | rfl | cases wa)).1
    rw [← float] at whole
    cases a <;> first | exact absurd wa Bool.false_ne_true | simp [kindName] at whole

/-- The cell is below another one of its kind. Null is below all others. Whole numbers are ordered by
value, with the unsigned kind above the signed one, floats by their places on the number line, texts and
byte strings lexicographically; and false is below true. -/
def isBelow : Value → Value → Bool
  | null, b => !b.isNull
  | integer i, integer j => i < j
  | uinteger u, uinteger v => u < v
  | integer _, uinteger _ => true
  | float x, float y => x.rank < y.rank
  | string s, string t => s < t
  | bool a, bool b => !a && b
  | bytes a, bytes b => a < b
  | _, _ => false

theorem compareBytes_eq_lt_iff : ∀ {a b : List UInt8}, compareBytes a b = .lt ↔ a < b
  | [], [] => by simp [compareBytes]
  | [], _ :: _ => by simp [compareBytes]
  | _ :: _, [] => by simp [compareBytes]
  | x :: xs, y :: ys => by
      rw [compareBytes, List.cons_lt_cons_iff, Ordering.then_eq_lt, compareBytes_eq_lt_iff,
        Std.compare_eq_lt, Std.LawfulEqCmp.compare_eq_iff_eq]

theorem isBelow_null (a : Value) : a.isBelow null = false := by
  cases a <;> rfl

/-- Two cells of one kind are ordered as the lower one says. -/
theorem orderCells_eq_lt_iff {a b : Value} (h : OneKind [a, b]) :
    a.orderCells b = .lt ↔ a.isBelow b = true := by
  cases someA : a.isNull with
  | true =>
      obtain rfl := isNull_eq_true_iff.1 someA
      rw [orderCells, isBelow, someA]
      cases b.isNull <;> simp
  | false =>
    cases someB : b.isNull with
    | true =>
        obtain rfl := isNull_eq_true_iff.1 someB
        rw [orderCells, isBelow_null, someA, someB]
        simp
    | false =>
      obtain ⟨kind, alike⟩ := h
      obtain ⟨rfl, placed⟩ := alike a (by simp) someA
      obtain ⟨same, placed'⟩ := alike b (by simp) someB
      cases a with
      | integer i =>
          cases b with
          | integer j => exact Std.compare_eq_lt.trans decide_eq_true_iff.symm
          | uinteger u => exact iff_of_true rfl rfl
          | _ => simp [kindName] at same
      | uinteger u =>
          cases b with
          | integer j => exact iff_of_false Ordering.noConfusion Bool.false_ne_true
          | uinteger v => exact Std.compare_eq_lt.trans decide_eq_true_iff.symm
          | _ => simp [kindName] at same
      | float x =>
          cases b with
          | float y =>
              have compared : (float x).orderCells (float y) = compare x.rank y.rank := by
                show (x.compare? y).getD .eq = _
                rw [Binary64.compare?, scale?_float_iff.1 (scale?_of_isSome placed),
                  scale?_float_iff.1 (scale?_of_isSome placed')]
                rfl
              rw [compared]
              exact Std.compare_eq_lt.trans decide_eq_true_iff.symm
          | _ => simp [kindName] at same
      | string s =>
          cases b with
          | string t => exact compare_lt_iff_lt.trans decide_eq_true_iff.symm
          | _ => simp [kindName] at same
      | bool a =>
          cases b with
          | bool b => cases a <;> cases b <;> decide
          | _ => simp [kindName] at same
      | bytes a =>
          cases b with
          | bytes b => exact compareBytes_eq_lt_iff.trans decide_eq_true_iff.symm
          | _ => simp [kindName] at same
      | null => cases placed
      | array items => cases placed
      | map members => cases placed

end Value

end Depot
