import Depot.Proofs.Relational.Table
import Depot.Proofs.Value.Compare

/-!
# Rows under discrete keys

Among texts and whole numbers being equal is being the same, which it is not for floats. A table all of
whose keys are of that sort, no two of them the same (`Table.Keyed`), is a finite map from keys to rows:
an upsert sets the row of its key (`find?_upsert`), a delete removes it (`find?_delete`), and what is
under another key stays.
-/

namespace Depot

namespace Relational

/-! ### The first row that satisfies a predicate -/

section

variable {α : Type} {p q : α → Bool} {xs : List α} {i : Nat} {x y : α}

theorem find?_set_of_findIdx? (found : xs.findIdx? p = some i) (hx : p x = true) :
    (xs.set i x).find? p = some x := by
  induction xs generalizing i with
  | nil => cases found
  | cons first rest ih =>
      rw [List.findIdx?_cons] at found
      cases passes : p first with
      | true =>
          rw [passes, if_pos rfl, Option.some.injEq] at found
          subst found
          exact List.find?_cons_of_pos hx
      | false =>
          rw [passes, if_neg Bool.false_ne_true, Option.map_eq_some_iff] at found
          obtain ⟨j, found, rfl⟩ := found
          rw [List.set_cons_succ, List.find?_cons_of_neg (by simp [passes])]
          exact ih found

theorem find?_set_of_not (held : xs[i]? = some y) (hy : q y = false) (hx : q x = false) :
    (xs.set i x).find? q = xs.find? q := by
  induction xs generalizing i with
  | nil => cases held
  | cons first rest ih =>
      cases i with
      | zero =>
          cases held
          rw [List.set_cons_zero, List.find?_cons_of_neg (by simp [hx]),
            List.find?_cons_of_neg (by simp [hy])]
      | succ j =>
          rw [List.set_cons_succ, List.find?_cons, List.find?_cons, ih held]

theorem find?_eraseIdx_of_not (held : xs[i]? = some y) (hy : q y = false) :
    (xs.eraseIdx i).find? q = xs.find? q := by
  induction xs generalizing i with
  | nil => cases held
  | cons first rest ih =>
      cases i with
      | zero =>
          cases held
          rw [List.eraseIdx_cons_zero, List.find?_cons_of_neg (by simp [hy])]
      | succ j => rw [List.eraseIdx_cons_succ, List.find?_cons, List.find?_cons, ih held]

end

namespace Table

variable {t after : Table} {row normal : Row} {key v : Value}

/-- The cell by which a row is addressed. -/
def keyCell (t : Table) (row : Row) : Value := Row.cell row t.keyColumn

/-- The keys of the rows are texts or whole numbers, all of them distinct. -/
structure Keyed (t : Table) : Prop where
  discrete : ∀ row ∈ t.rows, (t.keyCell row).isDiscrete = true
  nodup : (t.rows.map t.keyCell).Nodup

/-- Whether a row is the one that a key addresses. -/
def addresses (t : Table) (key : Value) (row : Row) : Bool :=
  match row.get? t.keyColumn with
  | some v => v.looseEqual key
  | none => false

theorem find?_eq (t : Table) (key : Value) : t.find? key = t.rows.find? (t.addresses key) := by
  rw [List.find?_eq_bind_findIdx?_getElem?]
  rfl

theorem addresses_iff (discrete : key.isDiscrete = true) (own : (t.keyCell row).isDiscrete = true) :
    t.addresses key row = true ↔ t.keyCell row = key := by
  rw [keyCell, Row.cell] at own ⊢
  rw [addresses]
  cases held : row.get? t.keyColumn with
  | none =>
      rw [held] at own
      cases own
  | some v =>
      rw [held] at own
      exact Value.looseEqual_iff_eq own discrete

/-- A row at the place of a key has that key. -/
theorem exists_of_position? (h : t.Keyed) (discrete : key.isDiscrete = true) {i : Nat}
    (found : t.position? key = some i) : ∃ row, t.rows[i]? = some row ∧ t.keyCell row = key := by
  obtain ⟨lt, passes, _⟩ := List.findIdx?_eq_some_iff_getElem.1 found
  have mem : t.rows[i] ∈ t.rows := List.getElem_mem lt
  exact ⟨t.rows[i], List.getElem?_eq_getElem lt,
    (addresses_iff discrete (h.discrete _ mem)).1 passes⟩

/-- Without a place for a key no row has it. -/
theorem ne_of_position?_eq_none (h : t.Keyed) (discrete : key.isDiscrete = true)
    (missing : t.position? key = none) : ∀ row ∈ t.rows, t.keyCell row ≠ key := by
  intro row mem same
  have passes := List.findIdx?_eq_none_iff.1 missing row mem
  have addressed := (addresses_iff discrete (h.discrete row mem)).2 same
  exact Bool.false_ne_true (passes.symm.trans addressed)

/-- A row put in the place of its key is found there, and what is under other keys stays. -/
theorem find?_place (h : t.Keyed) (own : (t.keyCell normal).isDiscrete = true)
    (discrete : v.isDiscrete = true) :
    (t.place (t.position? (t.keyCell normal)) normal).bump.find? v =
      if (t.keyCell normal).equal v then some normal else t.find? v := by
  rw [find?_eq, find?_eq]
  have test : (t.place (t.position? (t.keyCell normal)) normal).bump.addresses v = t.addresses v := by
    cases t.position? (t.keyCell normal) <;> rfl
  rw [test]
  by_cases same : t.keyCell normal = v
  · have hit := (addresses_iff discrete own).2 same
    rw [if_pos ((Value.equal_iff_eq own).2 same)]
    cases place : t.position? (t.keyCell normal) with
    | some i =>
        subst same
        exact find?_set_of_findIdx? place hit
    | none =>
        have absent : t.rows.find? (t.addresses v) = none := by
          rw [List.find?_eq_none]
          intro row mem passes
          have met := (addresses_iff discrete (h.discrete row mem)).1 passes
          exact ne_of_position?_eq_none h own place row mem (met.trans same.symm)
        show (t.rows ++ [normal]).find? (t.addresses v) = some normal
        rw [List.find?_append, absent, Option.none_or, List.find?_cons_of_pos hit]
  · have miss : t.addresses v normal = false := by
      rw [Bool.eq_false_iff]
      exact fun passes => same ((addresses_iff discrete own).1 passes)
    rw [if_neg fun equal => same ((Value.equal_iff_eq own).1 equal)]
    cases place : t.position? (t.keyCell normal) with
    | some i =>
        obtain ⟨old, held, met⟩ := exists_of_position? h own place
        refine find?_set_of_not held ?_ miss
        rw [Bool.eq_false_iff]
        intro passes
        have mem := List.mem_of_getElem? held
        exact same (met.symm.trans ((addresses_iff discrete (h.discrete old mem)).1 passes))
    | none =>
        show (t.rows ++ [normal]).find? (t.addresses v) = _
        rw [List.find?_append, List.find?_cons_of_neg (by simp [miss]), List.find?_nil, Option.or_none]

theorem Keyed.place (h : t.Keyed) (own : (t.keyCell normal).isDiscrete = true) :
    (t.place (t.position? (t.keyCell normal)) normal).bump.Keyed := by
  cases place : t.position? (t.keyCell normal) with
  | none =>
      have absent := ne_of_position?_eq_none h own place
      constructor
      · intro row mem
        rcases List.mem_append.1 mem with mem | mem
        · exact h.discrete row mem
        · rw [List.mem_singleton.1 mem]
          exact own
      · show ((t.rows ++ [normal]).map t.keyCell).Nodup
        rw [List.map_append, List.nodup_append]
        refine ⟨h.nodup, List.nodup_cons.2 ⟨List.not_mem_nil, List.nodup_nil⟩, ?_⟩
        intro a ha b hb same
        obtain ⟨row, mem, rfl⟩ := List.mem_map.1 ha
        exact absent row mem (same.trans (List.mem_singleton.1 hb))
  | some i =>
      obtain ⟨old, held, met⟩ := exists_of_position? h own place
      constructor
      · intro row mem
        rcases List.mem_or_eq_of_mem_set mem with mem | rfl
        · exact h.discrete row mem
        · exact own
      · -- the row takes the place of one with the same key
        show ((t.rows.set i normal).map t.keyCell).Nodup
        rw [List.map_set, ← met]
        have unchanged : (t.rows.map t.keyCell).set i (t.keyCell old) = t.rows.map t.keyCell := by
          obtain ⟨lt, same⟩ := List.getElem?_eq_some_iff.1 held
          rw [← same, ← List.getElem_map t.keyCell (h := by simpa using lt), List.set_getElem_self]
        rw [unchanged]
        exact h.nodup

/-- A deleted row is not found any more, and what is under other keys stays. -/
theorem find?_delete (h : t.Keyed) (own : key.isDiscrete = true) (discrete : v.isDiscrete = true)
    (deleted : t.delete? key = some after) :
    after.find? v = if key.equal v then none else t.find? v := by
  obtain ⟨i, place, rfl⟩ := delete?_eq_some_iff.1 deleted
  obtain ⟨old, held, met⟩ := exists_of_position? h own place
  rw [find?_eq, find?_eq]
  show (t.rows.eraseIdx i).find? (t.addresses v) = _
  by_cases same : key = v
  · subst same
    rw [if_pos ((Value.equal_iff_eq own).2 rfl), List.find?_eq_none]
    intro row mem passes
    obtain ⟨j, ne, found⟩ := List.mem_eraseIdx_iff_getElem?.1 mem
    have also := (addresses_iff discrete (h.discrete row (List.mem_of_getElem? found))).1 passes
    -- two places with one key
    have first : (t.rows.map t.keyCell)[i]? = some key := by
      rw [List.getElem?_map, held, Option.map_some, met]
    have second : (t.rows.map t.keyCell)[j]? = some key := by
      rw [List.getElem?_map, found, Option.map_some, also]
    obtain ⟨lt, _⟩ := List.getElem?_eq_some_iff.1 second
    exact ne ((List.getElem?_inj lt h.nodup).1 (second.trans first.symm))
  · rw [if_neg fun equal => same ((Value.equal_iff_eq own).1 equal)]
    apply find?_eraseIdx_of_not held
    rw [Bool.eq_false_iff]
    intro passes
    have mem := List.mem_of_getElem? held
    exact same (met.symm.trans ((addresses_iff discrete (h.discrete old mem)).1 passes))

theorem Keyed.delete (h : t.Keyed) (deleted : t.delete? key = some after) : after.Keyed := by
  obtain ⟨i, _, rfl⟩ := delete?_eq_some_iff.1 deleted
  constructor
  · intro row mem
    exact h.discrete row ((List.eraseIdx_sublist t.rows i).subset mem)
  · exact h.nodup.sublist ((List.eraseIdx_sublist t.rows i).map t.keyCell)

/-- A table without rows. -/
theorem keyed_of_rows_eq_nil (empty : t.rows = []) : t.Keyed where
  discrete row mem := by
    rw [empty] at mem
    cases mem
  nodup := by rw [empty]; exact List.nodup_nil

end Table

end Relational

end Depot
