import Depot.Proofs.Relational.Acceptance
import Depot.Proofs.Relational.Comparison
import Depot.Proofs.Value.Merging

/-!
# Rows that hold the same value

Keys, unique columns and conditions take values for the same that are loosely equal. A valid table keeps
its rows apart in that sense, pair by pair, so if the relation were transitive no value could be the same
as what two rows hold. It is so but for floats that merge whole numbers (`sameness_of_values`): two rows
may be kept under different whole numbers, and a query for the float that both are rounded to finds them
both (`rounded_key_finds_two`).
-/

namespace Depot

namespace Value

theorem not_null_of_looseEqual {a v : Value} (same : a.looseEqual v = true) (someV : v.isNull = false) :
    a.isNull = false := by
  cases a with
  | null =>
      cases v with
      | null => exact someV
      | _ => cases same
  | _ => rfl

end Value

namespace Relational

/-- Only a float is the same as what two rows of a valid table hold where rows are told apart, and it is
by merging them. -/
theorem Table.Valid.exists_merges {t : Table} (valid : t.Valid) {f : FieldSpec} (mem : f ∈ t.spec.fields)
    (distinguishes : Distinguishes f) {i j : Nat} {a b : Row} (ne : i ≠ j) (foundA : t.rows[i]? = some a)
    (foundB : t.rows[j]? = some b) {v : Value} (someV : v.isNull = false)
    (sameA : (Row.cell a f.column).looseEqual v = true)
    (sameB : (Row.cell b f.column).looseEqual v = true) :
    ∃ x, v = .float x ∧ Value.Merges x (Row.cell a f.column) (Row.cell b f.column) := by
  have apart := valid.apart f mem distinguishes i j a b ne foundA foundB
    (Value.not_null_of_looseEqual sameA someV) (Value.not_null_of_looseEqual sameB someV)
  by_contra unmerged
  have same := (Value.looseEqual_trans_iff sameA ((Value.looseEqual_comm _ _).trans sameB)).2 unmerged
  exact Bool.false_ne_true (apart.symm.trans same)

/-- **Sameness of values.** A value is the same as itself exactly if there is no NaN in it, and two values
are the same either way round. Two values that are the same as a third are the same as each other, unless
the third is a float that merges them; and if the merged whole numbers are in their own kinds, they are at
least `2 ^ 53` from zero. So, where a valid table tells its rows apart, no value is the same as what two
rows hold, unless it is a float that merges their cells. -/
theorem sameness_of_values (a b c : Value) :
    (a.looseEqual a = true ↔ a.hasNaN = false) ∧
      a.looseEqual b = b.looseEqual a ∧
      (a.looseEqual b = true → b.looseEqual c = true →
        (a.looseEqual c = true ↔ ¬ ∃ x, b = .float x ∧ Value.Merges x a c)) ∧
      (∀ x, Value.Merges x a c → a.Plain → c.Plain →
        2 ^ 53 ≤ a.whole.natAbs ∧ 2 ^ 53 ≤ c.whole.natAbs) ∧
      ∀ t : Table, t.Valid → ∀ f ∈ t.spec.fields, Distinguishes f →
        ∀ (i j : Nat) (first second : Row), i ≠ j → t.rows[i]? = some first → t.rows[j]? = some second →
          b.isNull = false → (Row.cell first f.column).looseEqual b = true →
            (Row.cell second f.column).looseEqual b = true →
              ∃ x, b = .float x ∧
                Value.Merges x (Row.cell first f.column) (Row.cell second f.column) :=
  ⟨Value.looseEqual_self_iff a, Value.looseEqual_comm a b, Value.looseEqual_trans_iff,
    fun _ => Value.two_pow_le_of_merges,
    fun _ valid _ mem distinguishes _ _ _ _ ne atFirst atSecond someB sameFirst sameSecond =>
      valid.exists_merges mem distinguishes ne atFirst atSecond someB sameFirst sameSecond⟩

end Relational

namespace Orders

open Relational

/-- `2 ^ 53`, which a float has exactly. -/
def exactKey : Int64 := 9007199254740992

/-- The next whole number, which is rounded to the same float. -/
def roundedKey : Int64 := 9007199254740993

/-- Two orders, one under each key. -/
def crowded : List Row := [totalling exactKey (.integer 1), totalling roundedKey (.integer 1)]

def crowdedTable : Table := { spec, rows := crowded, version := 2 }

theorem valid_crowdedTable : crowdedTable.Valid := by
  have first : ({ spec } : Table).upsert (totalling exactKey (.integer 1)) =
      .ok { spec, rows := [totalling exactKey (.integer 1)], version := 1 } := rfl
  have second : Table.upsert { spec, rows := [totalling exactKey (.integer 1)], version := 1 }
      (totalling roundedKey (.integer 1)) = .ok crowdedTable := rfl
  exact ((Table.Valid.empty spec).upsert first).upsert second

/-- The orders whose key is as a parameter says. -/
def underKey (param : String) : Query := { conditions := [.compare "id" .eq param] }

/-- The float that both keys are rounded to. -/
def between : Value := .float (.ofInt (2 ^ 53))

end Orders

namespace Relational

theorem sameness_of_values_crowded :
    ∃ x, Orders.between = .float x ∧ Value.Merges x (.integer Orders.exactKey) (.integer Orders.roundedKey) ∧
      2 ^ 53 ≤ (Value.integer Orders.roundedKey).whole.natAbs ∧
      (Value.integer Orders.exactKey).looseEqual (.integer Orders.roundedKey) = false := by
  obtain ⟨-, -, transitive, far, rows⟩ :=
    sameness_of_values (.integer Orders.exactKey) Orders.between (.integer Orders.roundedKey)
  have first : (Value.integer Orders.exactKey).looseEqual Orders.between = true := by decide +kernel
  have second : (Value.integer Orders.roundedKey).looseEqual Orders.between = true := by decide +kernel
  obtain ⟨x, float, merges⟩ := rows Orders.crowdedTable Orders.valid_crowdedTable Orders.spec.key
    Orders.spec.key_mem (.inl rfl) 0 1 _ _ (by decide) rfl rfl rfl first second
  have apart := (transitive first ((Value.looseEqual_comm _ _).trans second)).not.2
    fun unmerged => unmerged ⟨x, float, merges⟩
  exact ⟨x, float, merges, (far x merges trivial trivial).2, Bool.eq_false_of_not_eq_true apart⟩

/-- Two orders are saved under different keys. The key of each is equal to the float that both are rounded
to, and a query for that float finds them both. -/
theorem rounded_key_finds_two :
    (Orders.crowded.forM (Connection.executor.upsert Orders.context Orders.table.table) Orders.opened) =
        (.ok (), Orders.holding Orders.crowded) ∧
      (Value.integer Orders.exactKey).looseEqual Orders.between = true ∧
      Orders.between.looseEqual (.integer Orders.roundedKey) = true ∧
      (Value.integer Orders.exactKey).looseEqual (.integer Orders.roundedKey) = false ∧
      ∃ q, (Orders.underKey "key").bind Orders.spec (.ofList [("key", Orders.between)]) = .ok q ∧
        (Connection.executor.query Orders.context Orders.table.table q
          (Orders.holding Orders.crowded)).1 = .ok Orders.crowded := by
  have first : (Value.integer Orders.exactKey).looseEqual Orders.between = true := by decide +kernel
  have second : Orders.between.looseEqual (.integer Orders.roundedKey) = true := by decide +kernel
  let q : BoundQuery := { predicate := .all [.compare "id" .eq Orders.between] }
  have live : (Orders.holding Orders.crowded).refusal? Orders.context = none := rfl
  have seen : RecordTable.seen? Orders.table.table (Orders.holding Orders.crowded) =
      some Orders.crowdedTable := rfl
  have both : Orders.crowdedTable.query q = Orders.crowded := by
    have all : ∀ row ∈ Orders.crowded, q.predicate.holds row = true := by decide +kernel
    show Row.sortBy [] (Orders.crowded.filter _) = _
    rw [List.filter_eq_self.2 all]
    rfl
  obtain ⟨s', answer, -⟩ := Connection.query_of_seen live seen q
  rw [both] at answer
  exact ⟨rfl, first, second, rfl, q, rfl, congrArg Prod.fst answer⟩

end Relational

end Depot
