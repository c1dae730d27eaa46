import Depot.Proofs.Dict.Prefix
import Depot.Proofs.KeyValue.Memory

/-!
# Listings of the key-value store in memory

A walk over the keys begins at the first key that can start with the text, passes over the cursor, and
ends at the first key that starts otherwise. It misses nothing: it lists exactly those held keys that
start with the text and are behind the cursor (`Memory.keysFrom_eq`).
-/

namespace Depot

namespace Dict

variable {α : Type}

/-- The keys that start with a text and are behind a cursor, in order. -/
def keysUnder (d : Dict α) (start : String) (cursor : Option String) : List String :=
  d.keys.filter fun key => start.toList.isPrefixOf key.toList && cursor.all fun c => c < key

theorem pairwise_keys (d : Dict α) : d.keys.Pairwise (· < ·) := by
  rw [keys, List.pairwise_map]
  exact d.ordered

theorem pairwise_keysUnder (d : Dict α) (start : String) (cursor : Option String) :
    (d.keysUnder start cursor).Pairwise (· < ·) :=
  d.pairwise_keys.filter _

theorem mem_keysUnder_iff {d : Dict α} {start key : String} {cursor : Option String} :
    key ∈ d.keysUnder start cursor ↔
      start.toList <+: key.toList ∧ (∀ c ∈ cursor, c < key) ∧ (d.get? key).isSome := by
  have behind : (cursor.all fun c => decide (c < key)) = true ↔ ∀ c ∈ cursor, c < key := by
    cases cursor <;> simp
  rw [keysUnder, List.mem_filter, mem_keys_iff, Bool.and_eq_true, List.isPrefixOf_iff_prefix, behind,
    and_comm, and_assoc]

/-- The keys behind a cursor are among all that start with the text. -/
theorem filter_keysUnder (d : Dict α) (start : String) (cursor : Option String) :
    ((d.keysUnder start none).filter fun key => cursor.all fun c => c < key) =
      d.keysUnder start cursor := by
  rw [keysUnder, keysUnder, List.filter_filter]
  simp [Bool.and_comm]

end Dict

namespace KeyValue

/-- A list cut to a limit, zero being none. -/
def upTo {α : Type} (limit : Nat) (l : List α) : List α :=
  if limit = 0 then l else l.take limit

/-- The first keys of a list up to a limit, with the last of them as cursor if more follow. -/
def Page.first (limit : Nat) (keys : List String) : Page where
  keys := upTo limit keys
  next := if 0 < limit ∧ limit < keys.length then (upTo limit keys).getLast? else none

/-- One key more than a page holds tells whether another page follows. -/
theorem Page.cut_fetched (limit : Nat) (keys : List String) :
    Page.cut limit (upTo (if limit = 0 then 0 else limit + 1) keys) = .first limit keys := by
  rcases Nat.eq_zero_or_pos limit with rfl | positive
  · rfl
  · have nonzero : limit ≠ 0 := Nat.pos_iff_ne_zero.1 positive
    rw [first, upTo, upTo, if_neg nonzero, if_neg nonzero, if_neg (Nat.succ_ne_zero limit), Page.cut]
    rcases Nat.lt_or_ge limit keys.length with long | short
    · have more : ¬ (limit = 0 ∨ (keys.take (limit + 1)).length ≤ limit) := by
        rw [List.length_take]
        omega
      rw [if_neg more, if_pos ⟨positive, long⟩, List.take_take, Nat.min_eq_left (Nat.le_succ limit)]
    · rw [List.take_of_length_le (Nat.le_succ_of_le short), if_pos (.inr short),
        if_neg (by omega), List.take_of_length_le short]

namespace Memory

variable {start : String} {cursor : Option String}

/-- The walk passes over a front part of the keys. -/
theorem isBefore_of_lt {a b : String} (lt : a < b) (h : isBefore start cursor b = true) :
    isBefore start cursor a = true := by
  cases cursor with
  | none =>
      simp only [isBefore, decide_eq_true_eq] at h ⊢
      exact String.lt_trans lt h
  | some c =>
      simp only [isBefore] at h ⊢
      split
      · next le =>
          rw [if_pos le, decide_eq_true_eq] at h
          rw [decide_eq_true_eq]
          exact Std.le_trans (Std.le_of_lt lt) h
      · next notLe =>
          rw [if_neg notLe, decide_eq_true_eq] at h
          rw [decide_eq_true_eq]
          exact String.lt_trans lt h

/-- Where the walk has begun, no key is before the text it should start with. -/
theorem not_lt_of_isBefore {key : String} (h : isBefore start cursor key = false) : ¬ key < start := by
  cases cursor with
  | none => exact of_decide_eq_false h
  | some c =>
      rw [isBefore] at h
      split at h
      · next le =>
          have behind := Std.not_le.1 (of_decide_eq_false h)
          exact Std.not_lt.2 (Std.le_of_lt (Std.lt_of_le_of_lt le behind))
      · exact of_decide_eq_false h

/-- Of the keys that start with the text, the walk passes over those that are not behind the
cursor. -/
theorem isBefore_of_isPrefix {key : String} (front : start.toList <+: key.toList) :
    isBefore start cursor key = !(cursor.all fun c => c < key) := by
  have low : ¬ key < start := not_lex_of_isPrefix front
  cases cursor with
  | none => exact decide_eq_false low
  | some c =>
      rw [isBefore, Option.all_some]
      split
      · rw [← decide_not]
        exact decide_eq_decide.2 Std.not_lt.symm
      · next notLe =>
          have behind : c < key := Std.lt_of_lt_of_le (Std.not_le.1 notLe) (Std.not_lt.1 low)
          rw [decide_eq_false low, decide_eq_true behind]
          rfl

/-- The walk lists the held keys that start with the text and are behind the cursor. -/
theorem keysFrom_eq (m : Memory) (now : Time) (start : String) (cursor : Option String)
    (limit : Nat) :
    m.keysFrom now start cursor limit = upTo limit ((m.purge now).entries.keysUnder start cursor) := by
  have walked := m.entries.walk_eq_filter start (isBefore start cursor) isBefore_of_lt
    not_lt_of_isBefore
  rw [keysFrom, walked]
  show upTo limit _ = _
  congr 1
  rw [Dict.keysUnder, Dict.keys, List.filter_map, List.filter_filter, purge, Dict.filter,
    List.filter_filter]
  congr 1
  apply List.filter_congr
  intro e _
  cases front : start.toList.isPrefixOf e.1.toList with
  | false => simp [front]
  | true =>
      rw [isBefore_of_isPrefix (List.isPrefixOf_iff_prefix.1 front)]
      simp [front, Bool.and_comm]

end Memory

end KeyValue

end Depot
