import Mathlib.Data.UInt
import Depot.Codec
import Depot.Proofs.MessagePack.Forms
import Depot.Proofs.MessagePack.Streams
import Depot.Proofs.Value.Leaves

/-!
# Round trip over MessagePack

A value that was written is read back with whole numbers in the kind that fits them (`Value.narrow`)
and nothing else changed, whatever stands behind it. What the reader takes is exactly what the writer
gave, so bytes that were cut off are refused: had a value been found in them, it would be found in
all of them with bytes left over.
-/

namespace Depot

namespace Value

mutual

/-- Every text, byte string, array, map and key in the value has a length below `2 ^ 32`. -/
def Short : Value → Prop
  | string s => (Text.Utf8.encode s).length < 2 ^ 32
  | bytes b => b.length < 2 ^ 32
  | array items => items.length < 2 ^ 32 ∧ ShortItems items
  | map members => members.length < 2 ^ 32 ∧ ShortMembers members
  | _ => True

def ShortItems : List Value → Prop
  | [] => True
  | v :: rest => v.Short ∧ ShortItems rest

def ShortMembers : List (String × Value) → Prop
  | [] => True
  | (k, v) :: rest => (Text.Utf8.encode k).length < 2 ^ 32 ∧ v.Short ∧ ShortMembers rest

end

end Value

namespace MessagePack

mutual

/-- A written value is read back narrowed, whatever stands behind it. -/
theorem readValue?_write : ∀ (v : Value) {nesting : Nat}, v.nesting ≤ nesting → v.Short →
    ∀ rest, readValue? nesting (write v ++ rest) = some (v.narrow, rest)
  | .null, _, _, _, rest => readValue?_of_readScalar? rfl
  | .bool false, _, _, _, rest => readValue?_of_readScalar? rfl
  | .bool true, _, _, _, rest => readValue?_of_readScalar? rfl
  | .integer i, _, _, _, rest => readValue?_writeInt i _ rest
  | .uinteger u, _, _, _, rest => by
      rw [write, readValue?_writeNat u.toNat_lt, UInt64.ofNat_toNat, Value.ofUInt64_eq_narrowLeaf]
      rfl
  | .float x, _, _, _, rest => by
      have small : x.bits.toNat < 256 ^ 8 := x.bits.toNat_lt
      rw [write, List.cons_append]
      apply readValue?_of_readScalar?
      show readScalar? .float64 _ = _
      rw [readScalar?, takeNat?_bigEndian 8 small, Option.map_some]
      dsimp only
      rw [UInt64.ofNat_toNat]
      rfl
  | .string s, _, _, short, rest => by
      rw [write, writeString, List.append_assoc, readValue?_stringHeader short, textValue_encode]
      rfl
  | .bytes b, _, _, short, rest => by
      rw [write, List.append_assoc, readValue?_binaryHeader short]
      rfl
  | .array items, 0, deep, _, _ => by simp [Value.nesting] at deep
  | .array items, nesting + 1, deep, short, rest => by
      rw [write, List.append_assoc, readValue?_arrayHeader short.1,
        readItems?_writeItems items (Nat.le_of_succ_le_succ deep) short.2]
      rfl
  | .map members, 0, deep, _, _ => by simp [Value.nesting] at deep
  | .map members, nesting + 1, deep, short, rest => by
      rw [write, List.append_assoc, readValue?_mapHeader short.1,
        readMembers?_writeMembers members (Nat.le_of_succ_le_succ deep) short.2]
      rfl

theorem readItems?_writeItems : ∀ (items : List Value) {nesting : Nat},
    Value.nestingItems items ≤ nesting → Value.ShortItems items →
    ∀ rest, readItems? (readValue? nesting) items.length (writeItems items ++ rest) =
      some (Value.mapItems Value.narrowLeaf items, rest)
  | [], _, _, _, _ => rfl
  | v :: items, _, deep, short, rest => by
      rw [writeItems, List.append_assoc]
      exact readItems?_succ
        (readValue?_write v (Nat.le_trans (Nat.le_max_left ..) deep) short.1 _)
        (readItems?_writeItems items (Nat.le_trans (Nat.le_max_right ..) deep) short.2 rest)

theorem readMembers?_writeMembers : ∀ (members : List (String × Value)) {nesting : Nat},
    Value.nestingMembers members ≤ nesting → Value.ShortMembers members →
    ∀ rest, readMembers? (readValue? nesting) members.length (writeMembers members ++ rest) =
      some (Value.mapMembers Value.narrowLeaf members, rest)
  | [], _, _, _, _ => rfl
  | (k, v) :: members, _, deep, short, rest => by
      rw [writeMembers, List.append_assoc, List.append_assoc]
      exact readMembers?_succ (readKey?_writeString short.1 _)
        (readValue?_write v (Nat.le_trans (Nat.le_max_left ..) deep) short.2.1 _)
        (readMembers?_writeMembers members (Nat.le_trans (Nat.le_max_right ..) deep) short.2.2 rest)

end

theorem decode?_write_append {v : Value} (ordered : v.Ordered) (short : v.Short)
    (flat : v.nesting ≤ maxNesting) (tail : List UInt8) :
    decode? (write v ++ tail) = some v.narrow := by
  rw [decode?, readValue?_write v flat short, Option.map_some]
  dsimp only
  rw [Value.arrange_of_ordered _ (Value.ordered_narrow ordered)]

/-- Written bytes that are cut off are the bytes of no value. -/
theorem decode?_of_prefix {v : Value} (short : v.Short) (flat : v.nesting ≤ maxNesting)
    {front : List UInt8} (cut : front <+: write v) (proper : front ≠ write v) :
    decode? front = none := by
  rw [decode?, Option.map_eq_none_iff]
  cases found : readValue? maxNesting front with
  | none => rfl
  | some r =>
      obtain ⟨w, rest⟩ := r
      obtain ⟨missing, whole⟩ := cut
      have early := streams_readValue? maxNesting front w rest found missing
      have all := readValue?_write v flat short []
      rw [List.append_nil, ← whole, early] at all
      have used : rest ++ missing = [] := (Prod.mk.inj (Option.some.inj all)).2
      rw [(List.append_eq_nil_iff.1 used).2, List.append_nil] at whole
      exact absurd whole proper

end MessagePack

namespace Codec

/-- **Round trip over MessagePack.** A value within the limits of the format is encoded, and its bytes
are decoded to the value with narrowed whole numbers, whatever follows them. A proper prefix of the
bytes cannot be decoded. -/
theorem messagePack_round_trip (v : Value) (ordered : v.Ordered) (short : v.Short)
    (flat : v.nesting < 1024) :
    ∃ bytes, messagePack.encode v = .ok bytes ∧
      (∀ tail, messagePack.decode (bytes ++ tail) = .ok v.narrow) ∧
      ∀ front, front <+: bytes → front ≠ bytes →
        ∃ detail, messagePack.decode front = .error (.decode .messagePack detail) := by
  have within : v.nesting ≤ MessagePack.maxNesting := Nat.le_of_lt_succ flat
  refine ⟨MessagePack.write v, rfl, ?_, ?_⟩
  · intro tail
    rw [messagePack]
    dsimp only
    rw [MessagePack.decode?_write_append ordered short within]
  · intro front cut proper
    rw [messagePack]
    dsimp only
    rw [MessagePack.decode?_of_prefix short within cut proper]
    exact ⟨_, rfl⟩

/-- A map with numbers of every kind, bytes that are no text and a map within it. -/
def assorted : Value :=
  .map [
    ("big", .uinteger (2 ^ 63)),
    ("in", .map [("nan", .float .nan), ("none", .array [.null, .integer (-33)])]),
    ("raw", .bytes [0, 159, 146, 150]),
    ("small", .uinteger 5)]

theorem messagePack_round_trip_assorted :
    assorted.Ordered ∧ assorted.Short ∧ assorted.nesting < 1024 ∧
    ∃ bytes, messagePack.encode assorted = .ok bytes ∧
      (∀ tail, messagePack.decode (bytes ++ tail) = .ok assorted.narrow) ∧
      ∀ front, front <+: bytes → front ≠ bytes →
        ∃ detail, messagePack.decode front = .error (.decode .messagePack detail) := by
  have ordered : assorted.Ordered := by decide
  have short : assorted.Short := by
    simp only [assorted, Value.Short, Value.ShortMembers, Value.ShortItems, List.length_cons,
      List.length_nil]
    decide
  have flat : assorted.nesting < 1024 := by decide
  exact ⟨ordered, short, flat, messagePack_round_trip assorted ordered short flat⟩

end Codec

end Depot
