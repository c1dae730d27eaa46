import Depot.MessagePack.Reader
import Depot.MessagePack.Writer
import Depot.Value.Interchange

/-!
# Reading what was written

Each form that the writer chooses is read back, whatever stands behind it: numbers on both sides of
every bound of width and sign, and texts, byte strings, keys and containers under each of their
headers. A lemma is stated for the writer's function as a whole, so the bounds of the two sides
meet here and nowhere else.
-/

namespace Depot.MessagePack

theorem ofBigEndian_append (xs ys : List UInt8) :
    ofBigEndian (xs ++ ys) = ofBigEndian xs * 256 ^ ys.length + ofBigEndian ys := by
  have folded (zs : List UInt8) (n : Nat) :
      zs.foldl (fun n b => 256 * n + b.toNat) n = n * 256 ^ zs.length + ofBigEndian zs := by
    induction zs generalizing n with
    | nil => simp [ofBigEndian]
    | cons z zs ih =>
        rw [ofBigEndian, List.foldl_cons, List.foldl_cons, ih, ih (256 * 0 + z.toNat)]
        simp only [List.length_cons, Nat.pow_succ]
        grind
  rw [ofBigEndian, List.foldl_append]
  exact folded ys _

@[simp] theorem length_bigEndian (width n : Nat) : (bigEndian width n).length = width := by
  simp [bigEndian]

theorem bigEndian_succ (width n : Nat) :
    bigEndian (width + 1) n = bigEndian width (n / 256) ++ [.ofNat n] := by
  rw [bigEndian, bigEndian, List.range_succ, List.map_append]
  congr 1
  · apply List.map_congr_left
    intro i mem
    have below := List.mem_range.1 mem
    have shift : width + 1 - 1 - i = (width - 1 - i) + 1 := by omega
    rw [shift, Nat.pow_succ, Nat.mul_comm, Nat.div_div_eq_div_mul]
  · simp

theorem ofBigEndian_bigEndian {width n : Nat} (small : n < 256 ^ width) :
    ofBigEndian (bigEndian width n) = n := by
  induction width generalizing n with
  | zero => simp_all [bigEndian, ofBigEndian]
  | succ width ih =>
      have below : n / 256 < 256 ^ width := by
        apply Nat.div_lt_of_lt_mul
        rwa [Nat.mul_comm, ← Nat.pow_succ]
      rw [bigEndian_succ, ofBigEndian_append, ih below]
      simp [ofBigEndian]
      omega

theorem take?_append (front rest : List UInt8) :
    take? front.length (front ++ rest) = some (front, rest) := by
  simp [take?]

theorem takeNat?_bigEndian (width : Nat) {n : Nat} (small : n < 256 ^ width) (rest : List UInt8) :
    takeNat? width (bigEndian width n ++ rest) = some (n, rest) := by
  have front := take?_append (bigEndian width n) rest
  rw [length_bigEndian] at front
  rw [takeNat?, front, Option.map_some]
  dsimp only
  rw [ofBigEndian_bigEndian small]

theorem takeInt?_bigEndian (width : Nat) {i : Int} (wide : 0 < width)
    (low : -2 ^ (8 * width - 1) ≤ i) (negative : i < 0) (rest : List UInt8) :
    takeInt? width (bigEndian width (2 ^ (8 * width) + i).toNat ++ rest) = some (i, rest) := by
  have cast (k : Nat) : (2 : Int) ^ k = ((2 ^ k : Nat) : Int) := by simp
  have full : 256 ^ width = 2 ^ (8 * width) := by rw [Nat.pow_mul]
  have double : 2 ^ (8 * width) = 2 ^ (8 * width - 1) * 2 := by
    rw [← Nat.pow_succ]
    congr 1
    omega
  rw [cast] at low
  rw [takeInt?, cast, takeNat?_bigEndian width, Option.map_some]
  · dsimp only
    generalize 2 ^ (8 * width) = n at *
    generalize 2 ^ (8 * width - 1) = half at *
    rw [if_neg (by omega)]
    congr 2
    omega
  · rw [full]
    omega

/-! ### Forms -/

theorem toNat_ofNat_of_lt {n : Nat} (small : n < 256) : (UInt8.ofNat n).toNat = n := by
  simp [Nat.mod_eq_of_lt small]

theorem ofByte_nat {n : Nat} (small : n < 128) :
    Form.ofByte (.ofNat n) = .value (.integer (.ofInt n)) := by
  rw [Form.ofByte, toNat_ofNat_of_lt (by omega)]
  simp [small]

theorem ofByte_negative {n : Nat} (low : 224 ≤ n) (small : n < 256) :
    Form.ofByte (.ofNat n) = .value (.integer (.ofInt ((n : Int) - 256))) := by
  rw [Form.ofByte, toNat_ofNat_of_lt (by omega)]
  simp [show ¬ n < 128 by omega, show ¬ n < 144 by omega, show ¬ n < 160 by omega,
    show ¬ n < 192 by omega, low]

theorem ofByte_map {n : Nat} (small : n < 16) : Form.ofByte (.ofNat (0x80 + n)) = .map n := by
  rw [Form.ofByte, toNat_ofNat_of_lt (by omega)]
  simp [show 128 + n < 144 by omega]

theorem ofByte_array {n : Nat} (small : n < 16) : Form.ofByte (.ofNat (0x90 + n)) = .array n := by
  rw [Form.ofByte, toNat_ofNat_of_lt (by omega)]
  simp [show ¬ 144 + n < 128 by omega, show 144 + n < 160 by omega]

theorem ofByte_string {n : Nat} (small : n < 32) : Form.ofByte (.ofNat (0xa0 + n)) = .string n := by
  rw [Form.ofByte, toNat_ofNat_of_lt (by omega)]
  simp [show ¬ 160 + n < 128 by omega, show ¬ 160 + n < 144 by omega, show 160 + n < 192 by omega]

/-! ### Scalars -/

theorem readValue?_of_readScalar? {nesting : Nat} {b : UInt8} {rest : List UInt8}
    {r : Value × List UInt8} (h : readScalar? (Form.ofByte b) rest = some r) :
    readValue? nesting (b :: rest) = some r := by
  cases nesting with
  | zero => exact h
  | succ nesting =>
      rw [readValue?]
      dsimp only
      split
      · next form => simp [form, readScalar?] at h
      · next form => simp [form, readScalar?] at h
      · next form => simp [form, readScalar?] at h
      · next form => simp [form, readScalar?] at h
      · exact h

theorem ofUInt64_of_le {n : Nat} (le : n ≤ Value.integerMax) :
    Value.ofUInt64 (.ofNat n) = .integer (.ofInt n) := by
  have same : (UInt64.ofNat n).toNat = n := by
    rw [Value.integerMax] at le
    simp
    omega
  rw [Value.ofUInt64, same, if_pos le]

theorem readScalar?_nat (width : Nat) {n : Nat} (small : n < 256 ^ width) (rest : List UInt8) :
    readScalar? (.nat width) (bigEndian width n ++ rest) = some (.ofUInt64 (.ofNat n), rest) := by
  rw [readScalar?, takeNat?_bigEndian width small, Option.map_some]

theorem readScalar?_int (width : Nat) {i : Int} (wide : 0 < width)
    (low : -2 ^ (8 * width - 1) ≤ i) (negative : i < 0) (rest : List UInt8) :
    readScalar? (.int width) (bigEndian width (2 ^ (8 * width) + i).toNat ++ rest) =
      some (.integer (.ofInt i), rest) := by
  rw [readScalar?, takeInt?_bigEndian width wide low negative, Option.map_some]

theorem readValue?_writeNat {n : Nat} (small : n < 2 ^ 64) (nesting : Nat) (rest : List UInt8) :
    readValue? nesting (writeNat n ++ rest) = some (.ofUInt64 (.ofNat n), rest) := by
  rw [writeNat]
  split
  · next tiny =>
      apply readValue?_of_readScalar?
      rw [ofByte_nat tiny, ofUInt64_of_le (by rw [Value.integerMax]; omega)]
      rfl
  · split
    · exact readValue?_of_readScalar? (readScalar?_nat 1 (by omega) rest)
    · split
      · exact readValue?_of_readScalar? (readScalar?_nat 2 (by omega) rest)
      · split
        · exact readValue?_of_readScalar? (readScalar?_nat 4 (by omega) rest)
        · exact readValue?_of_readScalar? (readScalar?_nat 8 (by omega) rest)

theorem readValue?_writeNegative {i : Int} (low : -2 ^ 63 ≤ i) (negative : i < 0) (nesting : Nat)
    (rest : List UInt8) :
    readValue? nesting (writeNegative i ++ rest) = some (.integer (.ofInt i), rest) := by
  rw [writeNegative]
  split
  · apply readValue?_of_readScalar?
    rw [ofByte_negative (by omega) (by omega), readScalar?]
    congr 4
    omega
  · split
    · exact readValue?_of_readScalar? (readScalar?_int 1 (by decide) (by omega) negative rest)
    · split
      · exact readValue?_of_readScalar? (readScalar?_int 2 (by decide) (by omega) negative rest)
      · split
        · exact readValue?_of_readScalar? (readScalar?_int 4 (by decide) (by omega) negative rest)
        · exact readValue?_of_readScalar? (readScalar?_int 8 (by decide) (by omega) negative rest)

theorem readValue?_writeInt (i : Int64) (nesting : Nat) (rest : List UInt8) :
    readValue? nesting (writeInt i.toInt ++ rest) = some (.integer i, rest) := by
  have low := i.le_toInt
  have high := i.toInt_lt
  rw [writeInt]
  split
  · next nonneg =>
      rw [readValue?_writeNat (by omega), ofUInt64_of_le (by rw [Value.integerMax]; omega)]
      rw [Int.toNat_of_nonneg nonneg, Int64.ofInt_toInt]
  · next negative =>
      rw [readValue?_writeNegative low (by omega), Int64.ofInt_toInt]

/-! ### Texts and byte strings -/

@[simp] theorem textValue_encode (s : String) : textValue (Text.Utf8.encode s) = .string s := by
  rw [textValue, Text.Utf8.decode?_encode]

theorem readScalar?_sizedString (width : Nat) {size : Nat} (small : size < 256 ^ width)
    {bytes : List UInt8} (length : bytes.length = size) (rest : List UInt8) :
    readScalar? (.sizedString width) (bigEndian width size ++ (bytes ++ rest)) =
      some (textValue bytes, rest) := by
  subst length
  rw [readScalar?, takeNat?_bigEndian width small]
  dsimp only [Option.bind_eq_bind, Option.bind_some]
  rw [take?_append]
  rfl

theorem readValue?_stringHeader {bytes : List UInt8} (short : bytes.length < 2 ^ 32) (nesting : Nat)
    (rest : List UInt8) :
    readValue? nesting (stringHeader bytes.length ++ (bytes ++ rest)) =
      some (textValue bytes, rest) := by
  rw [stringHeader]
  split
  · next tiny =>
      rw [List.cons_append, List.nil_append]
      apply readValue?_of_readScalar?
      rw [ofByte_string tiny, readScalar?, take?_append]
      rfl
  · split
    · exact readValue?_of_readScalar? (readScalar?_sizedString 1 (by omega) rfl rest)
    · split
      · exact readValue?_of_readScalar? (readScalar?_sizedString 2 (by omega) rfl rest)
      · exact readValue?_of_readScalar? (readScalar?_sizedString 4 (by omega) rfl rest)

theorem readScalar?_sizedBinary (width : Nat) {size : Nat} (small : size < 256 ^ width)
    {bytes : List UInt8} (length : bytes.length = size) (rest : List UInt8) :
    readScalar? (.sizedBinary width) (bigEndian width size ++ (bytes ++ rest)) =
      some (.bytes bytes, rest) := by
  subst length
  rw [readScalar?, takeNat?_bigEndian width small]
  dsimp only [Option.bind_eq_bind, Option.bind_some]
  rw [take?_append]
  rfl

theorem readValue?_binaryHeader {bytes : List UInt8} (short : bytes.length < 2 ^ 32) (nesting : Nat)
    (rest : List UInt8) :
    readValue? nesting (binaryHeader bytes.length ++ (bytes ++ rest)) =
      some (.bytes bytes, rest) := by
  rw [binaryHeader]
  split
  · exact readValue?_of_readScalar? (readScalar?_sizedBinary 1 (by omega) rfl rest)
  · split
    · exact readValue?_of_readScalar? (readScalar?_sizedBinary 2 (by omega) rfl rest)
    · exact readValue?_of_readScalar? (readScalar?_sizedBinary 4 (by omega) rfl rest)

theorem readKey?_string {k : String} (short : (Text.Utf8.encode k).length < 32)
    (rest : List UInt8) :
    readKey? (.ofNat (0xa0 + (Text.Utf8.encode k).length) :: (Text.Utf8.encode k ++ rest)) =
      some (k, rest) := by
  rw [readKey?, ofByte_string short]
  dsimp only [Option.bind_eq_bind]
  rw [take?_append, Option.bind_some]
  dsimp only
  rw [Text.Utf8.decode?_encode]
  rfl

theorem readKey?_sizedString {b : UInt8} (width : Nat) (form : Form.ofByte b = .sizedString width)
    {k : String} (small : (Text.Utf8.encode k).length < 256 ^ width) (rest : List UInt8) :
    readKey? (b :: (bigEndian width (Text.Utf8.encode k).length ++ (Text.Utf8.encode k ++ rest))) =
      some (k, rest) := by
  rw [readKey?, form]
  dsimp only [Option.bind_eq_bind]
  rw [takeNat?_bigEndian width small, Option.bind_some]
  dsimp only
  rw [take?_append, Option.bind_some]
  dsimp only
  rw [Text.Utf8.decode?_encode]
  rfl

theorem readKey?_writeString {k : String} (short : (Text.Utf8.encode k).length < 2 ^ 32)
    (rest : List UInt8) : readKey? (writeString k ++ rest) = some (k, rest) := by
  rw [writeString, stringHeader, List.append_assoc]
  split
  · next tiny => exact readKey?_string tiny rest
  · split
    · exact readKey?_sizedString 1 rfl (by omega) rest
    · split
      · exact readKey?_sizedString 2 rfl (by omega) rest
      · exact readKey?_sizedString 4 rfl (by omega) rest

/-! ### Containers -/

theorem readValue?_of_array {b : UInt8} {nesting count : Nat} {bytes rest : List UInt8}
    (form : (∃ n, Form.ofByte b = .array n) ∨ ∃ width, Form.ofByte b = .sizedArray width)
    (size : containerSize? (Form.ofByte b) bytes = some (count, rest)) :
    readValue? (nesting + 1) (b :: bytes) =
      (readItems? (readValue? nesting) count rest).map fun (items, rest) => (.array items, rest) := by
  rw [readValue?]
  rcases form with ⟨n, form⟩ | ⟨width, form⟩ <;>
  · rw [form] at size ⊢
    dsimp only [Option.bind_eq_bind]
    rw [size, Option.bind_some]
    cases readItems? (readValue? nesting) count rest <;> rfl

theorem readValue?_of_map {b : UInt8} {nesting count : Nat} {bytes rest : List UInt8}
    (form : (∃ n, Form.ofByte b = .map n) ∨ ∃ width, Form.ofByte b = .sizedMap width)
    (size : containerSize? (Form.ofByte b) bytes = some (count, rest)) :
    readValue? (nesting + 1) (b :: bytes) =
      (readMembers? (readValue? nesting) count rest).map fun (members, rest) =>
        (.map members, rest) := by
  rw [readValue?]
  rcases form with ⟨n, form⟩ | ⟨width, form⟩ <;>
  · rw [form] at size ⊢
    dsimp only [Option.bind_eq_bind]
    rw [size, Option.bind_some]
    cases readMembers? (readValue? nesting) count rest <;> rfl

theorem readValue?_arrayHeader {count : Nat} (short : count < 2 ^ 32) (nesting : Nat)
    (rest : List UInt8) :
    readValue? (nesting + 1) (arrayHeader count ++ rest) =
      (readItems? (readValue? nesting) count rest).map fun (items, rest) => (.array items, rest) := by
  rw [arrayHeader]
  split
  · next tiny =>
      refine readValue?_of_array (.inl ⟨count, ofByte_array tiny⟩) ?_
      rw [ofByte_array tiny]
      rfl
  · split
    · exact readValue?_of_array (.inr ⟨2, rfl⟩) (takeNat?_bigEndian 2 (by omega) rest)
    · exact readValue?_of_array (.inr ⟨4, rfl⟩) (takeNat?_bigEndian 4 (by omega) rest)

theorem readValue?_mapHeader {count : Nat} (short : count < 2 ^ 32) (nesting : Nat)
    (rest : List UInt8) :
    readValue? (nesting + 1) (mapHeader count ++ rest) =
      (readMembers? (readValue? nesting) count rest).map fun (members, rest) =>
        (.map members, rest) := by
  rw [mapHeader]
  split
  · next tiny =>
      refine readValue?_of_map (.inl ⟨count, ofByte_map tiny⟩) ?_
      rw [ofByte_map tiny]
      rfl
  · split
    · exact readValue?_of_map (.inr ⟨2, rfl⟩) (takeNat?_bigEndian 2 (by omega) rest)
    · exact readValue?_of_map (.inr ⟨4, rfl⟩) (takeNat?_bigEndian 4 (by omega) rest)

theorem readItems?_succ {readOne? : List UInt8 → Option (Value × List UInt8)} {count : Nat}
    {bytes between rest : List UInt8} {v : Value} {items : List Value}
    (one : readOne? bytes = some (v, between))
    (others : readItems? readOne? count between = some (items, rest)) :
    readItems? readOne? (count + 1) bytes = some (v :: items, rest) := by
  simp [readItems?, one, others]

theorem readMembers?_succ {readOne? : List UInt8 → Option (Value × List UInt8)} {count : Nat}
    {bytes behind between rest : List UInt8} {k : String} {v : Value}
    {members : List (String × Value)} (key : readKey? bytes = some (k, behind))
    (one : readOne? behind = some (v, between))
    (others : readMembers? readOne? count between = some (members, rest)) :
    readMembers? readOne? (count + 1) bytes = some ((k, v) :: members, rest) := by
  simp [readMembers?, key, one, others]

end Depot.MessagePack
