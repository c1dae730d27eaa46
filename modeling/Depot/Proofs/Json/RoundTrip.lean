import Mathlib.Data.UInt
import Depot.Codec
import Depot.Proofs.Json.Float
import Depot.Proofs.Json.Text

/-!
# Round trip over JSON

The text of a plain value is read as the value with its floats as they are reread (`Value.reread?`), if its
containers do not lie deeper than the reader goes; if they do, nothing is read. Every value is written as its
plain form, so the two halves together say what becomes of any value (`Codec.json_round_trip`).

The reader finds out what a value is by its first character. A number may begin with more than one,
and all of them are apart from those that begin anything else (`numeric_apart`).
-/

namespace Depot

namespace Json

theorem ends_item (rest : List Char) : Ends (']' :: rest) := .inr (.inl rfl)

theorem ends_member (rest : List Char) : Ends ('\x7d' :: rest) := .inr (.inr rfl)

theorem ends_comma (rest : List Char) : Ends (',' :: rest) := .inl rfl

/-! ### The first character of a value -/

/-- A text begins with a character that is no blank and closes no array. -/
def Begins (cs : List Char) : Prop :=
  ∃ c rest, cs = c :: rest ∧ isBlank c = false ∧ c ≠ ']'

theorem Begins.append {cs : List Char} (h : Begins cs) (rest : List Char) : Begins (cs ++ rest) := by
  obtain ⟨c, tail, rfl, solid, opens⟩ := h
  exact ⟨c, tail ++ rest, rfl, solid, opens⟩

theorem Begins.skipBlank {cs : List Char} (h : Begins cs) : skipBlank cs = cs := by
  obtain ⟨c, rest, rfl, solid, _⟩ := h
  simp [Json.skipBlank, solid]

/-- A character that a number may begin with is none that begins anything else. -/
theorem numeric_apart {c : Char} (h : c = '-' ∨ c.isDigit = true) :
    isBlank c = false ∧ c ≠ ']' ∧ c ≠ '[' ∧ c ≠ '\x7b' ∧ c ≠ '"' ∧ c ≠ 'n' ∧ c ≠ 't' ∧ c ≠ 'f' := by
  have apart (d : Char) (minus : d ≠ '-') (digit : d.isDigit = false) : c ≠ d := by
    rintro rfl
    rcases h with h | h
    · exact minus h
    · rw [digit] at h
      cases h
  refine ⟨?_, apart _ (by decide) rfl, apart _ (by decide) rfl, apart _ (by decide) rfl,
    apart _ (by decide) rfl, apart _ (by decide) rfl, apart _ (by decide) rfl, apart _ (by decide) rfl⟩
  simp [isBlank, apart ' ' (by decide) rfl, apart '\n' (by decide) rfl, apart '\t' (by decide) rfl,
    apart '\r' (by decide) rfl]

theorem Numeric.begins {cs : List Char} (h : Numeric cs) : Begins cs := by
  obtain ⟨c, rest, rfl, first⟩ := h
  obtain ⟨solid, opens, _⟩ := numeric_apart first
  exact ⟨c, rest, rfl, solid, opens⟩

/-- What begins like no container is a scalar. -/
theorem readValue?_scalar (bound nesting : Nat) {c : Char} (solid : isBlank c = false)
    (notArray : c ≠ '[') (notMap : c ≠ '\x7b') (rest : List Char) :
    readValue? bound nesting (c :: rest) = readScalar? (c :: rest) := by
  have front : skipBlank (c :: rest) = c :: rest := by simp [skipBlank, solid]
  cases nesting with
  | zero => rw [readValue?, front]
  | succ nesting =>
      rw [readValue?, front]
      split
      · next same => exact absurd (List.cons.inj same).1 notArray
      · next same => exact absurd (List.cons.inj same).1 notMap
      · rfl

theorem readValue?_of_numeric (bound nesting : Nat) {cs : List Char} (h : Numeric cs) :
    readValue? bound nesting cs = readNumber? cs := by
  obtain ⟨c, rest, rfl, first⟩ := h
  obtain ⟨solid, _, notArray, notMap, notQuote, notN, notT, notF⟩ := numeric_apart first
  rw [readValue?_scalar bound nesting solid notArray notMap, readScalar?]
  · rintro tail same
    exact notN (List.cons.inj same).1
  · rintro tail same
    exact notT (List.cons.inj same).1
  · rintro tail same
    exact notF (List.cons.inj same).1
  · rintro tail same
    exact notQuote (List.cons.inj same).1

theorem readValue?_quoted (bound nesting : Nat) (s : String) (rest : List Char) :
    readValue? bound nesting (Text.Quoted.json s ++ rest) = some (.string s, rest) := by
  have text : Text.Quoted.json s ++ rest =
      '"' :: (s.toList.flatMap Text.Quoted.jsonChar ++ '"' :: rest) := by
    simp [Text.Quoted.json]
  rw [text, readValue?_scalar bound nesting rfl (by decide) (by decide), readScalar?,
    readString?_flatMap, Option.map_some]
  dsimp only
  rw [String.ofList_toList]

theorem begins_write {v : Value} (plain : v.Plain) : Begins (write v) := by
  cases v with
  | null => exact ⟨_, _, rfl, by decide, by decide⟩
  | bool b => cases b <;> exact ⟨_, _, rfl, by decide, by decide⟩
  | integer i => exact (numeric_intChars _).begins
  | uinteger u => exact (numeric_intChars _).begins
  | float x =>
      rw [write, if_pos (show x.isFinite = true from plain)]
      exact (numeric_render plain).begins
  | string s => exact ⟨_, _, rfl, by decide, by decide⟩
  | bytes b => exact plain.elim
  | array items => exact ⟨_, _, rfl, by decide, by decide⟩
  | map members => exact ⟨_, _, rfl, by decide, by decide⟩

/-! ### Containers, one element at a time -/

theorem readValue?_array (bound nesting : Nat) {cs : List Char} (begins : Begins cs) :
    readValue? bound (nesting + 1) ('[' :: cs) =
      (readItems? (readValue? bound nesting) bound cs).map fun (items, rest) =>
        (.array items, rest) := by
  have front : skipBlank ('[' :: cs) = '[' :: cs := rfl
  have inner := begins.skipBlank
  obtain ⟨c, rest, rfl, _, opens⟩ := begins
  simp [readValue?, front, inner, opens]

theorem readValue?_map (bound nesting : Nat) (cs : List Char) :
    readValue? bound (nesting + 1) ('\x7b' :: '"' :: cs) =
      (readMembers? (readValue? bound nesting) bound ('"' :: cs)).map fun (members, rest) =>
        (.map members, rest) := rfl

variable {readOne? : List Char → Option (Value × List Char)}

theorem readItems?_last {cs rest : List Char} {v : Option Value}
    (one : readOne? cs = v.map fun v => (v, ']' :: rest)) (bound : Nat) :
    readItems? readOne? (bound + 1) cs = v.map fun v => ([v], rest) := by
  rw [readItems?, one]
  cases v <;> rfl

theorem readItems?_more {cs rest : List Char} {v : Option Value}
    (one : readOne? cs = v.map fun v => (v, ',' :: rest)) (bound : Nat) :
    readItems? readOne? (bound + 1) cs = v.bind fun v =>
      (readItems? readOne? bound rest).map fun (items, rest) => (v :: items, rest) := by
  rw [readItems?, one]
  cases v with
  | none => rfl
  | some v =>
      show (readItems? readOne? bound rest).bind _ = (readItems? readOne? bound rest).map _
      cases readItems? readOne? bound rest <;> rfl

theorem readItems?_none {cs : List Char} (one : readOne? cs = none) (bound : Nat) :
    readItems? readOne? bound cs = none := by
  cases bound with
  | zero => rfl
  | succ bound =>
      rw [readItems?, one]
      rfl

/-- What follows the value of a member: another member or the end of the object. -/
def readBehind? (readOne? : List Char → Option (Value × List Char)) (bound : Nat) (k : String)
    (v : Value) (rest : List Char) : Option (List (String × Value) × List Char) := do
  match skipBlank rest with
  | ',' :: rest =>
    let (members, rest) ← readMembers? readOne? bound rest
    return ((k, v) :: members, rest)
  | '\x7d' :: rest => return ([(k, v)], rest)
  | _ => none

theorem readMembers?_quoted (k : String) (cs : List Char) (bound : Nat) :
    readMembers? readOne? (bound + 1) (Text.Quoted.json k ++ ':' :: cs) =
      (readOne? cs).bind fun (v, rest) => readBehind? readOne? bound k v rest := by
  have text : Text.Quoted.json k ++ ':' :: cs =
      '"' :: (k.toList.flatMap Text.Quoted.jsonChar ++ '"' :: ':' :: cs) := by
    simp [Text.Quoted.json]
  have quote (tail : List Char) : skipBlank ('"' :: tail) = '"' :: tail := rfl
  have colon : skipBlank (':' :: cs) = ':' :: cs := rfl
  simp only [text, readMembers?, quote, readString?_flatMap, colon, Option.bind_eq_bind,
    Option.bind_some, String.ofList_toList]
  rfl

theorem readMembers?_last {cs rest : List Char} {v : Option Value}
    (one : readOne? cs = v.map fun v => (v, '\x7d' :: rest)) (k : String) (bound : Nat) :
    readMembers? readOne? (bound + 1) (Text.Quoted.json k ++ ':' :: cs) =
      v.map fun v => ([(k, v)], rest) := by
  rw [readMembers?_quoted, one]
  cases v <;> rfl

theorem readMembers?_more {cs rest : List Char} {v : Option Value}
    (one : readOne? cs = v.map fun v => (v, ',' :: rest)) (k : String) (bound : Nat) :
    readMembers? readOne? (bound + 1) (Text.Quoted.json k ++ ':' :: cs) = v.bind fun v =>
      (readMembers? readOne? bound rest).map fun (members, rest) => ((k, v) :: members, rest) := by
  rw [readMembers?_quoted, one]
  cases v with
  | none => rfl
  | some v =>
      show (readMembers? readOne? bound rest).bind _ = (readMembers? readOne? bound rest).map _
      cases readMembers? readOne? bound rest <;> rfl

theorem readMembers?_none {cs : List Char} (one : readOne? cs = none) (k : String) (bound : Nat) :
    readMembers? readOne? bound (Text.Quoted.json k ++ ':' :: cs) = none := by
  cases bound with
  | zero => rfl
  | succ bound =>
      rw [readMembers?_quoted, one]
      rfl

/-! ### Whole values -/

theorem joined_writeItems_cons (v w : Value) (items : List Value) :
    joined (writeItems (v :: w :: items)) = write v ++ ',' :: joined (writeItems (w :: items)) := rfl

theorem joined_writeMembers_single (k : String) (v : Value) :
    joined (writeMembers [(k, v)]) = Text.Quoted.json k ++ ':' :: write v := rfl

theorem joined_writeMembers_cons (k : String) (v : Value) (member : String × Value)
    (members : List (String × Value)) :
    joined (writeMembers ((k, v) :: member :: members)) =
      Text.Quoted.json k ++ ':' :: (write v ++ ',' :: joined (writeMembers (member :: members))) := by
  show (Text.Quoted.json k ++ ':' :: write v) ++ ',' :: joined (writeMembers (member :: members)) = _
  rw [List.append_assoc, List.cons_append]

/-- Members begin with a quote. -/
theorem exists_joined_writeMembers (member : String × Value) (members : List (String × Value)) :
    ∃ rest, joined (writeMembers (member :: members)) = '"' :: rest := by
  cases members with
  | nil => exact ⟨_, rfl⟩
  | cons m members => exact ⟨_, rfl⟩

theorem begins_joined_writeItems {v : Value} (plain : v.Plain) (items : List Value) :
    Begins (joined (writeItems (v :: items))) := by
  cases items with
  | nil => exact begins_write plain
  | cons w items => exact (begins_write plain).append _

theorem length_le_joined (texts : List (List Char)) : texts.length ≤ (joined texts).length + 1 := by
  induction texts with
  | nil => simp
  | cons t texts ih =>
      cases texts with
      | nil => simp [joined]
      | cons u texts =>
          simp only [joined, List.length_append, List.length_cons] at ih ⊢
          omega

theorem length_writeItems (items : List Value) : (writeItems items).length = items.length := by
  induction items with
  | nil => rfl
  | cons v items ih => rw [writeItems, List.length_cons, List.length_cons, ih]

theorem length_writeMembers (members : List (String × Value)) :
    (writeMembers members).length = members.length := by
  induction members with
  | nil => rfl
  | cons member members ih =>
      obtain ⟨k, v⟩ := member
      rw [writeMembers, List.length_cons, List.length_cons, ih]

mutual

/-- The text of a value is read as the value with its floats reread, whatever may stand behind it. -/
theorem readValue?_write (bound : Nat) : ∀ (v : Value) (nesting : Nat), v.Plain →
    v.nesting ≤ nesting → (write v).length ≤ bound → ∀ rest, Ends rest →
    readValue? bound nesting (write v ++ rest) = v.reread?.map fun w => (w, rest)
  | .null, _, _, _, _, rest, _ => readValue?_scalar bound _ rfl (by decide) (by decide) _
  | .bool true, _, _, _, _, rest, _ => readValue?_scalar bound _ rfl (by decide) (by decide) _
  | .bool false, _, _, _, _, rest, _ => readValue?_scalar bound _ rfl (by decide) (by decide) _
  | .integer i, nesting, _, _, _, rest, ends =>
      (readValue?_of_numeric bound nesting ((numeric_intChars _).append rest)).trans
        (readNumber?_intChars (ofInt?_toInt i) ends)
  | .uinteger u, nesting, plain, _, _, rest, ends =>
      (readValue?_of_numeric bound nesting ((numeric_intChars _).append rest)).trans
        (readNumber?_intChars (ofInt?_toNat plain) ends)
  | .float x, nesting, plain, _, _, rest, ends => by
      rw [write, if_pos (show x.isFinite = true from plain),
        readValue?_of_numeric bound nesting ((numeric_render plain).append rest),
        readNumber?_render plain ends, Value.reread?, Option.map_map]
      rfl
  | .string s, nesting, _, _, _, rest, _ => readValue?_quoted bound nesting s rest
  | .bytes b, _, plain, _, _, _, _ => plain.elim
  | .array items, 0, _, deep, _, _, _ => by simp [Value.nesting] at deep
  | .map members, 0, _, deep, _, _, _ => by simp [Value.nesting] at deep
  | .array [], nesting + 1, _, _, _, rest, _ => rfl
  | .map [], nesting + 1, _, _, _, rest, _ => rfl
  | .array (v :: items), nesting + 1, plain, deep, short, rest, _ => by
      have size := length_le_joined (writeItems (v :: items))
      rw [length_writeItems] at size
      rw [write, List.length_cons, List.length_append, List.length_singleton] at short
      rw [write, List.cons_append, List.append_assoc,
        readValue?_array bound nesting ((begins_joined_writeItems plain.1 items).append _),
        readItems?_joined bound (v :: items) nesting bound nofun plain (Nat.le_of_succ_le_succ deep)
          (by omega) (by omega) rest, Value.reread?, Option.map_map, Option.map_map]
      rfl
  | .map (member :: members), nesting + 1, plain, deep, short, rest, _ => by
      have size := length_le_joined (writeMembers (member :: members))
      rw [length_writeMembers] at size
      rw [write, List.length_cons, List.length_append, List.length_singleton] at short
      obtain ⟨behind, quote⟩ := exists_joined_writeMembers member members
      have inner := readMembers?_joined bound (member :: members) nesting bound nofun plain
        (Nat.le_of_succ_le_succ deep) (by omega) (by omega) rest
      rw [write, List.cons_append, List.append_assoc]
      rw [quote, List.cons_append] at inner ⊢
      rw [readValue?_map, inner, Value.reread?, Option.map_map, Option.map_map]
      rfl

theorem readItems?_joined (bound : Nat) : ∀ (items : List Value) (nesting fuel : Nat),
    items ≠ [] → Value.PlainItems items → Value.nestingItems items ≤ nesting →
    (joined (writeItems items)).length ≤ bound → items.length ≤ fuel →
    ∀ rest, readItems? (readValue? bound nesting) fuel (joined (writeItems items) ++
      ([']'] ++ rest)) = (Value.rereadItems? items).map fun items => (items, rest)
  | [], _, _, occupied, _, _, _, _, _ => (occupied rfl).elim
  | [v], nesting, fuel + 1, _, plain, deep, short, _, rest => by
      have last := readItems?_last (readValue?_write bound v nesting plain.1
        (Nat.le_trans (Nat.le_max_left ..) deep) short _ (ends_item rest)) fuel
      refine last.trans ?_
      rw [Value.rereadItems?]
      cases v.reread? <;> rfl
  | v :: w :: items, nesting, fuel + 1, _, plain, deep, short, enough, rest => by
      rw [joined_writeItems_cons, List.length_append, List.length_cons] at short
      have first := readValue?_write bound v nesting plain.1
        (Nat.le_trans (Nat.le_max_left ..) deep) (by omega)
      have others := readItems?_joined bound (w :: items) nesting fuel nofun plain.2
        (Nat.le_trans (Nat.le_max_right ..) deep) (by omega) (Nat.le_of_succ_le_succ enough) rest
      rw [joined_writeItems_cons, List.append_assoc, List.cons_append,
        readItems?_more (first _ (ends_comma _)), others]
      show _ = (v.reread?.bind fun x => (Value.rereadItems? (w :: items)).map (x :: ·)).map _
      simp only [Option.map_bind, Function.comp_def, Option.map_map]

theorem readMembers?_joined (bound : Nat) :
    ∀ (members : List (String × Value)) (nesting fuel : Nat), members ≠ [] →
    Value.PlainMembers members → Value.nestingMembers members ≤ nesting →
    (joined (writeMembers members)).length ≤ bound → members.length ≤ fuel →
    ∀ rest, readMembers? (readValue? bound nesting) fuel (joined (writeMembers members) ++
      (['\x7d'] ++ rest)) = (Value.rereadMembers? members).map fun members => (members, rest)
  | [], _, _, occupied, _, _, _, _, _ => (occupied rfl).elim
  | [(k, v)], nesting, fuel + 1, _, plain, deep, short, _, rest => by
      rw [joined_writeMembers_single, List.length_append, List.length_cons] at short
      rw [joined_writeMembers_single, List.append_assoc, List.cons_append]
      have last := readMembers?_last (readValue?_write bound v nesting plain.1
        (Nat.le_trans (Nat.le_max_left ..) deep) (by omega) _ (ends_member rest)) k fuel
      refine last.trans ?_
      rw [Value.rereadMembers?]
      cases v.reread? <;> rfl
  | (k, v) :: member :: members, nesting, fuel + 1, _, plain, deep, short, enough, rest => by
      rw [joined_writeMembers_cons] at short
      simp only [List.length_append, List.length_cons] at short
      have first := readValue?_write bound v nesting plain.1
        (Nat.le_trans (Nat.le_max_left ..) deep) (by omega)
      have others := readMembers?_joined bound (member :: members) nesting fuel nofun plain.2
        (Nat.le_trans (Nat.le_max_right ..) deep) (by omega) (Nat.le_of_succ_le_succ enough) rest
      rw [joined_writeMembers_cons, List.append_assoc, List.cons_append, List.append_assoc,
        List.cons_append, readMembers?_more (first _ (ends_comma _)), others]
      show _ = (v.reread?.bind fun x => (Value.rereadMembers? (member :: members)).map ((k, x) :: ·)).map _
      simp only [Option.map_bind, Function.comp_def, Option.map_map]

end

/-- Where no container may lie, what opens one cannot be read. -/
theorem readValue?_opened (bound : Nat) (cs : List Char) :
    readValue? bound 0 ('[' :: cs) = none ∧ readValue? bound 0 ('\x7b' :: cs) = none := ⟨rfl, rfl⟩

mutual

/-- A value that lies deeper than containers may is written and cannot be read back. -/
theorem readValue?_write_deep (bound : Nat) : ∀ (v : Value) (nesting : Nat), v.Plain →
    nesting < v.nesting → (write v).length ≤ bound → ∀ rest,
    readValue? bound nesting (write v ++ rest) = none
  | .array items, 0, _, _, _, rest => (readValue?_opened bound _).1
  | .map members, 0, _, _, _, rest => (readValue?_opened bound _).2
  | .array [], nesting + 1, _, deep, _, _ => by simp [Value.nesting, Value.nestingItems] at deep
  | .map [], nesting + 1, _, deep, _, _ => by simp [Value.nesting, Value.nestingMembers] at deep
  | .array (v :: items), nesting + 1, plain, deep, short, rest => by
      rw [write, List.length_cons, List.length_append, List.length_singleton] at short
      rw [write, List.cons_append, List.append_assoc,
        readValue?_array bound nesting ((begins_joined_writeItems plain.1 items).append _),
        readItems?_joined_deep bound (v :: items) nesting bound plain (Nat.lt_of_succ_lt_succ deep)
          (by omega) _]
      rfl
  | .map (member :: members), nesting + 1, plain, deep, short, rest => by
      rw [write, List.length_cons, List.length_append, List.length_singleton] at short
      obtain ⟨behind, quote⟩ := exists_joined_writeMembers member members
      have inner := readMembers?_joined_deep bound (member :: members) nesting bound plain
        (Nat.lt_of_succ_lt_succ deep) (by omega) (['\x7d'] ++ rest)
      rw [write, List.cons_append, List.append_assoc]
      rw [quote, List.cons_append] at inner ⊢
      rw [readValue?_map, inner]
      rfl

theorem readItems?_joined_deep (bound : Nat) : ∀ (items : List Value) (nesting fuel : Nat),
    Value.PlainItems items → nesting < Value.nestingItems items →
    (joined (writeItems items)).length ≤ bound →
    ∀ rest, readItems? (readValue? bound nesting) fuel (joined (writeItems items) ++ rest) = none
  | [v], nesting, fuel, plain, deep, short, rest =>
      readItems?_none (readValue?_write_deep bound v nesting plain.1
        (by simpa [Value.nestingItems] using deep) short rest) fuel
  | v :: w :: items, nesting, fuel, plain, deep, short, rest => by
      rw [joined_writeItems_cons, List.length_append, List.length_cons] at short
      rw [joined_writeItems_cons, List.append_assoc, List.cons_append]
      cases fuel with
      | zero => rfl
      | succ fuel =>
          rcases Nat.lt_or_ge nesting v.nesting with here | shallow
          · exact readItems?_none (readValue?_write_deep bound v nesting plain.1 here (by omega) _) _
          · have first := readValue?_write bound v nesting plain.1 shallow (by omega)
            have others := readItems?_joined_deep bound (w :: items) nesting fuel plain.2
              (by rw [Value.nestingItems] at deep; omega) (by omega) rest
            rw [readItems?_more (first _ (ends_comma _)), others]
            cases v.reread? <;> rfl

theorem readMembers?_joined_deep (bound : Nat) :
    ∀ (members : List (String × Value)) (nesting fuel : Nat),
    Value.PlainMembers members → nesting < Value.nestingMembers members →
    (joined (writeMembers members)).length ≤ bound →
    ∀ rest, readMembers? (readValue? bound nesting) fuel (joined (writeMembers members) ++ rest) = none
  | [(k, v)], nesting, fuel, plain, deep, short, rest => by
      rw [joined_writeMembers_single, List.length_append, List.length_cons] at short
      rw [joined_writeMembers_single, List.append_assoc, List.cons_append]
      exact readMembers?_none (readValue?_write_deep bound v nesting plain.1
        (by simpa [Value.nestingMembers] using deep) (by omega) rest) k fuel
  | (k, v) :: member :: members, nesting, fuel, plain, deep, short, rest => by
      rw [joined_writeMembers_cons] at short
      simp only [List.length_append, List.length_cons] at short
      rw [joined_writeMembers_cons, List.append_assoc, List.cons_append, List.append_assoc,
        List.cons_append]
      cases fuel with
      | zero => rfl
      | succ fuel =>
          rcases Nat.lt_or_ge nesting v.nesting with here | shallow
          · exact readMembers?_none
              (readValue?_write_deep bound v nesting plain.1 here (by omega) _) k _
          · have first := readValue?_write bound v nesting plain.1 shallow (by omega)
            have others := readMembers?_joined_deep bound (member :: members) nesting fuel plain.2
              (by rw [Value.nestingMembers] at deep; omega) (by omega) rest
            rw [readMembers?_more (first _ (ends_comma _)), others]
            cases v.reread? <;> rfl

end

theorem read?_write {v : Value} (plain : v.Plain) (shallow : v.nesting ≤ maxNesting) :
    read? (write v) = v.reread? := by
  have whole := readValue?_write (write v).length v maxNesting plain shallow (Nat.le_refl _) [] trivial
  rw [List.append_nil] at whole
  rw [read?, whole]
  cases v.reread? <;> rfl

theorem read?_write_deep {v : Value} (plain : v.Plain) (deep : maxNesting < v.nesting) :
    read? (write v) = none := by
  have whole := readValue?_write_deep (write v).length v maxNesting plain deep (Nat.le_refl _) []
  rw [List.append_nil] at whole
  rw [read?, whole]
  rfl

end Json

namespace Codec

open Value

/-- **Round trip over JSON, up to a normal form.** Every value is encoded, to the same bytes as its
normal form, in which bytes are base64 text, floats that are not finite are null and whole numbers
are of the kind that fits them. With at most 127 containers within one another these bytes are
decoded to the normal form, if the text of every finite float is read as that float, as it is for floats of
few digits. With more they cannot be decoded. -/
theorem json_round_trip (v : Value) (ordered : v.Ordered) :
    ∃ bytes, json.encode v = .ok bytes ∧
      json.encode v.canonical = .ok bytes ∧
      (v.nesting ≤ 127 → Json.KeepsFloats v → json.decode bytes = .ok v.canonical) ∧
      ((∀ x ∈ v.floats, x.isFinite = true → Json.Few x) → Json.KeepsFloats v) ∧
      (127 < v.nesting → ∃ detail, json.decode bytes = .error (.decode .json detail)) := by
  have plain := plain_canonical v
  have encoded (w : Value) :
      json.encode w = .ok (Text.Utf8.encode (String.ofList (Json.write w.canonical))) := by
    rw [← interchange_eq_canonical]
    rfl
  refine ⟨_, encoded v, ?_, ?_, Json.keepsFloats_of_few, ?_⟩
  · rw [encoded, canonical_of_plain _ plain]
  · intro shallow kept
    have read := Json.read?_write plain (Nat.le_trans (Nat.le_of_eq (nesting_canonical v)) shallow)
    rw [kept.reread?_canonical] at read
    have arranged := arrange_of_ordered _ (ordered_canonical ordered)
    simp [json, Text.Utf8.decode?_encode, Json.decode?, read, arranged]
  · intro deep
    have read := Json.read?_write_deep plain (Nat.lt_of_lt_of_eq deep (nesting_canonical v).symm)
    refine ⟨"malformed JSON text", ?_⟩
    simp [json, Text.Utf8.decode?_encode, Json.decode?, read]

/-- Arrays within one another, `n` of them. -/
def nested : Nat → Value
  | 0 => .null
  | n + 1 => .array [nested n]

theorem ordered_nested : ∀ n, (nested n).Ordered
  | 0 => trivial
  | n + 1 => ⟨ordered_nested n, trivial⟩

theorem nesting_nested (n : Nat) : (nested n).nesting = n := by
  induction n with
  | zero => rfl
  | succ n ih => rw [nested, nesting, nestingItems, nestingItems, ih, Nat.max_zero]

/-- A map with every kind of value that JSON changes, and some that it must not. -/
def mixed : Value :=
  .map [
    ("\"\n\x01é", .string "a\\b/\tc"),
    ("big", .array [.uinteger 5, .uinteger (2 ^ 63), .integer (-1)]),
    ("float", .array [.float .nan, .float (.ofMagnitude true 0), .float (.ofInt (10 ^ 16))]),
    ("raw", .bytes [0, 159, 146, 150])]

theorem json_round_trip_mixed :
    mixed.Ordered ∧ mixed.nesting ≤ 127 ∧ Json.KeepsFloats mixed ∧
      (∃ bytes, json.encode mixed = .ok bytes ∧
        json.decode bytes = .ok mixed.canonical) ∧
      ∃ bytes detail, json.encode (nested 128) = .ok bytes ∧
        json.decode bytes = .error (.decode .json detail) := by
  have ordered : mixed.Ordered := by decide
  have shallow : mixed.nesting ≤ 127 := by decide
  have kept : Json.KeepsFloats mixed := by decide +kernel
  have deep : 127 < (nested 128).nesting := by
    rw [nesting_nested]
    decide
  obtain ⟨bytes, encoded, _, read, _, _⟩ := json_round_trip mixed ordered
  obtain ⟨deepBytes, deepEncoded, _, _, _, refused⟩ := json_round_trip (nested 128) (ordered_nested 128)
  obtain ⟨detail, unread⟩ := refused deep
  exact ⟨ordered, shallow, kept, ⟨bytes, encoded, read shallow kept⟩, deepBytes, detail, deepEncoded, unread⟩

end Codec

end Depot
