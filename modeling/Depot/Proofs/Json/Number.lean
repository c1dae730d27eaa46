import Depot.Json.Reader
import Depot.Json.Writer
import Depot.Proofs.Number.Digits

/-!
# Numbers in JSON text

A number is read by the numeral behind its sign, whatever may stand behind a value. A whole number that was
written is read back in the kind that fits it (`readNumber?_intChars`). The text of a float has a point or an
exponent, so the two never meet.

The text of a float is laid out in one of four ways. Each is a numeral of the same digits and the same
place of the point, but for the fraction of zero behind a whole number, which makes another digit
(`exists_numeral_layout`).
-/

namespace Depot

namespace Json

open Literal (spanDigits digitsValue readExponent?)

/-- What may stand behind a value in a text that was written: nothing, or a comma or an end. -/
def Ends : List Char → Prop
  | [] => True
  | c :: _ => c = ',' ∨ c = ']' ∨ c = '\x7d'

theorem Ends.stops {rest : List Char} (h : Ends rest) : ∀ c ∈ rest.head?,
    c.isDigit = false ∧ c ≠ '.' ∧ c ≠ 'e' ∧ c ≠ 'E' := by
  cases rest with
  | nil => simp
  | cons c rest =>
      intro d mem
      cases mem
      rcases h with rfl | rfl | rfl <;> decide

theorem spanDigits_append {ds : List Char} (rest : List Char) (digits : ∀ c ∈ ds, c.isDigit = true)
    (stops : ∀ c ∈ rest.head?, c.isDigit = false) : spanDigits (ds ++ rest) = (ds, rest) := by
  rw [spanDigits, List.takeWhile_append_of_pos digits, List.dropWhile_append_of_pos digits]
  cases rest with
  | nil => simp
  | cons c rest =>
      have stop := stops c rfl
      simp [stop]

/-- Digits that may stand before the point. -/
structure IsWhole (ds : List Char) : Prop where
  ne_nil : ds ≠ []
  digits : ∀ c ∈ ds, c.isDigit = true
  alone : ds = ['0'] ∨ ds.head? ≠ some '0'

theorem isWhole_digitChars (n : Nat) : IsWhole (Decimal.digitChars n) where
  ne_nil := Decimal.digitChars_ne_nil n
  digits _ mem := Decimal.isDigit_of_mem_digitChars mem
  alone := by
    by_cases h : n = 0
    · exact .inl (h ▸ rfl)
    · exact .inr (Decimal.head?_digitChars h)

theorem readWhole?_append {ds : List Char} (rest : List Char) (whole : IsWhole ds)
    (stops : ∀ c ∈ rest.head?, c.isDigit = false) : readWhole? (ds ++ rest) = some (ds, rest) := by
  rw [readWhole?, spanDigits_append rest whole.digits stops]
  split
  · next same => exact absurd (Prod.mk.inj same).1 whole.ne_nil
  · next same =>
      have same := (Prod.mk.inj same).1
      have alone := whole.alone
      rw [same] at alone
      simp at alone
  · next same =>
      obtain ⟨rfl, rfl⟩ := Prod.mk.inj same
      rfl

theorem readFraction?_of_ends {rest : List Char} (ends : Ends rest) :
    readFraction? rest = some (none, rest) := by
  rw [readFraction?]
  rintro tail rfl
  exact (ends.stops '.' rfl).2.1 rfl

theorem readExponent?_of_ends {rest : List Char} (ends : Ends rest) :
    readExponent? rest = some (none, rest) := by
  cases rest with
  | nil => rfl
  | cons c rest =>
      have stops := ends.stops c rfl
      rw [readExponent?, if_neg (by simp [stops])]

theorem readFraction?_append {ds : List Char} (rest : List Char) (ne_nil : ds ≠ [])
    (digits : ∀ c ∈ ds, c.isDigit = true) (stops : ∀ c ∈ rest.head?, c.isDigit = false) :
    readFraction? ('.' :: (ds ++ rest)) = some (some ds, rest) := by
  rw [readFraction?, spanDigits_append rest digits stops]
  split
  · next same => exact absurd (Prod.mk.inj same).1 ne_nil
  · next same =>
      obtain ⟨rfl, rfl⟩ := Prod.mk.inj same
      rfl

/-- The text of an exponent is read as the exponent. -/
theorem readExponent?_append {rest : List Char} (power : Int) (ends : Ends rest) :
    readExponent? ('e' :: ((if power < 0 then ['-'] else ['+']) ++
      (Decimal.digitChars power.natAbs ++ rest))) = some (some power, rest) := by
  have sign (cs : List Char) :
      Literal.spanSign ((if power < 0 then ['-'] else ['+']) ++ cs) = (decide (power < 0), cs) := by
    split
    · next below => simp [Literal.spanSign, below]
    · next above => simp [Literal.spanSign, above]
  have digits : spanDigits (Decimal.digitChars power.natAbs ++ rest) =
      (Decimal.digitChars power.natAbs, rest) :=
    spanDigits_append rest (fun _ mem => Decimal.isDigit_of_mem_digitChars mem)
      fun c mem => (ends.stops c mem).1
  rw [readExponent?, if_pos (.inl rfl), sign]
  dsimp only
  rw [digits]
  split
  · next same => exact absurd (Prod.mk.inj same).1 (Decimal.digitChars_ne_nil power.natAbs)
  · next same =>
      obtain ⟨rfl, rfl⟩ := Prod.mk.inj same
      have value : (if power < 0 then -(power.natAbs : Int) else power.natAbs) = power := by
        split <;> omega
      simp only [Literal.digitsValue_digitChars, decide_eq_true_eq, value]

/-! ### Numerals -/

theorem readNumeral?_eq {cs behind tail rest : List Char} {whole : List Char}
    {places : Option (List Char)} {power : Option Int} (first : readWhole? cs = some (whole, behind))
    (second : readFraction? behind = some (places, tail))
    (third : readExponent? tail = some (power, rest)) :
    readNumeral? cs = some (⟨whole, places, power⟩, rest) := by
  rw [readNumeral?, first]
  dsimp only [Option.bind_eq_bind, Option.bind_some]
  rw [second]
  dsimp only [Option.bind_some]
  rw [third]
  rfl

/-- A whole number is a numeral of its digits. -/
theorem readNumeral?_digitChars (n : Nat) {rest : List Char} (ends : Ends rest) :
    readNumeral? (Decimal.digitChars n ++ rest) = some (⟨Decimal.digitChars n, none, none⟩, rest) :=
  readNumeral?_eq (readWhole?_append rest (isWhole_digitChars n) fun c mem => (ends.stops c mem).1)
    (readFraction?_of_ends ends) (readExponent?_of_ends ends)

namespace Numeral

/-- All digits of a numeral, the point left out. -/
def digits (n : Numeral) : Nat :=
  digitsValue (n.whole ++ n.places.getD [])

/-- The power of ten that all digits of a numeral are to be multiplied with. -/
def exponent (n : Numeral) : Int :=
  n.power.getD 0 - (n.places.getD []).length

/-- The numeral is read as a float, and denotes `digits * 10 ^ exponent`; a whole number may have a zero
behind its point. -/
structure Denotes (n : Numeral) (digits : Nat) (exponent : Int) : Prop where
  real : n.isReal = true
  same : n.digits = digits ∧ n.exponent = exponent ∨
    0 ≤ exponent ∧ n.digits = 10 * (digits * 10 ^ exponent.toNat) ∧ n.exponent = -1

end Numeral

/-- The text of a whole number with a fraction of zero. -/
theorem exists_numeral_trailing {digits : Nat} {exponent : Int} (low : 0 ≤ exponent)
    (zero : digits = 0 → exponent = 0) :
    ∃ n : Numeral, n.Denotes digits exponent ∧ ∀ rest, Ends rest →
      readNumeral? (Decimal.digitChars digits ++
        (List.replicate exponent.toNat '0' ++ '.' :: '0' :: rest)) = some (n, rest) := by
  have whole : Decimal.digitChars digits ++ List.replicate exponent.toNat '0' =
      Decimal.digitChars (digits * 10 ^ exponent.toNat) := by
    by_cases h : digits = 0
    · simp [h, zero h]
    · exact Decimal.digitChars_append_zeros h _
  refine ⟨⟨Decimal.digitChars (digits * 10 ^ exponent.toNat), some ['0'], none⟩,
    ⟨rfl, .inr ⟨low, ?_, rfl⟩⟩, fun rest ends => ?_⟩
  · rw [Numeral.digits, Option.getD_some, Literal.digitsValue_append, Literal.digitsValue_digitChars]
    rfl
  · rw [← List.append_assoc, whole]
    have first := readWhole?_append ('.' :: (['0'] ++ rest))
      (isWhole_digitChars (digits * 10 ^ exponent.toNat)) (by simp)
    have second : readFraction? ('.' :: (['0'] ++ rest)) = some (some ['0'], rest) :=
      readFraction?_append rest (List.cons_ne_nil _ _) (List.forall_mem_singleton.2 rfl) fun c mem =>
        (ends.stops c mem).1
    exact readNumeral?_eq first second (readExponent?_of_ends ends)

/-- The text of a number with the point among its digits. -/
theorem exists_numeral_inner {digits : Nat} (whole : Nat) {exponent : Int} (h : digits ≠ 0)
    (positive : 0 < whole) (point : (whole : Int) = (Decimal.digitChars digits).length + exponent)
    (below : exponent < 0) :
    ∃ n : Numeral, n.Denotes digits exponent ∧ ∀ rest, Ends rest →
      readNumeral? ((Decimal.digitChars digits).take whole ++
        '.' :: ((Decimal.digitChars digits).drop whole ++ rest)) = some (n, rest) := by
  have digit (c : Char) (mem : c ∈ Decimal.digitChars digits) : c.isDigit = true :=
    Decimal.isDigit_of_mem_digitChars mem
  have isWhole : IsWhole ((Decimal.digitChars digits).take whole) := by
    constructor
    · apply List.ne_nil_of_length_pos
      rw [List.length_take]
      omega
    · exact fun c mem => digit c (List.mem_of_mem_take mem)
    · rw [List.head?_take, if_neg (by omega)]
      exact .inr (Decimal.head?_digitChars h)
  have places : (Decimal.digitChars digits).drop whole ≠ [] := by
    apply List.ne_nil_of_length_pos
    rw [List.length_drop]
    omega
  refine ⟨⟨(Decimal.digitChars digits).take whole, some ((Decimal.digitChars digits).drop whole), none⟩,
    ⟨rfl, .inl ⟨?_, ?_⟩⟩, fun rest ends => ?_⟩
  · rw [Numeral.digits, Option.getD_some, List.take_append_drop, Literal.digitsValue_digitChars]
  · rw [Numeral.exponent, Option.getD_some, Option.getD_none, List.length_drop]
    omega
  · have first := readWhole?_append ('.' :: ((Decimal.digitChars digits).drop whole ++ rest))
      isWhole (by simp)
    have second := readFraction?_append rest places
      (fun c mem => digit c (List.mem_of_mem_drop mem)) fun c mem => (ends.stops c mem).1
    exact readNumeral?_eq first second (readExponent?_of_ends ends)

/-- The text of a number below one. -/
theorem exists_numeral_small {digits : Nat} (zeros : Nat) {exponent : Int}
    (point : (zeros : Int) + (Decimal.digitChars digits).length = -exponent) :
    ∃ n : Numeral, n.Denotes digits exponent ∧ ∀ rest, Ends rest →
      readNumeral? ('0' :: '.' :: (List.replicate zeros '0' ++
        (Decimal.digitChars digits ++ rest))) = some (n, rest) := by
  have digit : ∀ c ∈ List.replicate zeros '0' ++ Decimal.digitChars digits, c.isDigit = true := by
    intro c mem
    rcases List.mem_append.1 mem with mem | mem
    · rw [List.eq_of_mem_replicate mem]
      rfl
    · exact Decimal.isDigit_of_mem_digitChars mem
  have places : List.replicate zeros '0' ++ Decimal.digitChars digits ≠ [] := by
    simp [Decimal.digitChars_ne_nil]
  refine ⟨⟨Decimal.digitChars 0, some (List.replicate zeros '0' ++ Decimal.digitChars digits), none⟩,
    ⟨rfl, .inl ⟨?_, ?_⟩⟩, fun rest ends => ?_⟩
  · rw [Numeral.digits, Option.getD_some, Literal.digitsValue_append, Literal.digitsValue_digitChars,
      Literal.digitsValue_append, Literal.digitsValue_zeros, Literal.digitsValue_digitChars]
    omega
  · rw [Numeral.exponent, Option.getD_some, Option.getD_none, List.length_append, List.length_replicate]
    omega
  · have first := readWhole?_append ('.' :: ((List.replicate zeros '0' ++
      Decimal.digitChars digits) ++ rest)) (isWhole_digitChars 0) (by simp)
    have second := readFraction?_append rest places digit fun c mem => (ends.stops c mem).1
    rw [← List.append_assoc]
    exact readNumeral?_eq first second (readExponent?_of_ends ends)

/-- Digits with a point behind the first one, if there are more. -/
def mantissa : List Char → List Char
  | d :: r :: rest => d :: '.' :: r :: rest
  | ds => ds

theorem layout_of_not_positional {style : Decimal.Style} {digits : Nat} {exponent power : Int}
    (leading : power = exponent + ((Decimal.digitChars digits).length - 1 : Nat))
    (scientific : style.positional power = false) :
    Decimal.layout style digits exponent =
      mantissa (Decimal.digitChars digits) ++ 'e' ::
        ((if power < 0 then ['-'] else if style.plusSign then ['+'] else []) ++
          Decimal.digitChars power.natAbs) := by
  subst leading
  rw [Decimal.layout, scientific, if_neg Bool.false_ne_true]
  match Decimal.digitChars digits with
  | [] => rfl
  | [d] => rfl
  | d :: r :: tail => rfl

/-- The text of a number with an exponent. -/
theorem exists_numeral_scientific {digits : Nat} {exponent power : Int}
    (leading : power = exponent + ((Decimal.digitChars digits).length - 1 : Nat)) :
    ∃ n : Numeral, n.Denotes digits exponent ∧ ∀ rest, Ends rest →
      readNumeral? (mantissa (Decimal.digitChars digits) ++
        'e' :: ((if power < 0 then ['-'] else ['+']) ++ (Decimal.digitChars power.natAbs ++ rest))) =
          some (n, rest) := by
  have value := Literal.digitsValue_digitChars digits
  have isWhole := isWhole_digitChars digits
  generalize Decimal.digitChars digits = ds at *
  match ds, isWhole with
  | [], isWhole => exact absurd rfl isWhole.ne_nil
  | [d], isWhole =>
      refine ⟨⟨[d], none, some power⟩, ⟨rfl, .inl ⟨value, ?_⟩⟩, fun rest ends => ?_⟩
      · rw [Numeral.exponent, Option.getD_some, Option.getD_none, leading]
        simp
      · have first := readWhole?_append ('e' :: ((if power < 0 then ['-'] else ['+']) ++
          (Decimal.digitChars power.natAbs ++ rest))) isWhole (by simp)
        exact readNumeral?_eq first rfl (readExponent?_append power ends)
  | d :: r :: tail, isWhole =>
      have single : IsWhole [d] := by
        refine ⟨by simp, fun c mem => isWhole.digits c (by simp_all), ?_⟩
        by_cases h : d = '0'
        · exact .inl (h ▸ rfl)
        · exact .inr (by simpa using h)
      refine ⟨⟨[d], some (r :: tail), some power⟩, ⟨rfl, .inl ⟨value, ?_⟩⟩, fun rest ends => ?_⟩
      · rw [Numeral.exponent, Option.getD_some, Option.getD_some, leading]
        simp
      · have first := readWhole?_append ('.' :: ((r :: tail) ++ 'e' ::
          ((if power < 0 then ['-'] else ['+']) ++ (Decimal.digitChars power.natAbs ++ rest))))
          single (by simp)
        have second := readFraction?_append ('e' ::
          ((if power < 0 then ['-'] else ['+']) ++ (Decimal.digitChars power.natAbs ++ rest)))
          (List.cons_ne_nil r tail) (fun c mem => isWhole.digits c (List.mem_cons_of_mem d mem)) (by simp)
        exact readNumeral?_eq first second (readExponent?_append power ends)

/-- The text of a number is a numeral that denotes the decimal it was laid out from. -/
theorem exists_numeral_layout {digits : Nat} {exponent : Int} (zero : digits = 0 → exponent = 0) :
    ∃ n : Numeral, n.Denotes digits exponent ∧ ∀ rest, Ends rest →
      readNumeral? (Decimal.layout .json digits exponent ++ rest) = some (n, rest) := by
  have someDigits := List.length_pos_iff.2 (Decimal.digitChars_ne_nil digits)
  generalize leading : exponent + ((Decimal.digitChars digits).length - 1 : Nat) = power
  cases positional : Decimal.Style.json.positional power with
  | false =>
      obtain ⟨n, denotes, read⟩ := exists_numeral_scientific leading.symm
      refine ⟨n, denotes, fun rest ends => ?_⟩
      rw [layout_of_not_positional leading.symm positional, List.append_assoc, List.cons_append,
        List.append_assoc]
      exact read rest ends
  | true =>
      rw [Decimal.layout, leading, if_pos positional]
      split
      · next low => simpa [Decimal.Style.json] using exists_numeral_trailing low zero
      · next below =>
          have notZero : digits ≠ 0 := fun h => below (Int.le_of_eq (zero h).symm)
          split
          · next above =>
              have point : ((power.toNat + 1 : Nat) : Int) =
                  (Decimal.digitChars digits).length + exponent := by omega
              simpa using exists_numeral_inner _ notZero (by omega) point (by omega)
          · next small =>
              have point : (((-power - 1).toNat : Nat) : Int) + (Decimal.digitChars digits).length =
                  -exponent := by omega
              simpa using exists_numeral_small _ point

/-! ### What a number begins with -/

/-- A text begins with a digit or a minus sign. -/
def Numeric (cs : List Char) : Prop :=
  ∃ c rest, cs = c :: rest ∧ (c = '-' ∨ c.isDigit = true)

theorem Numeric.append {cs : List Char} (h : Numeric cs) (rest : List Char) : Numeric (cs ++ rest) := by
  obtain ⟨c, tail, rfl, first⟩ := h
  exact ⟨c, tail ++ rest, rfl, first⟩

/-- A numeral begins with a digit. -/
theorem exists_digit_of_readNumeral? {cs : List Char} {r : Numeral × List Char}
    (h : readNumeral? cs = some r) : ∃ c rest, cs = c :: rest ∧ c.isDigit = true := by
  cases cs with
  | nil => cases h
  | cons c rest =>
      refine ⟨c, rest, rfl, ?_⟩
      cases digit : c.isDigit with
      | true => rfl
      | false =>
          have none : spanDigits (c :: rest) = ([], c :: rest) := by simp [spanDigits, digit]
          rw [readNumeral?, readWhole?, none] at h
          cases h

theorem numeric_signed {cs : List Char} {r : Numeral × List Char} (h : readNumeral? cs = some r)
    (negative : Bool) : Numeric ((if negative then ['-'] else []) ++ cs) := by
  obtain ⟨c, rest, rfl, digit⟩ := exists_digit_of_readNumeral? h
  cases negative with
  | true => exact ⟨'-', c :: rest, rfl, .inl rfl⟩
  | false => exact ⟨c, rest, rfl, .inr digit⟩

/-- A number is read behind its sign. -/
theorem readNumber?_signed {cs rest : List Char} {n : Numeral} (h : readNumeral? cs = some (n, rest))
    (negative : Bool) :
    readNumber? ((if negative then ['-'] else []) ++ cs) =
      (n.value? negative).map fun v => (v, rest) := by
  have unsigned : readUnsigned? negative cs = (n.value? negative).map fun v => (v, rest) := by
    rw [readUnsigned?, h]
    dsimp only [Option.bind_eq_bind, Option.bind_some]
    cases n.value? negative <;> rfl
  cases negative with
  | true => exact unsigned
  | false =>
      obtain ⟨c, tail, rfl, digit⟩ := exists_digit_of_readNumeral? h
      refine Eq.trans ?_ unsigned
      show readNumber? (c :: tail) = _
      rw [readNumber?]
      rintro behind same
      obtain ⟨rfl, -⟩ := List.cons.inj same
      cases digit

/-! ### Whole numbers -/

theorem intChars_eq (i : Int) :
    intChars i = (if decide (i < 0) then ['-'] else []) ++ Decimal.digitChars i.natAbs := by
  rw [intChars]
  split <;> simp_all

theorem numeric_intChars (i : Int) : Numeric (intChars i) := by
  have numeral := readNumeral?_digitChars i.natAbs (show Ends [] from trivial)
  rw [List.append_nil] at numeral
  rw [intChars_eq]
  exact numeric_signed numeral _

/-- The text of a whole number is read in the kind that fits it. -/
theorem readNumber?_intChars {i : Int} {v : Value} (kind : Value.ofInt? i = some v)
    {rest : List Char} (ends : Ends rest) : readNumber? (intChars i ++ rest) = some (v, rest) := by
  have small : i.natAbs < 2 ^ 64 := by
    rw [Value.ofInt?] at kind
    split at kind
    · omega
    · split at kind
      · omega
      · cases kind
  have signed : (if decide (i < 0) then -(i.natAbs : Int) else i.natAbs) = i := by
    simp only [decide_eq_true_eq]
    split <;> omega
  have unsigned : ¬ (decide (i < 0) && decide (i.natAbs = 0)) = true := by
    simp
    omega
  have number : wholeNumber (i < 0) i.natAbs = v := by
    rw [wholeNumber, if_neg unsigned, signed, kind, Option.getD_some]
  rw [intChars_eq, List.append_assoc, readNumber?_signed (readNumeral?_digitChars i.natAbs ends),
    Numeral.value?, Literal.digitsValue_digitChars, number, if_pos (by simpa [Numeral.isReal] using small),
    Option.map_some]

theorem ofInt?_toInt (i : Int64) : Value.ofInt? i.toInt = some (.integer i) := by
  rw [Value.ofInt?, if_pos ⟨i.le_toInt, i.toInt_lt⟩, Int64.ofInt_toInt]

theorem ofInt?_toNat {u : UInt64} (large : 2 ^ 63 ≤ u.toNat) :
    Value.ofInt? u.toNat = some (.uinteger u) := by
  have small := u.toNat_lt
  rw [Value.ofInt?, if_neg (by omega), if_pos (by omega), Int.toNat_natCast, UInt64.ofNat_toNat]

end Json

end Depot
