import Depot.Number.Binary64

/-!
# Numbers as text

What a person writes for a number. A whole number has digits and may have a sign. A real number may
also have a point with digits on at least one side of it and an exponent of ten, or it is named: an
infinity or the number that is none, in letters of either case. Every real number is rounded once,
to the nearest one of the format, and too large a number is infinite.

The pieces by which digits and exponents are read also serve the reader of JSON text, which is
stricter about what may stand together.
-/

namespace Depot.Literal

def digitsValue (digits : List Char) : Nat :=
  digits.foldl (fun n c => 10 * n + (c.toNat - 48)) 0

/-- The digits in front of a text, and the rest. -/
def spanDigits (cs : List Char) : List Char × List Char :=
  (cs.takeWhile Char.isDigit, cs.dropWhile Char.isDigit)

/-- Whether there is a minus sign in front of a text, and the text behind a sign of either kind. -/
def spanSign : List Char → Bool × List Char
  | '-' :: rest => (true, rest)
  | '+' :: rest => (false, rest)
  | cs => (false, cs)

/-- The power of ten that is written in front of a text, none if there is no exponent. -/
def readExponent? : List Char → Option (Option Int × List Char)
  | [] => some (none, [])
  | c :: rest =>
    if c = 'e' ∨ c = 'E' then
      let (negative, rest) := spanSign rest
      match spanDigits rest with
      | ([], _) => none
      | (digits, rest) =>
        let power : Int := digitsValue digits
        some (some (if negative then -power else power), rest)
    else some (none, c :: rest)

/-- The whole number that a text denotes. -/
def int? (text : String) : Option Int :=
  let (negative, digits) := spanSign text.toList
  if digits.isEmpty || !digits.all Char.isDigit then none
  else some (if negative then -(digitsValue digits : Int) else digitsValue digits)

def named? (negative : Bool) (name : List Char) : Option Binary64 :=
  match String.ofList (name.map Char.toLower) with
  | "inf" | "infinity" => some (.infinity negative)
  | "nan" => some .nan
  | _ => none

/-- The real number that digits, a point among them and an exponent denote. -/
def unsigned? (negative : Bool) (cs : List Char) : Option Binary64 := do
  let (whole, rest) := spanDigits cs
  let (places, rest) := match rest with
    | '.' :: rest => spanDigits rest
    | rest => ([], rest)
  if whole.isEmpty && places.isEmpty then none
  else
    let (power, rest) ← readExponent? rest
    if rest.isEmpty then
      some (.ofDecimal negative (digitsValue (whole ++ places)) (power.getD 0 - places.length))
    else none

/-- The real number that a text denotes. -/
def real? (text : String) : Option Binary64 :=
  let (negative, cs) := spanSign text.toList
  match named? negative cs with
  | some x => some x
  | none => unsigned? negative cs

end Depot.Literal
