import Depot.Json.Reader

/-!
# The outline of JSON text

Where the parts of a container begin, without reading them. A value that is passed over has to have
the form of one and nothing more: its containers may lie at any depth, its numbers may be of any
size, and an escape of four digits in its strings need not denote a character. So a text can be
outlined although some of its parts cannot be read.

Only the names of an outlined object's own members are read, since they say which member is which.
-/

namespace Depot.Json

/-- Passes over a string up to its closing quote. -/
def skipString? : List Char → Option (List Char)
  | [] => none
  | '"' :: rest => some rest
  | '\\' :: 'u' :: a :: b :: c :: d :: rest =>
    if (Text.Hex.number? [a, b, c, d]).isSome then skipString? rest else none
  | '\\' :: c :: rest => if (unescape? c).isSome then skipString? rest else none
  | c :: rest => if c = '\\' ∨ c.toNat < 32 then none else skipString? rest

def skipUnsigned? (cs : List Char) : Option (List Char) :=
  (readNumeral? cs).map Prod.snd

def skipScalar? : List Char → Option (List Char)
  | 'n' :: 'u' :: 'l' :: 'l' :: rest => some rest
  | 't' :: 'r' :: 'u' :: 'e' :: rest => some rest
  | 'f' :: 'a' :: 'l' :: 's' :: 'e' :: rest => some rest
  | '"' :: rest => skipString? rest
  | '-' :: rest => skipUnsigned? rest
  | cs => skipUnsigned? cs

def skipColon? (cs : List Char) : Option (List Char) :=
  match skipBlank cs with
  | ':' :: rest => some rest
  | _ => none

def skipName? (cs : List Char) : Option (List Char) :=
  match skipBlank cs with
  | '"' :: rest => (skipString? rest).bind skipColon?
  | _ => none

/-- A container that is yet to be closed. -/
inductive Container
  | array
  | object
deriving DecidableEq

mutual

/-- Passes over a value and over what is left of the containers around it. Every call takes a
character of the text, whose length is therefore a bound. -/
def skipWithin? : (bound : Nat) → (around : List Container) → List Char → Option (List Char)
  | 0, _, _ => none
  | bound + 1, around, cs =>
    match skipBlank cs with
    | '[' :: rest =>
      match skipBlank rest with
      | ']' :: rest => skipBehind? bound around rest
      | rest => skipWithin? bound (.array :: around) rest
    | '\x7b' :: rest =>
      match skipBlank rest with
      | '\x7d' :: rest => skipBehind? bound around rest
      | rest =>
        match skipName? rest with
        | some rest => skipWithin? bound (.object :: around) rest
        | none => none
    | cs =>
      match skipScalar? cs with
      | some rest => skipBehind? bound around rest
      | none => none

/-- Passes over what is left of containers behind a value in the innermost one. -/
def skipBehind? : (bound : Nat) → (around : List Container) → List Char → Option (List Char)
  | _, [], cs => some cs
  | 0, _ :: _, _ => none
  | bound + 1, .array :: around, cs =>
    match skipBlank cs with
    | ',' :: rest => skipWithin? bound (.array :: around) rest
    | ']' :: rest => skipBehind? bound around rest
    | _ => none
  | bound + 1, .object :: around, cs =>
    match skipBlank cs with
    | ',' :: rest =>
      match skipName? rest with
      | some rest => skipWithin? bound (.object :: around) rest
      | none => none
    | '\x7d' :: rest => skipBehind? bound around rest
    | _ => none

end

/-- Whether a text is the form of one value, with nothing but blanks around it. -/
def isForm (cs : List Char) : Bool :=
  match skipWithin? (cs.length + 1) [] cs with
  | some rest => (skipBlank rest).isEmpty
  | none => false

/-- The texts from the elements of an array on. -/
def outlineItems? (length : Nat) : (bound : Nat) → List Char → Option (List (List Char))
  | 0, _ => none
  | bound + 1, cs => do
    match skipBlank (← skipWithin? length [] cs) with
    | ',' :: rest => return cs :: (← outlineItems? length bound rest)
    | ']' :: _ => return [cs]
    | _ => none

/-- The names of the members of an object with the texts from their values on. -/
def outlineMembers? (length : Nat) :
    (bound : Nat) → List Char → Option (List (String × List Char))
  | 0, _ => none
  | bound + 1, cs => do
    match skipBlank cs with
    | '"' :: rest =>
      let (name, rest) ← readString? rest
      let value ← skipColon? rest
      match skipBlank (← skipWithin? length [] value) with
      | ',' :: rest => return (String.ofList name, value) :: (← outlineMembers? length bound rest)
      | '\x7d' :: _ => return [(String.ofList name, value)]
      | _ => none
    | _ => none

/-- Where the parts of a value begin. -/
inductive Outline
  | items (texts : List (List Char))
  | members (texts : List (String × List Char))
  | scalar
deriving DecidableEq

def outline? (cs : List Char) : Option Outline :=
  let length := cs.length + 1
  match skipBlank cs with
  | '[' :: rest =>
    match skipBlank rest with
    | ']' :: _ => some (.items [])
    | rest => (outlineItems? length length rest).map .items
  | '\x7b' :: rest =>
    match skipBlank rest with
    | '\x7d' :: _ => some (.members [])
    | rest => (outlineMembers? length length rest).map .members
  | cs => (skipScalar? cs).map fun _ => .scalar

def front? (cs : List Char) : Option Value :=
  (readValue? cs.length maxNesting cs).map Prod.fst

end Depot.Json
