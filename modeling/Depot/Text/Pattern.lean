/-!
# Text patterns

A pattern of the kind used in queries: `%` stands for any run of characters, `_` for any single
one, and every other character for itself.

The matcher walks both texts from the left. It keeps the pattern behind the last `%` it passed and
the text from where that run began (`Restart`); when the texts disagree, the run takes one more
character and the walk starts over from there. A character of the pattern that equals the character
of the text is used up before `%` is looked at, so a `%` in the pattern that meets a `%` in the text
stands for that character.
-/

namespace Depot.Text.Pattern

/-- Where to go on when the texts disagree: the pattern behind the last `%`, and the text from the
first character that its run has not taken. -/
structure Restart where
  pattern : List Char
  text : List Char

structure Walk where
  pattern : List Char
  text : List Char
  restart : Option Restart := none

/-- What a walk does next: it ends with an answer, or goes on from another position. -/
inductive Step
  | done (found : Bool)
  | next (w : Walk)

/-- The pattern matches the empty text. -/
def matchesEmpty (pattern : List Char) : Bool :=
  pattern.all (· == '%')

/-- Goes back to the restart point with one more character taken by the run of the last `%`. -/
def retry : Option Restart → Step
  | some ⟨pattern, _ :: text⟩ => .next ⟨pattern, text, some ⟨pattern, text⟩⟩
  | some ⟨_, []⟩ => .done false
  | none => .done false

def step (w : Walk) : Step :=
  match w.text with
  | [] => .done (matchesEmpty w.pattern)
  | c :: text =>
    match w.pattern with
    | [] => retry w.restart
    | p :: pattern =>
      if p = '_' ∨ p = c then .next ⟨pattern, text, w.restart⟩
      else if p = '%' then .next ⟨pattern, w.text, some ⟨pattern, w.text⟩⟩
      else retry w.restart

/-- Walks on for a bounded number of steps. -/
def run : (bound : Nat) → Walk → Bool
  | 0, _ => false
  | bound + 1, w =>
    match step w with
    | .done found => found
    | .next w => run bound w

/-- Enough steps for every walk over texts of these lengths: each restart takes a character of the
text, and between two restarts each step takes a character of the pattern. -/
def bound (pattern text : List Char) : Nat :=
  (text.length + 2) * (pattern.length + 2)

def isMatch (pattern text : String) : Bool :=
  run (bound pattern.toList text.toList) ⟨pattern.toList, text.toList, none⟩

end Depot.Text.Pattern
