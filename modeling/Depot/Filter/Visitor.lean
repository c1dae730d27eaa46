import Depot.Filter.Basic

/-!
# Translating filters

A `Visitor` says for each kind of clause what it becomes, or leaves the kind out. A filter is
translated from the leaves up, clauses of a group from left to right (`Filter.accept`). The first
clause of a kind that is left out ends the translation, so no clause is ever dropped silently.
-/

namespace Depot

/-- What clauses become, for the kinds of clauses that can be translated. -/
structure Visitor (α : Type) where
  eq : Option (String → Value → α) := none
  ne : Option (String → Value → α) := none
  isIn : Option (String → List Value → α) := none
  notIn : Option (String → List Value → α) := none
  /-- Ranges are told apart by their comparison. -/
  range : RangeOp → Option (String → Value → α) := fun _ => none
  like : Option (String → String → α) := none
  contains : Option (String → Value → α) := none
  present : Option (String → α) := none
  not : Option (α → α) := none
  and : Option (List α → α) := none
  or : Option (List α → α) := none

namespace Visitor

variable {α : Type}

/-- What a kind of clause becomes, or the failure of leaving it out. -/
def require {β : Type} (op : Operator) (translation : Option β) : Except Error β :=
  match translation with
  | some f => .ok f
  | none => .error (.operatorNotSupported op.name)

/-- Whether clauses of a kind can be translated. -/
def supports (visitor : Visitor α) : Operator → Bool
  | .eq => visitor.eq.isSome
  | .ne => visitor.ne.isSome
  | .isIn => visitor.isIn.isSome
  | .notIn => visitor.notIn.isSome
  | .gt => (visitor.range .gt).isSome
  | .ge => (visitor.range .ge).isSome
  | .lt => (visitor.range .lt).isSome
  | .le => (visitor.range .le).isSome
  | .like => visitor.like.isSome
  | .contains => visitor.contains.isSome
  | .present => visitor.present.isSome
  | .not => visitor.not.isSome
  | .and => visitor.and.isSome
  | .or => visitor.or.isSome

end Visitor

namespace Filter

variable {α : Type}

mutual

/-- The translation of a filter, from the leaves up. -/
def accept (visitor : Visitor α) : Filter → Except Error α
  | eq field value => do return (← Visitor.require .eq visitor.eq) field value
  | ne field value => do return (← Visitor.require .ne visitor.ne) field value
  | isIn field values => do return (← Visitor.require .isIn visitor.isIn) field values
  | notIn field values => do return (← Visitor.require .notIn visitor.notIn) field values
  | range field op bound => do
    return (← Visitor.require op.operator (visitor.range op)) field bound
  | like field pattern => do return (← Visitor.require .like visitor.like) field pattern
  | contains field value => do return (← Visitor.require .contains visitor.contains) field value
  | present field => do return (← Visitor.require .present visitor.present) field
  | not inner => do
    let inner ← accept visitor inner
    return (← Visitor.require .not visitor.not) inner
  | and clauses => do
    let clauses ← acceptAll visitor clauses
    return (← Visitor.require .and visitor.and) clauses
  | or clauses => do
    let clauses ← acceptAll visitor clauses
    return (← Visitor.require .or visitor.or) clauses

def acceptAll (visitor : Visitor α) : List Filter → Except Error (List α)
  | [] => .ok []
  | f :: rest => do
    let first ← accept visitor f
    let rest ← acceptAll visitor rest
    return first :: rest

end

end Filter

end Depot
