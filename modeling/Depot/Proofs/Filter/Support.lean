import Depot.Filter.Predicate

/-!
# Clauses of a kind that is left out

A filter is translated clause by clause: those within a clause from left to right, and then the clause
itself. `Filter.nodes` lists the clauses in this order. A translation stops at the first clause of a kind
that the visitor leaves out and names this kind, whatever else is in the filter; if there is none, it
succeeds (`Filter.settled_accept`). What clauses become is up to the visitor. It may be a test, a text,
or something that is yet to be done to a state.
-/

namespace Depot

namespace Filter

mutual

/-- The clauses of a filter, each behind those within it. -/
def nodes : Filter → List Filter
  | not inner => inner.nodes ++ [not inner]
  | and clauses => nodesOfAll clauses ++ [and clauses]
  | or clauses => nodesOfAll clauses ++ [or clauses]
  | leaf => [leaf]

def nodesOfAll : List Filter → List Filter
  | [] => []
  | f :: rest => f.nodes ++ nodesOfAll rest

end

/-- What comes of clauses that are gone through in turn where only some kinds are offered. -/
inductive Settled {α : Type} (offered : Operator → Bool) (clauses : List Filter) :
    Except Error α → Prop
  /-- All kinds are offered. -/
  | done (offers : ∀ g ∈ clauses, offered g.operator = true) (a : α) : Settled offered clauses (.ok a)
  /-- The first clause of a kind that is not offered is where it ends. -/
  | stopped (before : List Filter) (g : Filter) (after : List Filter)
      (split : clauses = before ++ g :: after) (offers : ∀ h ∈ before, offered h.operator = true)
      (lacks : offered g.operator = false) :
      Settled offered clauses (.error (.operatorNotSupported g.operator.name))

section

variable {α β : Type} {offered : Operator → Bool} {first rest : List Filter}

/-- One clause is translated, if its kind is. -/
theorem settled_require {g : Filter} {translation : Option α} {apply : α → β}
    (same : offered g.operator = translation.isSome) :
    Settled offered [g] (Visitor.require g.operator translation >>= fun f => pure (apply f)) := by
  cases translation with
  | none => exact .stopped [] g [] rfl (by simp) same
  | some f => exact .done (by simpa using same) (apply f)

/-- Clauses behind others are gone through if the others were. -/
theorem Settled.bind {x : Except Error α} {next : α → Except Error β} (h : Settled offered first x)
    (later : ∀ a, Settled offered rest (next a)) : Settled offered (first ++ rest) (x >>= next) := by
  cases h with
  | done offers a =>
      show Settled offered (first ++ rest) (next a)
      have settled := later a
      generalize next a = y at settled ⊢
      cases settled with
      | done offers' b =>
          exact .done (List.forall_mem_append.2 ⟨offers, offers'⟩) b
      | stopped before g after split offers' lacks =>
          refine .stopped (first ++ before) g after ?_ ?_ lacks
          · rw [split, List.append_assoc]
          · exact List.forall_mem_append.2 ⟨offers, offers'⟩
  | stopped before g after split offers lacks =>
      refine .stopped before g (after ++ rest) ?_ offers lacks
      rw [split, List.append_assoc, List.cons_append]

theorem Settled.map {x : Except Error α} (h : Settled offered first x) (f : α → β) :
    Settled offered first (x >>= fun a => pure (f a)) := by
  have whole : Settled offered (first ++ []) (x >>= fun a => pure (f a)) :=
    h.bind fun a => .done (by simp) (f a)
  rwa [List.append_nil] at whole

end

section

variable {α : Type} (visitor : Visitor α)

mutual

/-- A translation stops at the first clause of a kind that is left out. -/
theorem settled_accept : ∀ f : Filter, Settled visitor.supports f.nodes (f.accept visitor)
  | .eq .. | .ne .. | .isIn .. | .notIn .. | .like .. | .contains .. | .present .. =>
      settled_require rfl
  | .range _ op _ => by cases op <;> exact settled_require rfl
  | .not inner => (settled_accept inner).bind fun _ => settled_require rfl
  | .and clauses | .or clauses => (settled_acceptAll clauses).bind fun _ => settled_require rfl

theorem settled_acceptAll : ∀ fs : List Filter,
    Settled visitor.supports (nodesOfAll fs) (acceptAll visitor fs)
  | [] => .done (by simp [nodesOfAll]) []
  | f :: rest => (settled_accept f).bind fun first => (settled_acceptAll rest).map (first :: ·)

end

end

end Filter

namespace FilterSupport

variable (support : FilterSupport)

theorem isSome_ifAllowed {β : Type} (op : Operator) (translation : β) :
    (support.ifAllowed op translation).isSome = support.allows op := by
  rw [ifAllowed]
  cases support.allows op <;> rfl

/-- The translation into tests leaves out what is not offered. -/
theorem supports_visitor (op : Operator) : support.visitor.supports op = support.allows op := by
  cases op <;> exact isSome_ifAllowed support ..

theorem settled_compile (f : Filter) :
    Filter.Settled support.allows f.nodes (support.compile f) := by
  have settled := Filter.settled_accept support.visitor f
  rwa [funext support.supports_visitor] at settled

end FilterSupport

end Depot
