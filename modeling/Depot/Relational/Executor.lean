import Depot.Session
import Depot.Spec.Basic
import Depot.Statement.Basic

/-!
# Relational executors

An executor works on rows of tables by bound statements. Whether a statement runs directly or inside
a transaction is part of the backend it works on, and the meaning of statements is the same either
way.
-/

namespace Depot

structure TableDef where
  name : String
  spec : Spec

def TableDef.keyColumn (table : TableDef) : String :=
  table.spec.key.column

namespace Relational

structure Executor (σ : Type) where
  get : Context → TableDef → Value → Call σ Row
  /-- Adds a row, or replaces the one with the same key. -/
  upsert : Context → TableDef → Row → Call σ Unit
  delete : Context → TableDef → Value → Call σ Unit
  has : Context → TableDef → Value → Call σ Bool
  query : Context → TableDef → BoundQuery → Call σ (List Row)
  /-- The first row of a query. -/
  select : Context → TableDef → BoundQuery → Call σ Row
  /-- Applies assignments to all rows meant, and counts them. -/
  update : Context → TableDef → BoundUpdate → Call σ Nat
  aggregate : Context → TableDef → BoundAggregate → Call σ Binary64

/-- The first row of a query, by way of the query cut to one row. -/
def selectFirst {σ : Type} (query : Context → TableDef → BoundQuery → Call σ (List Row)) (ctx : Context)
    (table : TableDef) (q : BoundQuery) : Call σ Row := do
  match ← query ctx table { q with limit := some 1 } with
  | row :: _ => return row
  | [] => Call.fail (.notFound (table.name ++ ": no matching row"))

end Relational

end Depot
