import Depot.Atom
import Depot.Session
import Depot.Value.Interchange

/-!
# Record types

A `Model ρ` is what a store has to know about a record type `ρ`: its declaration, how records are
written as values and read from them, and the hooks it runs.

Hooks are data. A hook sees the occasion on which it runs: its context and what the session holds beside
the backend. Running it gives the record as the hook leaves it, what it reported, whether it cancelled
the context, and whether it failed. A type lists the roles for which it has hooks; the others are never
run.
-/

namespace Depot

/-- When a hook runs: under which context, and in which session but for its backend. -/
structure Occasion where
  context : Context
  session : Session Unit

def Session.occasion {σ : Type} (s : Session σ) (ctx : Context) : Occasion :=
  ⟨ctx, s.withBackend ()⟩

/-- What running a hook comes to. -/
structure HookRun (α : Type) where
  /-- The record as the hook leaves it. -/
  result : α
  events : List String := []
  /-- Whether the hook cancelled the context it ran under. -/
  cancels : Bool := false
  failure : Option String := none

/-- The code a record type runs at each role. -/
structure Hooks (ρ : Type) where
  beforeSave : Occasion → ρ → HookRun ρ := fun _ record => ⟨record, [], false, none⟩
  afterSave : Occasion → ρ → HookRun Unit := fun _ _ => ⟨(), [], false, none⟩
  afterLoad : Occasion → ρ → HookRun ρ := fun _ record => ⟨record, [], false, none⟩
  /-- No record is loaded for a delete; there is only its key. -/
  beforeDelete : Occasion → String → HookRun Unit := fun _ _ => ⟨(), [], false, none⟩
  afterDelete : Occasion → String → HookRun Unit := fun _ _ => ⟨(), [], false, none⟩

structure Model (ρ : Type) where
  declaration : Declaration
  roles : List Role := []
  read? : Value → Option ρ
  write : ρ → Value
  hooks : Hooks ρ := {}

namespace Model

variable {ρ σ : Type}

def provides (m : Model ρ) (role : Role) : Bool :=
  m.roles.contains role

/-- The checked schema of the type. -/
def spec (m : Model ρ) : Except Error Spec :=
  m.declaration.build

/-! ### Between records, values and atoms -/

/-- The record that a value holds. Bytes are read as arrays of whole numbers. -/
def ofValue (m : Model ρ) (v : Value) : Except Error ρ :=
  match m.read? (v.interchange .numbers) with
  | some record => .ok record
  | none => .error (.decode .value "the value does not fit the record type")

def toValue (m : Model ρ) (record : ρ) : Value :=
  m.write record

def atomize (m : Model ρ) (spec : Spec) (record : ρ) : Except Error Atom :=
  Atom.ofValue spec (m.toValue record)

def deatomize (m : Model ρ) (spec : Spec) (a : Atom) : Except Error ρ := do
  m.ofValue (← a.toValue spec)

/-! ### Running hooks -/

/-- Runs a hook if the type has one for the role, and reports its failure. After a role that is
post-commit a failure is also logged, since the store has done its work by then. -/
def dispatch {α : Type} (m : Model ρ) (role : Role) (ctx : Context) (key : String) (idle : α)
    (hook : Occasion → HookRun α) : Call σ (α × Except Error Unit) :=
  if m.provides role then do
    let run := hook ((← Call.session).occasion ctx)
    Call.report run.events
    if run.cancels then Call.cancel ctx
    match run.failure with
    | none => return (run.result, .ok ())
    | some source =>
      if role.isPostCommit then
        Call.warn (role.name ++ " hook failed for '" ++ key ++ "' after commit: " ++ source)
      return (run.result, .error (.hook role source))
  else return (idle, .ok ())

/-- Runs the hook before a save. The record is as the hook leaves it, also when the hook fails. -/
def beforeSave (m : Model ρ) (ctx : Context) (key : String) (record : ρ) :
    Call σ (ρ × Except Error Unit) :=
  m.dispatch .beforeSave ctx key record (m.hooks.beforeSave · record)

def afterSave (m : Model ρ) (ctx : Context) (key : String) (record : ρ) :
    Call σ (Except Error Unit) := do
  return (← m.dispatch .afterSave ctx key () (m.hooks.afterSave · record)).2

/-- Runs the hook after a load and gives the record as the hook leaves it. -/
def afterLoad (m : Model ρ) (ctx : Context) (key : String) (record : ρ) : Call σ ρ := do
  let (record, outcome) ← m.dispatch .afterLoad ctx key record (m.hooks.afterLoad · record)
  Call.lift outcome
  return record

def beforeDelete (m : Model ρ) (ctx : Context) (key : String) : Call σ Unit := do
  Call.lift (← m.dispatch .beforeDelete ctx key () (m.hooks.beforeDelete · key)).2

def afterDelete (m : Model ρ) (ctx : Context) (key : String) : Call σ (Except Error Unit) := do
  return (← m.dispatch .afterDelete ctx key () (m.hooks.afterDelete · key)).2

/-! ### Batches -/

/-- The hooks after the deletes of a batch: all of them run, and the first failure counts. -/
def afterDeletes (m : Model ρ) (ctx : Context) : List String → Call σ (Except Error Unit)
  | [] => return .ok ()
  | key :: rest => do
    let first ← m.afterDelete ctx key
    let others ← m.afterDeletes ctx rest
    return match first with
      | .ok () => others
      | .error e => .error e

/-- The hooks after the saves of a batch: all of them run, and the first failure counts. -/
def afterSaves (m : Model ρ) (ctx : Context) : List (String × ρ) → Call σ (Except Error Unit)
  | [] => return .ok ()
  | (key, record) :: rest => do
    let first ← m.afterSave ctx key record
    let others ← m.afterSaves ctx rest
    return match first with
      | .ok () => others
      | .error e => .error e

end Model

/-- A record as an operation leaves it, with the outcome of the operation. The record shows what the
hook before a save did to it, also when the operation fails. -/
structure Saved (ρ : Type) where
  record : ρ
  outcome : Except Error Unit

/-- Keys that no store can address are refused. -/
def checkKey (key : String) : Except Error Unit :=
  if key = "" then .error (.invalidKey "key is empty") else .ok ()

/-- Refuses a list of keys with one that no store can address. -/
def checkKeys (keys : List String) : Except Error Unit :=
  keys.forM checkKey

end Depot
