import Depot.Proofs.Session.Quiet
import Depot.Record.Model

/-!
# What hooks do to a session

What a run of hooks does to a session is said all at once by the list of those that ran, in their order
(`Session.fired`): what they reported, whether they cancelled, and one warning for each that failed after
the commit. A hook runs on the occasion that the hooks before it leave (`Session.firings`).
-/

namespace Depot

/-- A hook that runs for a role under a key. -/
structure Firing where
  role : Role
  key : String
  run : HookRun Unit

namespace Firing

/-- The run of a hook, whatever record it leaves. -/
def of {α : Type} (role : Role) (key : String) (run : HookRun α) : Firing :=
  ⟨role, key, (), run.events, run.cancels, run.failure⟩

def outcome (f : Firing) : Except Error Unit :=
  match f.run.failure with
  | none => .ok ()
  | some source => .error (.hook f.role source)

/-- A failure after the commit is logged. -/
def warning? (f : Firing) : Option String :=
  if f.role.isPostCommit then
    f.run.failure.map fun source =>
      f.role.name ++ " hook failed for '" ++ f.key ++ "' after commit: " ++ source
  else none

/-- A hook that fails fails as the hook that it is. -/
theorem exists_source {f : Firing} {e : Error} (failed : f.outcome = .error e) :
    ∃ source, e = .hook f.role source := by
  rw [outcome] at failed
  split at failed
  · cases failed
  · next source _ => exact ⟨source, (Except.error.inj failed).symm⟩

end Firing

/-- The session in which hooks ran, one after the other, under a context. -/
def Session.fired {σ : Type} (s : Session σ) (ctx : Context) (fs : List Firing) : Session σ :=
  { s with
    raised := if fs.any fun f => f.run.cancels then (s.cancel ctx).raised else s.raised
    events := s.events ++ fs.flatMap fun f => f.run.events
    warnings := s.warnings ++ fs.filterMap Firing.warning? }

/-- Hooks that run one after the other, each of them on the occasion that the one before it leaves. -/
def Session.firings {σ : Type} (s : Session σ) (ctx : Context) : List (Occasion → Firing) → List Firing
  | [] => []
  | hook :: rest =>
    hook (s.occasion ctx) :: (s.fired ctx [hook (s.occasion ctx)]).firings ctx rest

namespace Session

variable {σ : Type} {ctx : Context}

@[simp] theorem fired_nil (s : Session σ) : s.fired ctx [] = s := by
  simp [fired]

theorem raised_cancel (s : Session σ) (ctx : Context) : (s.cancel ctx).raised =
    if s.raised.contains ctx.signal then s.raised else ctx.signal :: s.raised := by
  rw [cancel]
  split <;> rfl

theorem fired_fired (s : Session σ) (fs gs : List Firing) :
    (s.fired ctx fs).fired ctx gs = s.fired ctx (fs ++ gs) := by
  have raised : ((s.fired ctx fs).fired ctx gs).raised = (s.fired ctx (fs ++ gs)).raised := by
    simp only [fired, raised_cancel, List.any_append]
    -- A signal that was raised is not raised again.
    by_cases signalled : ctx.signal ∈ s.raised <;>
      cases fs.any fun f => f.run.cancels <;> cases gs.any fun f => f.run.cancels <;> simp [signalled]
  simp only [fired, List.flatMap_append, List.filterMap_append, List.append_assoc] at raised ⊢
  rw [raised]

/-- Hooks leave the backend and the clock alone, and lower no signal. -/
theorem leads_fired (s : Session σ) (ctx : Context) (fs : List Firing) : s.Leads (s.fired ctx fs) := by
  refine ⟨rfl, rfl, fun signal mem => ?_⟩
  show signal ∈ if _ then _ else _
  split
  · exact (s.leads_cancel ctx).raised signal mem
  · exact mem

end Session

/-- A hook of a role that the type provides does to the session what its run says. -/
theorem Model.dispatch_apply {ρ σ α : Type} {m : Model ρ} {role : Role} {ctx : Context}
    (provided : m.provides role = true) (key : String) (idle : α) (hook : Occasion → HookRun α)
    (s : Session σ) :
    let run := hook (s.occasion ctx)
    m.dispatch role ctx key idle hook s =
      (.ok (run.result, (Firing.of role key run).outcome), s.fired ctx [.of role key run]) := by
  intro run
  rw [dispatch, if_pos provided, Call.bind_apply, Call.session_apply]
  dsimp only [run]
  generalize hook (s.occasion ctx) = ran
  obtain ⟨backend, now, raised, before, warned⟩ := s
  obtain ⟨result, events, cancels, failure⟩ := ran
  have cancel (before : List String) : (⟨backend, now, raised, before, warned⟩ : Session σ).cancel ctx =
      ⟨backend, now, if raised.contains ctx.signal then raised else ctx.signal :: raised, before,
        warned⟩ := by
    rw [Session.cancel]
    split <;> rfl
  cases cancels <;> cases failure <;> cases late : role.isPostCommit <;>
    simp [Call.bind_apply, Call.map_apply, Except.map, Call.report, Call.cancel, Call.warn,
      Session.fired, Firing.of, Firing.outcome, Firing.warning?, cancel, late]

/-- A loop that runs hooks one after the other and keeps the first failure. -/
theorem Firing.runsAll {σ α : Type} {ctx : Context} {hook : α → Call σ (Except Error Unit)}
    {loop : List α → Call σ (Except Error Unit)} {firing : α → Occasion → Firing}
    (one : ∀ x s, hook x s =
      (.ok (firing x (s.occasion ctx)).outcome, s.fired ctx [firing x (s.occasion ctx)]))
    (nil : loop [] = pure (.ok ()))
    (cons : ∀ x rest, loop (x :: rest) = do
      let first ← hook x
      let others ← loop rest
      return match first with
        | .ok () => others
        | .error e => .error e)
    (xs : List α) (s : Session σ) :
    let ran := s.firings ctx (xs.map firing)
    loop xs s = (.ok (ran.forM Firing.outcome), s.fired ctx ran) := by
  intro ran
  induction xs generalizing s with
  | nil =>
      show loop [] s = (_, s.fired ctx [])
      rw [nil, Session.fired_nil]
      rfl
  | cons x rest ih =>
      rw [cons, Call.bind_apply, one]
      dsimp only
      rw [Call.bind_apply, ih, Session.fired_fired]
      show (_, _) = (Except.ok ((firing x (s.occasion ctx)).outcome >>= fun _ => _), _)
      cases (firing x (s.occasion ctx)).outcome <;> rfl

end Depot
