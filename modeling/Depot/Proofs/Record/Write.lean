import Depot.Proofs.Record.Hooks

/-!
# What the outcome of a write tells

A write through a store of records goes in stages: checks, hooks and encoding, then one call of the
provider, then the hooks after it. If each stage keeps its part, the outcome tells whether the write
took effect (`truthful_of_stages`): an error that is not post-commit means that the contents are as
before and that no hook ran afterwards, and anything else that the contents are what the provider
makes of the record as the hook before the save left it.

The provider's part is that its calls do all or nothing (`Call.Sound`). What the contents are is up to
the backend.
-/

namespace Depot

/-- Whether an operation with this outcome took effect. -/
def tookEffect : Except Error Unit → Bool
  | .ok _ => true
  | .error e => e.isPostCommit

theorem tookEffect_of_late {outcome : Except Error Unit} (h : Late outcome) :
    tookEffect outcome = true := by
  cases outcome with
  | ok _ => rfl
  | error e => exact h e rfl

namespace Call

variable {σ α κ : Type} {contents : Time → σ → κ} {ctx : Context} {s t : Session σ}

/-- The call that does a function to the backend, if the context is live. -/
def under (ctx : Context) (f : Time → σ → Except Error α × σ) : Call σ α :=
  fun s =>
    match s.refusal? ctx with
    | some e => (.error e, s)
    | none => ((f s.now s.backend).1, s.withBackend (f s.now s.backend).2)

theorem under_of_live (f : Time → σ → Except Error α × σ) (live : s.refusal? ctx = none) :
    under ctx f s = ((f s.now s.backend).1, s.withBackend (f s.now s.backend).2) := by
  simp only [under, live]

theorem under_of_refusal (f : Time → σ → Except Error α × σ) {e : Error}
    (dead : s.refusal? ctx = some e) : under ctx f s = (.error e, s) := by
  simp only [under, dead]

/-- A call that checks its context and then does a function to the backend. -/
theorem check_bind_eq_under {next : Unit → Call σ α} {f : Time → σ → Except Error α × σ}
    (h : ∀ s, next () s = ((f s.now s.backend).1, s.withBackend (f s.now s.backend).2)) :
    (check ctx >>= next) = under ctx f := by
  funext s
  cases refused : s.refusal? ctx with
  | some e => rw [check_bind_of_refusal refused, under_of_refusal f refused]
  | none => rw [check_bind_of_live refused, under_of_live f refused, h]

theorem map_under {β : Type} (g : α → β) (f : Time → σ → Except Error α × σ) :
    g <$> under ctx f = under ctx fun now b => ((f now b).1.map g, (f now b).2) := by
  funext s
  rw [map_apply]
  cases refused : s.refusal? ctx with
  | some e =>
      rw [under_of_refusal f refused, under_of_refusal _ refused]
      rfl
  | none => rw [under_of_live f refused, under_of_live _ refused]

/-- A function of the backend that keeps the contents if it fails, with an error that says so. -/
def AllOrNothing (contents : Time → σ → κ) (f : Time → σ → Except Error α × σ) : Prop :=
  ∀ now b e, (f now b).1 = .error e →
    e.isPostCommit = false ∧ contents now (f now b).2 = contents now b

/-- A change of a backend that takes place if a check passes. -/
def changeIf {β : Type} (check : Except Error β) (change : β → σ) (b : σ) : Except Error Unit × σ :=
  match check with
  | .ok x => (.ok (), change x)
  | .error e => (.error e, b)

theorem allOrNothing_changeIf {β : Type} {check : Time → σ → Except Error β}
    {change : Time → σ → β → σ} (early : ∀ now b, Early (check now b)) :
    AllOrNothing contents fun now b => changeIf (check now b) (change now b) b := by
  intro now b e failed
  cases checked : check now b with
  | ok x => simp [changeIf, checked] at failed
  | error e' =>
      simp only [changeIf, checked, Except.error.injEq] at failed ⊢
      subst failed
      exact ⟨early now b e' checked, trivial⟩

/-- A change that always takes place. -/
theorem allOrNothing_of_ok {f : Time → σ → Except Error α × σ}
    (h : ∀ now b, ∃ a, (f now b).1 = .ok a) : AllOrNothing contents f := by
  intro now b e failed
  obtain ⟨a, ok⟩ := h now b
  rw [ok] at failed
  cases failed

/-- A call of a backend that does nothing but a function of it, all or nothing. -/
def Sound (contents : Time → σ → κ) (ctx : Context) (call : Call σ α) : Prop :=
  ∃ f, call = under ctx f ∧ AllOrNothing contents f

namespace Sound

variable {call : Call σ α}

/-- A failing call keeps the contents and says so. -/
theorem of_error (h : call.Sound contents ctx) {e : Error} (failed : call s = (.error e, t)) :
    e.isPostCommit = false ∧ contents s.now t.backend = contents s.now s.backend := by
  obtain ⟨f, rfl, whole⟩ := h
  cases refused : s.refusal? ctx with
  | some e' =>
      rw [under_of_refusal f refused] at failed
      cases failed
      rcases Session.refusal?_eq_some refused with rfl | rfl <;> exact ⟨rfl, rfl⟩
  | none =>
      rw [under_of_live f refused] at failed
      injection failed with outcome same
      subst same
      exact whole s.now s.backend e outcome

/-- A call that succeeds would have done so before the preparations, with the same effect. -/
theorem of_leads {u : Session σ} {a : α} (h : call.Sound contents ctx) (leads : s.Leads t)
    (done : call t = (.ok a, u)) : ∃ v, call s = (.ok a, v) ∧ v.backend = u.backend := by
  obtain ⟨f, rfl, _⟩ := h
  cases refused : t.refusal? ctx with
  | some e =>
      rw [under_of_refusal f refused] at done
      cases done
  | none =>
      rw [under_of_live f refused] at done
      injection done with outcome same
      refine ⟨s.withBackend (f s.now s.backend).2, ?_, ?_⟩
      · rw [under_of_live f (leads.refusal? refused), ← leads.now, ← leads.backend, outcome]
      · rw [← same, ← leads.now, ← leads.backend]
        rfl

theorem discard (h : call.Sound contents ctx) :
    ((fun _ => ()) <$> call : Call σ Unit).Sound contents ctx := by
  obtain ⟨f, rfl, whole⟩ := h
  refine ⟨fun now b => ((f now b).1.map fun _ => (), (f now b).2), ?_, ?_⟩
  · funext s
    rw [map_apply]
    cases refused : s.refusal? ctx with
    | some e => rw [under_of_refusal _ refused, under_of_refusal _ refused]; rfl
    | none => rw [under_of_live _ refused, under_of_live _ refused]
  · intro now b e failed
    cases result : (f now b).1 with
    | ok a => simp [result, Except.map] at failed
    | error e' =>
        simp only [result, Except.map, Except.error.injEq] at failed
        subst failed
        exact whole now b e' result

end Sound

end Call

/-- The outcome of a write tells whether it took effect. The write is given with the hooks after it as
a parameter, and `bare` is the call of the provider that the record comes to. -/
structure Truthful {ρ σ κ : Type} (contents : Time → σ → κ) (run : AfterHooks ρ → Call σ Unit)
    (after : AfterHooks ρ) (bare : Except Error (Call σ Unit)) (s : Session σ) : Prop where
  /-- Without effect, the contents are as before. -/
  unchanged : tookEffect (run after s).1 = false →
    contents s.now (run after s).2.backend = contents s.now s.backend
  /-- Without effect, the hooks after a write are not run: it does not matter what they are. -/
  hookless : tookEffect (run after s).1 = false → ∀ other, run other s = run after s
  /-- With effect, the backend is as the provider leaves it. -/
  done : tookEffect (run after s).1 = true → ∃ call t, bare = .ok call ∧ call s = (.ok (), t) ∧
    (run after s).2.backend = t.backend

/-- A write in stages: what comes before the commit, the call of the provider, and the hooks after
it. -/
def stages {σ π : Type} (prepare : Call σ π) (commit : π → Call σ Unit)
    (late : π → Call σ (Except Error Unit)) : Call σ Unit := do
  let p ← prepare
  commit p
  Call.lift (← late p)

theorem truthful_of_stages {ρ σ π κ : Type} {contents : Time → σ → κ}
    {run : AfterHooks ρ → Call σ Unit} {after : AfterHooks ρ} {bare : Except Error (Call σ Unit)}
    {s : Session σ} {ctx : Context} {prepare : Call σ π} {commit : π → Call σ Unit}
    {late : AfterHooks ρ → π → Call σ (Except Error Unit)}
    (whole : ∀ after, run after = stages prepare commit (late after))
    (prepared : prepare.Quietly s fun p => bare = .ok (commit p))
    (sound : ∀ p, (commit p).Sound contents ctx)
    (hooks : ∀ after p t, (late after p).Answers t Late) : Truthful contents run after bare s := by
  have leads := prepared.leads
  have early := prepared.early
  have answer := prepared.answer
  cases ready : prepare s with
  | mk outcome t =>
      rw [ready] at leads early answer
      cases outcome with
      | error e =>
          have fails (after : AfterHooks ρ) : run after s = (.error e, t) := by
            rw [whole, stages, Call.bind_apply, ready]
          have idle : tookEffect (.error e) = false := early e rfl
          constructor
          · intro _
            rw [fails, leads.backend]
          · intro _ other
            rw [fails, fails]
          · intro took
            rw [fails, idle] at took
            cases took
      | ok p =>
          cases acted : commit p t with
          | mk outcome u =>
              cases outcome with
              | error e =>
                  have fails (after : AfterHooks ρ) : run after s = (.error e, u) := by
                    rw [whole, stages, Call.bind_apply, ready]
                    dsimp only
                    rw [Call.bind_apply, acted]
                  obtain ⟨notDone, kept⟩ := (sound p).of_error acted
                  constructor
                  · intro _
                    rw [fails, ← leads.now, kept, leads.backend]
                  · intro _ other
                    rw [fails, fails]
                  · intro took
                    rw [fails, tookEffect, notDone] at took
                    cases took
              | ok _ =>
                  obtain ⟨result, v, ran, kept, isLate⟩ := hooks after p u
                  have done : run after s = (result, v) := by
                    rw [whole, stages, Call.bind_apply, ready]
                    dsimp only
                    rw [Call.bind_apply, acted]
                    dsimp only
                    rw [Call.bind_apply, ran]
                    exact Call.lift_apply result v
                  -- Here the backend has changed, and no error from now on may say otherwise.
                  have took := tookEffect_of_late isLate
                  constructor
                  · intro idle
                    rw [done, took] at idle
                    cases idle
                  · intro idle
                    rw [done, took] at idle
                    cases idle
                  · intro _
                    obtain ⟨w, bareDone, same⟩ := (sound p).of_leads leads acted
                    refine ⟨commit p, w, answer p rfl, bareDone, ?_⟩
                    rw [done, same]
                    exact kept.backend

end Depot
