import Depot.Session

/-!
# Calls, evaluated

What every way of making a call does to a session. The equations rewrite a call that is applied to
a session from the outside in, so that a call written in steps is evaluated by `simp`.
-/

namespace Depot

namespace Session

variable {σ τ : Type}

@[simp] theorem backend_withBackend (s : Session σ) (b : τ) : (s.withBackend b).backend = b := rfl

@[simp] theorem withBackend_backend (s : Session σ) : s.withBackend s.backend = s := rfl

@[simp] theorem withBackend_withBackend {υ : Type} (s : Session σ) (b : τ) (c : υ) :
    (s.withBackend b).withBackend c = s.withBackend c := rfl

/-- Whether a context is live does not depend on the backend. -/
@[simp] theorem refusal?_withBackend (s : Session σ) (b : τ) (ctx : Context) :
    (s.withBackend b).refusal? ctx = s.refusal? ctx := rfl

/-- The moment of a session, and the signals that were raised in it. -/
def clock (s : Session σ) : Time × List Nat := (s.now, s.raised)

/-- Whether a context is live is a matter of the moment and of the signals. -/
theorem refusal?_of_clock {s : Session σ} {t : Session τ} (same : t.clock = s.clock) (ctx : Context) :
    t.refusal? ctx = s.refusal? ctx := by
  obtain ⟨now, raised⟩ := Prod.mk.inj same
  rw [refusal?, refusal?, isCancelled, isCancelled, now, raised]

/-- A context is refused for one of two reasons. -/
theorem refusal?_eq_some {s : Session σ} {ctx : Context} {e : Error} (h : s.refusal? ctx = some e) :
    e = .cancelled ∨ e = .deadlineExceeded := by
  rw [refusal?] at h
  split at h
  · cases h
    exact .inl rfl
  · split at h
    · split at h <;> cases h
      exact .inr rfl
    · cases h

end Session

namespace Call

variable {σ α β : Type}

@[simp] theorem lift_ok (a : α) : (lift (.ok a) : Call σ α) = pure a := rfl

@[simp] theorem lift_error (e : Error) : (lift (.error e) : Call σ α) = fail e := rfl

theorem lift_apply (result : Except Error α) (s : Session σ) :
    (lift result : Call σ α) s = (result, s) := by
  cases result <;> rfl

/-- A computation that may fail, lifted as a whole or step by step. -/
theorem lift_bind (x : Except Error α) (f : α → Except Error β) :
    (lift (x >>= f) : Call σ β) = lift x >>= fun a => lift (f a) := by
  cases x <;> rfl

@[simp] theorem backend_apply (s : Session σ) : (backend : Call σ σ) s = (.ok s.backend, s) := rfl

@[simp] theorem session_apply (s : Session σ) : (session : Call σ _) s = (.ok s, s) := rfl

@[simp] theorem setBackend_apply (b : σ) (s : Session σ) :
    setBackend b s = (.ok (), s.withBackend b) := rfl

@[simp] theorem attempt_apply (call : Call σ α) (s : Session σ) :
    attempt call s = (.ok (call s).1, (call s).2) := rfl

@[simp] theorem fail_bind (e : Error) (next : α → Call σ β) : (fail e >>= next) = fail e := rfl

theorem map_apply (f : α → β) (call : Call σ α) (s : Session σ) :
    (f <$> call) s = ((call s).1.map f, (call s).2) := by
  show (call >>= fun a => pure (f a)) s = _
  rw [bind_apply]
  cases call s with
  | mk result t => cases result <;> rfl

/-- A call that keeps its error in its answer, taken out again. -/
theorem attempt_bind_lift {γ : Type} (call : Call σ α) (f : Except Error α → γ)
    (outcome : γ → Except Error α) (h : ∀ result, outcome (f result) = result) :
    ((attempt call >>= fun result => pure (f result)) >>= fun a => lift (outcome a)) = call := by
  funext s
  rw [bind_assoc, bind_apply, attempt_apply]
  dsimp only
  rw [pure_bind, h, lift_apply]

/-- A call that ends early with the error of a check in its answer, taken out again. -/
theorem attempt_check_bind_lift {γ : Type} (call : Call σ Unit) (f : Error → γ) (next : Call σ γ)
    (outcome : γ → Except Error α) (h : ∀ e, outcome (f e) = .error e) :
    ((attempt call >>= fun result =>
        match result with
        | .error e => pure (f e)
        | .ok () => next) >>= fun a => lift (outcome a)) =
      (do
        call
        let a ← next
        lift (outcome a)) := by
  funext s
  rw [bind_assoc, bind_apply, attempt_apply, bind_apply]
  rcases call s with ⟨_ | _, t⟩
  · dsimp only
    rw [pure_bind, h]
    rfl
  · rfl

/-- Checking a live context does nothing. -/
theorem check_bind_of_live {ctx : Context} {s : Session σ} (h : s.refusal? ctx = none)
    (next : Unit → Call σ β) : (check ctx >>= next) s = next () s := by
  rw [bind_apply, check_of_live h]

/-- Checking a dead context ends the call. -/
theorem check_bind_of_refusal {ctx : Context} {s : Session σ} {e : Error}
    (h : s.refusal? ctx = some e) (next : Unit → Call σ β) :
    (check ctx >>= next) s = (.error e, s) := by
  rw [bind_apply, check_of_refusal h]

/-- A call that succeeds does so in all its steps. -/
theorem of_bind_eq_ok {call : Call σ β} {next : β → Call σ α} {s : Session σ} {a : α}
    (h : ((call >>= next) s).1 = .ok a) : ∃ b t, call s = (.ok b, t) ∧ (next b t).1 = .ok a := by
  rw [bind_apply] at h
  rcases ran : call s with ⟨e | b, t⟩
  · rw [ran] at h
    cases h
  · rw [ran] at h
    exact ⟨b, t, rfl, h⟩

theorem of_lift_bind_eq_ok {result : Except Error β} {next : β → Call σ α} {s : Session σ} {a : α}
    (h : ((lift result >>= next) s).1 = .ok a) : ∃ x, result = .ok x ∧ (next x s).1 = .ok a := by
  cases result with
  | error e => cases h
  | ok x => exact ⟨x, rfl, h⟩

theorem of_check_bind_eq_ok {ctx : Context} {next : Unit → Call σ α} {s : Session σ} {a : α}
    (h : ((check ctx >>= next) s).1 = .ok a) : (next () s).1 = .ok a := by
  cases refused : s.refusal? ctx with
  | some e =>
      rw [check_bind_of_refusal refused] at h
      cases h
  | none => rwa [check_bind_of_live refused] at h

/-- Whatever the call fails with in a session is such an error. -/
def FailsAs (call : Call σ α) (s : Session σ) (P : Error → Prop) : Prop :=
  ∀ e, (call s).1 = .error e → P e

section

variable {s : Session σ} {P : Error → Prop}

theorem failsAs_pure (a : α) : (pure a : Call σ α).FailsAs s P := nofun

theorem failsAs_fail {e : Error} (h : P e) : (fail e : Call σ α).FailsAs s P := by
  intro e' failed
  cases failed
  exact h

theorem failsAs_check_bind {ctx : Context} {next : Unit → Call σ β}
    (h : ∀ e, s.refusal? ctx = some e → P e) (rest : (next ()).FailsAs s P) :
    (check ctx >>= next).FailsAs s P := by
  cases refused : s.refusal? ctx with
  | none => rwa [FailsAs, check_bind_of_live refused]
  | some e =>
      rw [FailsAs, check_bind_of_refusal refused]
      exact failsAs_fail (σ := σ) (α := β) (h e refused)

theorem failsAs_lift_bind {result : Except Error α} {next : α → Call σ β}
    (h : ∀ e, result = .error e → P e) (rest : ∀ a, result = .ok a → (next a).FailsAs s P) :
    (lift result >>= next).FailsAs s P := by
  cases result with
  | error e => exact failsAs_fail (h e rfl)
  | ok a => exact rest a rfl

theorem FailsAs.bind {call : Call σ α} {next : α → Call σ β} (h : call.FailsAs s P)
    (rest : ∀ a t, (next a).FailsAs t P) : (call >>= next).FailsAs s P := by
  intro e failed
  rw [bind_apply] at failed
  cases result : call s with
  | mk outcome t =>
      rw [result] at failed
      cases outcome with
      | error e' =>
          cases failed
          exact h e (by rw [result])
      | ok a => exact rest a t e failed

end

end Call

end Depot
