import Depot.Proofs.Record.Write

/-!
# Backends in use

What is done to a backend is a list of steps: operations of one kind, each under a context of its own,
and in between time that passes and signals that are raised. What a backend should hold by now is told
by a reference that only the operations with success move on; a backend that each operation keeps with
the reference is with it after every run (`Follows.run`).
-/

namespace Depot

/-- One thing that happens to a backend or around it. -/
inductive Step (ι : Type)
  | call (ctx : Context) (op : ι)
  | wait (span : Time)
  | cancel (ctx : Context)

section

variable {ι σ α κ : Type}

namespace Step

/-- The session after a step. -/
def after (call : Context → ι → Call σ α) (s : Session σ) : Step ι → Session σ
  | .call ctx op => (call ctx op s).2
  | .wait span => { s with now := s.now + span }
  | .cancel ctx => s.cancel ctx

/-- The operation of a step, if it is one and succeeds. -/
def done? (call : Context → ι → Call σ α) (s : Session σ) : Step ι → Option ι
  | .call ctx op =>
    match (call ctx op s).1 with
    | .ok _ => some op
    | .error _ => none
  | .wait _ => none
  | .cancel _ => none

/-- The session after a list of steps. -/
def run (call : Context → ι → Call σ α) (steps : List (Step ι)) (s : Session σ) : Session σ :=
  steps.foldl (after call) s

/-- The operations among steps that succeed, the oldest first. -/
def successes (call : Context → ι → Call σ α) : List (Step ι) → Session σ → List ι
  | [], _ => []
  | step :: rest, s => (step.done? call s).toList ++ successes call rest (step.after call s)

end Step

end

namespace Call

variable {σ α β κ : Type} {P : σ → Prop} {R : σ → κ → Prop} {ctx : Context}

/-- The call keeps a property of the backend, also when it fails. -/
def Keeps (P : σ → Prop) (call : Call σ α) : Prop :=
  ∀ s, P s.backend → P (call s).2.backend

theorem keeps_pure (a : α) : Keeps P (pure a : Call σ α) := fun _ h => h

theorem keeps_fail (e : Error) : Keeps P (fail e : Call σ α) := fun _ h => h

theorem keeps_backend : Keeps P (backend : Call σ σ) := fun _ h => h

theorem keeps_session : Keeps P (session : Call σ (Session σ)) := fun _ h => h

theorem keeps_lift (result : Except Error α) : Keeps P (lift result : Call σ α) := by
  intro s h
  rw [lift_apply]
  exact h

theorem keeps_check (ctx : Context) : Keeps P (check ctx : Call σ Unit) := by
  intro s h
  rwa [(quietly_check ctx).leads.backend]

theorem Keeps.bind {call : Call σ α} {next : α → Call σ β} (h : call.Keeps P)
    (rest : ∀ a, (next a).Keeps P) : (call >>= next).Keeps P := by
  intro s holds
  have before := h s holds
  rw [bind_apply]
  cases result : call s with
  | mk outcome t =>
      rw [result] at before
      cases outcome with
      | error e => exact before
      | ok a => exact rest a t before

/-- The call keeps a backend with a reference, which moves on if the call succeeds. -/
def Moves (R : σ → κ → Prop) (call : Call σ α) (next : κ → κ) : Prop :=
  ∀ s k, R s.backend k →
    match call s with
    | (.ok _, t) => R t.backend (next k)
    | (.error _, t) => R t.backend k

theorem moves_under {f : Time → σ → Except Error α × σ} {next : κ → κ}
    (h : ∀ now b k, R b k →
      match f now b with
      | (.ok _, c) => R c (next k)
      | (.error _, c) => R c k) :
    Moves R (under ctx f) next := by
  intro s k related
  cases refused : s.refusal? ctx with
  | some e =>
      rw [under_of_refusal f refused]
      exact related
  | none =>
      have moved := h s.now s.backend k related
      rw [under_of_live f refused]
      cases result : f s.now s.backend with
      | mk outcome b =>
          rw [result] at moved
          cases outcome <;> exact moved

/-- A change that takes place if a check passes moves the reference on if it has to. -/
theorem moves_changeIf {check : σ → Except Error β} {change : σ → β → σ} {next : κ → κ}
    (h : ∀ b k x, check b = .ok x → R b k → R (change b x) (next k)) :
    Moves R (under ctx fun _ b => changeIf (check b) (change b) b) next := by
  refine moves_under fun _ b k related => ?_
  cases checked : check b with
  | error e => exact related
  | ok x => exact h b k x checked related

/-- A call that keeps whatever a reference is related to may leave the reference where it is. -/
theorem Moves.of_keeps {call : Call σ α} (h : ∀ k, call.Keeps fun b => R b k) :
    Moves R ((fun _ => ()) <$> call) id := by
  intro s k related
  have kept := h k s related
  rw [map_apply]
  cases (call s).1 <;> exact kept

end Call

section

variable {ι σ α κ : Type}

/-- Operations keep a backend with a reference, which only those with success move on. -/
def Follows (call : Context → ι → Call σ α) (move : κ → ι → κ) (R : σ → κ → Prop) : Prop :=
  ∀ ctx op, (call ctx op).Moves R fun k => move k op

variable {call : Context → ι → Call σ α} {move : κ → ι → κ} {R : σ → κ → Prop}

theorem Follows.step (h : Follows call move R) (step : Step ι) {s : Session σ} {k : κ}
    (related : R s.backend k) :
    R (step.after call s).backend ((step.done? call s).toList.foldl move k) := by
  cases step with
  | wait span => exact related
  | cancel ctx =>
      show R (s.cancel ctx).backend k
      rw [Session.cancel]
      split <;> exact related
  | call ctx op =>
      have moved := h ctx op s k related
      rw [Step.after, Step.done?]
      cases result : call ctx op s with
      | mk outcome t =>
          rw [result] at moved
          cases outcome <;> exact moved

/-- A backend that follows a reference is with it after every run. -/
theorem Follows.run (h : Follows call move R) (steps : List (Step ι)) {s : Session σ} {k : κ}
    (related : R s.backend k) :
    R (Step.run call steps s).backend ((Step.successes call steps s).foldl move k) := by
  induction steps generalizing s k with
  | nil => exact related
  | cons step rest ih =>
      rw [Step.successes, List.foldl_append]
      exact ih (h.step step related)

end

end Depot
