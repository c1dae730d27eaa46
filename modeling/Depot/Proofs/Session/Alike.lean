import Depot.Proofs.Record.Write

/-!
# Calls that answer alike

Two backends of different kinds are compared through what their calls answer. A relation between
them, which may depend on the time, is kept if related backends answer the same and are related
afterwards (`Call.Alike`). Nothing else in the sessions differs, so calls that are alike stay so
when they are made one after the other.
-/

namespace Depot.Call

variable {σ τ α β : Type} {R : Time → σ → τ → Prop} {ctx : Context}

/-- The call that asks the backend, if the context is live, and leaves everything as it is. -/
def reading (ctx : Context) (f : Time → σ → Except Error α) : Call σ α :=
  under ctx fun now b => (f now b, b)

section

variable {f : Time → σ → Except Error α} {s : Session σ}

theorem reading_of_live (f : Time → σ → Except Error α) (live : s.refusal? ctx = none) :
    reading ctx f s = (f s.now s.backend, s) :=
  under_of_live _ live

theorem reading_of_refusal (f : Time → σ → Except Error α) {e : Error}
    (dead : s.refusal? ctx = some e) : reading ctx f s = (.error e, s) :=
  under_of_refusal _ dead

theorem session_reading (f : Time → σ → Except Error α) (s : Session σ) :
    (reading ctx f s).2 = s := by
  cases refused : s.refusal? ctx with
  | some e => rw [reading_of_refusal f refused]
  | none => rw [reading_of_live f refused]

/-- A question that is answered is asked in a live context. -/
theorem reading_eq_ok {a : α} (answer : (reading ctx f s).1 = .ok a) :
    s.refusal? ctx = none ∧ f s.now s.backend = .ok a := by
  cases refused : s.refusal? ctx with
  | some e =>
      rw [reading_of_refusal f refused] at answer
      cases answer
  | none =>
      rw [reading_of_live f refused] at answer
      exact ⟨rfl, answer⟩

/-- A call that checks its context and then asks the backend. -/
theorem check_bind_eq_reading {next : Unit → Call σ α}
    (h : ∀ s, next () s = (f s.now s.backend, s)) : (check ctx >>= next) = reading ctx f :=
  check_bind_eq_under h

end

/-- Calls on two backends that answer the same and keep the backends related. -/
def Alike (R : Time → σ → τ → Prop) (call : Call σ α) (other : Call τ α) : Prop :=
  ∀ s b, R s.now s.backend b →
    (other (s.withBackend b)).1 = (call s).1 ∧
      ∃ c, (other (s.withBackend b)).2 = (call s).2.withBackend c ∧
        R (call s).2.now (call s).2.backend c

theorem Alike.map {call : Call σ α} {other : Call τ α} (h : Alike R call other) (f : α → β) :
    Alike R (f <$> call) (f <$> other) := by
  intro s b related
  obtain ⟨same, after⟩ := h s b related
  rw [map_apply, map_apply, same]
  exact ⟨rfl, after⟩

/-- Functions of the backend are alike, under one context, if they are on related backends. -/
theorem alike_under {f : Time → σ → Except Error α × σ} {g : Time → τ → Except Error α × τ}
    (h : ∀ now b c, R now b c → (g now c).1 = (f now b).1 ∧ R now (f now b).2 (g now c).2) :
    Alike R (under ctx f) (under ctx g) := by
  intro s b related
  cases refused : s.refusal? ctx with
  | some e =>
      rw [under_of_refusal f refused, under_of_refusal (s := s.withBackend b) g refused]
      exact ⟨rfl, b, rfl, related⟩
  | none =>
      obtain ⟨same, after⟩ := h s.now s.backend b related
      rw [under_of_live f refused, under_of_live (s := s.withBackend b) g refused]
      exact ⟨same, _, rfl, after⟩

/-- Questions are alike if they have the same answer on related backends. -/
theorem alike_reading {f : Time → σ → Except Error α} {g : Time → τ → Except Error α}
    (h : ∀ now b c, R now b c → g now c = f now b) : Alike R (reading ctx f) (reading ctx g) :=
  alike_under fun now b c related => ⟨h now b c related, related⟩

end Depot.Call
