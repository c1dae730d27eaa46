import Depot.Proofs.Fallible
import Depot.Proofs.Session.Call

/-!
# Calls that come before the commit

What an operation does before it comes to its backend leaves the backend alone: it checks, runs
hooks and encodes. Such a call may raise signals and report events, and when it fails its error does
not claim that anything was done. `Call.Quietly` says this of a call, and what its answer is;
`Call.Answers` says it of a call that cannot fail. Both are put together along the binds of a call.
-/

namespace Depot

/-- An error, if there is one, does not claim that the operation was done. -/
def Early {α : Type} (result : Except Error α) : Prop :=
  ∀ e, result = .error e → e.isPostCommit = false

namespace Early

variable {α β : Type}

theorem ok (a : α) : Early (.ok a) := by
  intro e h
  cases h

theorem error {e : Error} (h : e.isPostCommit = false) : Early (.error e : Except Error α) := by
  intro e' same
  cases same
  exact h

/-- Something that has to be there. -/
theorem present (isThere : Bool) (key : String) :
    Early (if isThere then .ok () else .error (.notFound key)) := by
  split
  · exact ok ()
  · exact error rfl

theorem bind {x : Except Error α} {f : α → Except Error β} (hx : Early x) (hf : ∀ a, Early (f a)) :
    Early (x >>= f) := by
  intro e h
  rcases Fallible.bind_eq_error_iff.1 h with failed | ⟨a, _, failed⟩
  · exact hx e failed
  · exact hf a e failed

theorem map {x : Except Error α} (hx : Early x) (f : α → β) : Early (x.map f) := by
  cases x with
  | error e => exact error (hx e rfl)
  | ok a => exact ok (f a)

end Early

namespace Session

variable {σ : Type}

/-- A session that an operation may reach from another one before it comes to its backend. -/
structure Leads (s t : Session σ) : Prop where
  backend : t.backend = s.backend
  now : t.now = s.now
  raised : ∀ signal ∈ s.raised, signal ∈ t.raised

namespace Leads

variable {s t u : Session σ}

theorem refl (s : Session σ) : s.Leads s :=
  ⟨rfl, rfl, fun _ mem => mem⟩

theorem trans (h : s.Leads t) (h' : t.Leads u) : s.Leads u :=
  ⟨h'.backend.trans h.backend, h'.now.trans h.now, fun x mem => h'.raised x (h.raised x mem)⟩

/-- A context that is live later on was live before. -/
theorem refusal? {ctx : Context} (h : s.Leads t) (live : t.refusal? ctx = none) :
    s.refusal? ctx = none := by
  rw [Session.refusal?] at live ⊢
  split at live
  · cases live
  · next calm =>
      have calm' : ¬ s.isCancelled ctx = true := by
        intro cancelled
        apply calm
        rw [isCancelled, List.contains_iff_mem] at cancelled ⊢
        exact h.raised _ cancelled
      rw [if_neg calm', ← h.now]
      exact live

end Leads

theorem leads_cancel (s : Session σ) (ctx : Context) : s.Leads (s.cancel ctx) := by
  rw [cancel]
  split
  · exact .refl s
  · exact ⟨rfl, rfl, fun _ mem => List.mem_cons_of_mem _ mem⟩

end Session

namespace Call

variable {σ α β : Type} {s : Session σ} {P : α → Prop} {Q : β → Prop}

/-- The call leaves the backend alone and answers as said, or fails early. -/
structure Quietly (call : Call σ α) (s : Session σ) (P : α → Prop) : Prop where
  leads : s.Leads (call s).2
  answer : ∀ a, (call s).1 = .ok a → P a
  early : Early (call s).1

/-- The call leaves the backend alone and answers as said. -/
def Answers (call : Call σ α) (s : Session σ) (P : α → Prop) : Prop :=
  ∃ a t, call s = (.ok a, t) ∧ s.Leads t ∧ P a

theorem Answers.quietly {call : Call σ α} (h : call.Answers s P) : call.Quietly s P := by
  obtain ⟨a, t, result, leads, holds⟩ := h
  constructor
  · rw [result]
    exact leads
  · intro b same
    rw [result] at same
    cases same
    exact holds
  · rw [result]
    exact .ok a

theorem Answers.mono {call : Call σ α} {P' : α → Prop} (h : call.Answers s P)
    (imp : ∀ a, P a → P' a) : call.Answers s P' := by
  obtain ⟨a, t, result, leads, holds⟩ := h
  exact ⟨a, t, result, leads, imp a holds⟩

theorem answers_pure {a : α} (h : P a) : (pure a : Call σ α).Answers s P :=
  ⟨a, s, rfl, .refl s, h⟩

/-- What comes after a call sees the session that the call leaves. -/
theorem Answers.bind_snd {call : Call σ α} {next : α → Call σ β} (h : call.Answers s P)
    (rest : ∀ a, P a → (next a).Answers (call s).2 Q) : (call >>= next).Answers s Q := by
  obtain ⟨a, t, result, leads, holds⟩ := h
  obtain ⟨b, u, result', leads', holds'⟩ := rest a holds
  rw [result] at result' leads'
  refine ⟨b, u, ?_, leads.trans leads', holds'⟩
  rw [bind_apply, result]
  exact result'

theorem Answers.bind {call : Call σ α} {next : α → Call σ β} (h : call.Answers s P)
    (rest : ∀ a t, P a → (next a).Answers t Q) : (call >>= next).Answers s Q :=
  h.bind_snd fun a holds => rest a _ holds

theorem quietly_lift {result : Except Error α} (early : Early result)
    (h : ∀ a, result = .ok a → P a) : (lift result : Call σ α).Quietly s P := by
  constructor
  · rw [lift_apply]
    exact .refl s
  · rw [lift_apply]
    exact h
  · rw [lift_apply]
    exact early

theorem quietly_check (ctx : Context) : (check ctx : Call σ Unit).Quietly s fun _ => True := by
  cases refused : s.refusal? ctx with
  | none =>
      constructor
      · rw [check_of_live refused]
        exact .refl s
      · intro _ _
        trivial
      · rw [check_of_live refused]
        exact .ok ()
  | some e =>
      constructor
      · rw [check_of_refusal refused]
        exact .refl s
      · intro _ _
        trivial
      · rw [check_of_refusal refused]
        rcases Session.refusal?_eq_some refused with rfl | rfl <;> exact .error rfl

theorem Quietly.bind {call : Call σ α} {next : α → Call σ β} (h : call.Quietly s P)
    (rest : ∀ a t, P a → (next a).Quietly t Q) : (call >>= next).Quietly s Q := by
  have leads := h.leads
  have answer := h.answer
  have early := h.early
  cases result : call s with
  | mk outcome t =>
      rw [result] at leads answer early
      cases outcome with
      | error e =>
          have whole : (call >>= next) s = (.error e, t) := by
            rw [bind_apply, result]
          constructor
          · rw [whole]
            exact leads
          · rw [whole]
            intro b same
            cases same
          · rw [whole]
            exact .error (early e rfl)
      | ok a =>
          have whole : (call >>= next) s = next a t := by
            rw [bind_apply, result]
          have later := rest a t (answer a rfl)
          constructor
          · rw [whole]
            exact leads.trans later.leads
          · rw [whole]
            exact later.answer
          · rw [whole]
            exact later.early

/-- A result that is let out leaves the session to what comes after it. -/
theorem quietly_lift_bind {result : Except Error α} {next : α → Call σ β} (early : Early result)
    (rest : ∀ a, result = .ok a → (next a).Quietly s Q) : (lift result >>= next).Quietly s Q := by
  cases result with
  | error e => exact quietly_lift (.error (early e rfl)) nofun
  | ok a => exact rest a rfl

/-- A check of the context leaves the session to what comes after it. -/
theorem quietly_check_bind {ctx : Context} {next : Unit → Call σ β} (rest : (next ()).Quietly s Q) :
    (check ctx >>= next).Quietly s Q := by
  cases refused : s.refusal? ctx with
  | none =>
      have same : (check ctx >>= next) s = next () s := check_bind_of_live refused _
      exact ⟨same ▸ rest.leads, same ▸ rest.answer, same ▸ rest.early⟩
  | some e =>
      have same : (check ctx >>= next) s = (.error e, s) := check_bind_of_refusal refused _
      refine ⟨same ▸ .refl s, fun b answered => ?_, ?_⟩
      · rw [same] at answered
        cases answered
      · rw [same]
        rcases Session.refusal?_eq_some refused with rfl | rfl <;> exact .error rfl

/-- An outcome that is part of an answer may be let out of it, if it is early. -/
theorem Answers.release {call : Call σ (α × Except Error β)} (h : call.Answers s fun p =>
    Early p.2 ∧ ∀ b, p.2 = .ok b → Q b) :
    (do
      let (a, result) ← call
      return (a, ← lift result)).Quietly s fun p => Q p.2 := by
  apply h.quietly.bind
  intro p t holds
  obtain ⟨early, whole⟩ := holds
  apply (quietly_lift early whole).bind
  intro b u hb
  exact (answers_pure (a := (p.1, b)) hb).quietly

theorem Quietly.mono {call : Call σ α} {P' : α → Prop} (h : call.Quietly s P)
    (imp : ∀ a, P a → P' a) : call.Quietly s P' :=
  ⟨h.leads, fun a same => imp a (h.answer a same), h.early⟩

end Call

end Depot
