import Depot.Proofs.Session.Call

/-!
# Calls under dead contexts

A context is dead once it was cancelled or its deadline has passed. A call that checks its context before
everything but its own arguments does nothing under a dead one (`Call.Barred`): it fails, and the session
stays as it is, with all that is in it. To know this of a call it is enough to look at its beginning,
since an error ends it.
-/

namespace Depot

/-- A call failed before it did anything, because of its key, its statement or its context. -/
def Error.IsRefusal : Error → Prop
  | invalidKey _ | invalidQuery _ | cancelled | deadlineExceeded => True
  | _ => False

namespace Call

variable {σ α β γ : Type} {ctx : Context}

/-- The error of arguments that are looked at first, if they have one, and else another one. -/
def firstError (args : Except Error γ) (e : Error) : Error :=
  match args with
  | .error own => own
  | .ok _ => e

@[simp] theorem firstError_map {δ : Type} (f : γ → δ) (args : Except Error γ) (e : Error) :
    firstError (f <$> args) e = firstError args e := by
  cases args <;> rfl

/-- Under a dead context the call does nothing. It fails because of its arguments, if these are looked at
first and refused, and else because of the context. -/
def Barred (ctx : Context) (args : Except Error γ) (call : Call σ α) : Prop :=
  ∀ s e, s.refusal? ctx = some e → call s = (.error (firstError args e), s)

theorem barred_check_bind (next : Unit → Call σ α) : (check ctx >>= next).Barred ctx (.ok ()) :=
  fun _ _ dead => check_bind_of_refusal dead next

theorem barred_lift_bind {args : Except Error γ} {next : γ → Call σ α}
    (h : ∀ a, (next a).Barred ctx (.ok ())) : (lift args >>= next).Barred ctx args := by
  intro s e dead
  rw [bind_apply, lift_apply]
  cases args with
  | error own => rfl
  | ok a => exact h a s e dead

/-- What follows is not reached. -/
theorem Barred.bind {args : Except Error γ} {call : Call σ α} (h : call.Barred ctx args)
    (next : α → Call σ β) : (call >>= next).Barred ctx args := by
  intro s e dead
  rw [bind_apply, h s e dead]

theorem Barred.map {args : Except Error γ} {call : Call σ α} (h : call.Barred ctx args) (f : α → β) :
    (f <$> call).Barred ctx args :=
  h.bind _

/-- An error that is kept in the answer. -/
theorem Barred.attempt {args : Except Error γ} {call : Call σ α} (h : call.Barred ctx args)
    {s : Session σ} {e : Error} (dead : s.refusal? ctx = some e) :
    attempt call s = (.ok (.error (firstError args e)), s) := by
  rw [attempt_apply, h s e dead]

theorem isRefusal_firstError {args : Except Error γ} {s : Session σ} {e : Error}
    (refuses : ∀ own, args = .error own → own.IsRefusal) (dead : s.refusal? ctx = some e) :
    (firstError args e).IsRefusal := by
  cases args with
  | error own => exact refuses own rfl
  | ok _ => rcases Session.refusal?_eq_some dead with rfl | rfl <;> trivial

end Call

end Depot
