import Depot.Error
import Depot.Number.Power

/-!
# Sessions and calls

A call is what an operation does to a session: it answers with a value or an error and leaves a
session behind. The session holds what the operation works on (`backend`) together with the clock,
the signals that were raised, and what hooks and warnings left behind. A failing call keeps the
session it reached, since work done before a failure is not undone by it.

A context names a cancellation signal and may have a deadline. Contexts that are made from one
another share the signal, so raising it cancels all of them.
-/

namespace Depot

/-- A moment or a span of time, in nanoseconds. -/
abbrev Time := Nat

namespace Time

/-- The first moment that the clock cannot show. -/
def horizon : Time := 2 ^ 63 * 1000000000

def milliseconds (n : Nat) : Time := n * 1000000

def longest : Time := (2 ^ 64 - 1) * 1000000000 + 999999999

/-- The moment a span after another, if the clock can show it. -/
def after? (now span : Time) : Option Time :=
  if now + span < horizon then some (now + span) else none

end Time

/-- Under which signal and until when an operation may run. -/
structure Context where
  signal : Nat
  deadline : Option Time := none
deriving DecidableEq, Inhabited

namespace Context

/-- The context with a deadline, unless its own one is earlier. -/
def withDeadline (ctx : Context) (deadline : Time) : Context :=
  match ctx.deadline with
  | some own => if own < deadline then ctx else { ctx with deadline := some deadline }
  | none => { ctx with deadline := some deadline }

/-- The context with a deadline a span from now; a moment the clock cannot show is no deadline. -/
def withTimeout (ctx : Context) (now span : Time) : Context :=
  match Time.after? now span with
  | some deadline => ctx.withDeadline deadline
  | none => ctx

@[simp] theorem signal_withDeadline (ctx : Context) (deadline : Time) :
    (ctx.withDeadline deadline).signal = ctx.signal := by
  unfold withDeadline
  split
  · split <;> rfl
  · rfl

/-- A deadline is never moved back. -/
theorem deadline_withDeadline (ctx : Context) (deadline : Time) :
    ∃ d, (ctx.withDeadline deadline).deadline = some d ∧ d ≤ deadline := by
  unfold withDeadline
  split
  · next own h =>
    split
    · next lt => exact ⟨own, h, Nat.le_of_lt lt⟩
    · exact ⟨deadline, rfl, Nat.le_refl _⟩
  · exact ⟨deadline, rfl, Nat.le_refl _⟩

end Context

/-- What calls work on and leave behind. -/
structure Session (σ : Type) where
  backend : σ
  now : Time := 0
  raised : List Nat := []
  /-- What hooks reported, the oldest first. -/
  events : List String := []
  /-- The warnings that were logged, the oldest first. -/
  warnings : List String := []

namespace Session

variable {σ τ : Type}

def isCancelled (s : Session σ) (ctx : Context) : Bool :=
  s.raised.contains ctx.signal

/-- Why no operation may run under a context, if so. Cancellation comes before the deadline. -/
def refusal? (s : Session σ) (ctx : Context) : Option Error :=
  if s.isCancelled ctx then some .cancelled
  else
    match ctx.deadline with
    | some deadline => if deadline ≤ s.now then some .deadlineExceeded else none
    | none => none

def withBackend (s : Session σ) (backend : τ) : Session τ :=
  ⟨backend, s.now, s.raised, s.events, s.warnings⟩

def cancel (s : Session σ) (ctx : Context) : Session σ :=
  if s.raised.contains ctx.signal then s else { s with raised := ctx.signal :: s.raised }

end Session

/-- An operation on a session with an answer or an error. -/
def Call (σ α : Type) : Type :=
  Session σ → Except Error α × Session σ

namespace Call

variable {σ α β : Type}

def answer (a : α) : Call σ α :=
  fun s => (.ok a, s)

def fail (e : Error) : Call σ α :=
  fun s => (.error e, s)

/-- One call and then another that depends on its answer; an error ends both. -/
def andThen (call : Call σ α) (next : α → Call σ β) : Call σ β :=
  fun s =>
    match call s with
    | (.ok a, s) => next a s
    | (.error e, s) => (.error e, s)

instance : Monad (Call σ) where
  pure := answer
  bind := andThen

instance : LawfulMonad (Call σ) :=
  LawfulMonad.mk' (Call σ)
    (fun call => by
      funext s
      show andThen call (fun a => answer a) s = call s
      unfold andThen
      split <;> simp_all [answer])
    (fun _ _ => rfl)
    (fun call f g => by
      funext s
      show andThen (andThen call f) g s = andThen call (fun a => andThen (f a) g) s
      unfold andThen
      split <;> split <;> simp_all)

/-- An answer or error that needs no session. -/
def lift : Except Error α → Call σ α
  | .ok a => answer a
  | .error e => fail e

/-- The call with its error as part of the answer. -/
def attempt (call : Call σ α) : Call σ (Except Error α) :=
  fun s =>
    let (result, s) := call s
    (.ok result, s)

def session : Call σ (Session σ) :=
  fun s => (.ok s, s)

def backend : Call σ σ :=
  fun s => (.ok s.backend, s)

def setBackend (backend : σ) : Call σ Unit :=
  fun s => (.ok (), { s with backend })

/-- Fails if a context was cancelled or its deadline has passed. -/
def check (ctx : Context) : Call σ Unit :=
  fun s =>
    match s.refusal? ctx with
    | some e => (.error e, s)
    | none => (.ok (), s)

def cancel (ctx : Context) : Call σ Unit :=
  fun s => (.ok (), s.cancel ctx)

def warn (text : String) : Call σ Unit :=
  fun s => (.ok (), { s with warnings := s.warnings ++ [text] })

def report (events : List String) : Call σ Unit :=
  fun s => (.ok (), { s with events := s.events ++ events })

@[simp] theorem pure_apply (a : α) (s : Session σ) : (pure a : Call σ α) s = (.ok a, s) := rfl

@[simp] theorem fail_apply (e : Error) (s : Session σ) : (fail e : Call σ α) s = (.error e, s) := rfl

theorem bind_apply (call : Call σ α) (next : α → Call σ β) (s : Session σ) :
    (call >>= next) s =
      match call s with
      | (.ok a, s) => next a s
      | (.error e, s) => (.error e, s) := rfl

theorem check_of_refusal {ctx : Context} {s : Session σ} {e : Error} (h : s.refusal? ctx = some e) :
    check ctx s = (.error e, s) := by
  simp [check, h]

theorem check_of_live {ctx : Context} {s : Session σ} (h : s.refusal? ctx = none) :
    check ctx s = (.ok (), s) := by
  simp [check, h]

end Call

end Depot
