import Depot.KeyValue.Provider
import Depot.Proofs.Session.Alike

/-!
# Key-value stores in use

What is done to a store is a list of steps: calls of its provider, each under a context of its own,
and in between time that passes and signals that are raised. The clock never goes back. The calls are
data (`Operation`), so a statement about all runs is one about all lists.
-/

namespace Depot.KeyValue

/-- A call of a provider, with all it is called with but the context. -/
inductive Operation
  | get (key : String)
  | set (key : String) (bytes : List UInt8) (span : Time)
  | delete (key : String)
  | has (key : String)
  | list (start : String) (limit : Nat)
  | getBatch (keys : List String)
  | setBatch (items : Dict (List UInt8)) (span : Time)
  | deleteBatch (keys : List String)
  | scan (start : String) (cursor : Option String) (limit : Nat)
  | count (start : String)

/-- What an operation answers. -/
inductive Answer
  | done
  | bytes (b : List UInt8)
  | truth (b : Bool)
  | keys (keys : List String)
  | entries (d : Dict (List UInt8))
  | page (page : Page)
  | count (n : Nat)
deriving DecidableEq

namespace Operation

/-- Whether an operation may change what the store holds. -/
def isWrite : Operation → Bool
  | set .. | delete .. | setBatch .. | deleteBatch .. => true
  | _ => false

variable {σ τ : Type}

def call (p : Provider σ) (ctx : Context) : Operation → Call σ Answer
  | get key => .bytes <$> p.get ctx key
  | set key bytes span => (fun () => .done) <$> p.set ctx key bytes span
  | delete key => (fun () => .done) <$> p.delete ctx key
  | has key => .truth <$> p.has ctx key
  | list start limit => .keys <$> p.list ctx start limit
  | getBatch keys => .entries <$> p.getBatch ctx keys
  | setBatch items span => (fun () => .done) <$> p.setBatch ctx items span
  | deleteBatch keys => (fun () => .done) <$> p.deleteBatch ctx keys
  | scan start cursor limit => .page <$> p.scan ctx start cursor limit
  | count start => .count <$> p.count ctx start

end Operation

/-- One thing that happens to a store or around it. -/
inductive Step
  | call (ctx : Context) (op : Operation)
  | wait (span : Time)
  | cancel (ctx : Context)

/-- Whether a step is a call that does not write. -/
def Step.isRead : Step → Bool
  | call _ op => !op.isWrite
  | _ => false

section

variable {σ τ : Type}

/-- A step as a call; what only happens around the store succeeds. -/
def Step.perform (p : Provider σ) : Step → Call σ Answer
  | call ctx op => op.call p ctx
  | wait span => fun s => (.ok .done, { s with now := s.now + span })
  | cancel ctx => fun s => (.ok .done, s.cancel ctx)

/-- The session after a step. -/
def Step.after (p : Provider σ) (step : Step) (s : Session σ) : Session σ := (step.perform p s).2

/-- The session after a list of steps. -/
def after (p : Provider σ) (steps : List Step) (s : Session σ) : Session σ :=
  steps.foldl (fun s step => step.after p s) s

/-- What comes of each step of a list. -/
def outcomes (p : Provider σ) : List Step → Session σ → List (Except Error Answer)
  | [], _ => []
  | step :: rest, s => (step.perform p s).1 :: outcomes p rest (step.after p s)

theorem after_cons (p : Provider σ) (step : Step) (rest : List Step) (s : Session σ) :
    after p (step :: rest) s = after p rest (step.after p s) := rfl

/-! ### Providers that answer alike -/

/-- Two providers whose calls are alike, one by one. -/
structure Provider.Alike (R : Time → σ → τ → Prop) (p : Provider σ) (q : Provider τ) : Prop where
  get : ∀ ctx key, Call.Alike R (p.get ctx key) (q.get ctx key)
  set : ∀ ctx key bytes span, Call.Alike R (p.set ctx key bytes span) (q.set ctx key bytes span)
  delete : ∀ ctx key, Call.Alike R (p.delete ctx key) (q.delete ctx key)
  has : ∀ ctx key, Call.Alike R (p.has ctx key) (q.has ctx key)
  list : ∀ ctx start limit, Call.Alike R (p.list ctx start limit) (q.list ctx start limit)
  getBatch : ∀ ctx keys, Call.Alike R (p.getBatch ctx keys) (q.getBatch ctx keys)
  setBatch : ∀ ctx items span, Call.Alike R (p.setBatch ctx items span) (q.setBatch ctx items span)
  deleteBatch : ∀ ctx keys, Call.Alike R (p.deleteBatch ctx keys) (q.deleteBatch ctx keys)
  scan : ∀ ctx start cursor limit,
    Call.Alike R (p.scan ctx start cursor limit) (q.scan ctx start cursor limit)
  count : ∀ ctx start, Call.Alike R (p.count ctx start) (q.count ctx start)

variable {R : Time → σ → τ → Prop} {p : Provider σ} {q : Provider τ}

theorem Provider.Alike.call (h : p.Alike R q) (ctx : Context) (op : Operation) :
    Call.Alike R (op.call p ctx) (op.call q ctx) := by
  cases op with
  | get key => exact (h.get ctx key).map _
  | set key bytes span => exact (h.set ctx key bytes span).map _
  | delete key => exact (h.delete ctx key).map _
  | has key => exact (h.has ctx key).map _
  | list start limit => exact (h.list ctx start limit).map _
  | getBatch keys => exact (h.getBatch ctx keys).map _
  | setBatch items span => exact (h.setBatch ctx items span).map _
  | deleteBatch keys => exact (h.deleteBatch ctx keys).map _
  | scan start cursor limit => exact (h.scan ctx start cursor limit).map _
  | count start => exact (h.count ctx start).map _

/-- A relation that lasts as time passes is kept by every step. -/
theorem Provider.Alike.perform (h : p.Alike R q)
    (lasts : ∀ {now later b c}, now ≤ later → R now b c → R later b c) (step : Step) :
    Call.Alike R (step.perform p) (step.perform q) := by
  cases step with
  | call ctx op => exact h.call ctx op
  | wait span => exact fun s b related => ⟨rfl, b, rfl, lasts (Nat.le_add_right ..) related⟩
  | cancel ctx =>
      intro s b related
      refine ⟨rfl, b, ?_⟩
      show (s.withBackend b).cancel ctx = (s.cancel ctx).withBackend b ∧
        R (s.cancel ctx).now (s.cancel ctx).backend b
      rw [Session.cancel, Session.cancel]
      cases raised : s.raised.contains ctx.signal with
      | true => exact ⟨if_pos raised, related⟩
      | false => exact ⟨if_neg (ne_true_of_eq_false raised), related⟩

/-- Stores that are related at first answer alike in every run. -/
theorem Provider.Alike.outcomes (h : p.Alike R q)
    (lasts : ∀ {now later b c}, now ≤ later → R now b c → R later b c) (steps : List Step)
    {s : Session σ} {b : τ} (related : R s.now s.backend b) :
    KeyValue.outcomes p steps s = KeyValue.outcomes q steps (s.withBackend b) := by
  induction steps generalizing s b with
  | nil => rfl
  | cons step rest ih =>
      obtain ⟨same, c, after, kept⟩ := h.perform lasts step s b related
      rw [KeyValue.outcomes, KeyValue.outcomes, same, Step.after, Step.after, after, ih kept]

end

end Depot.KeyValue
