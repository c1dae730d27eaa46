import Depot.Proofs.Record.Write

/-!
# Calls made one after the other

Calls of one kind for the items of a list, each under the same context, go on until one of them fails.
Where each of them does a function of the backend, so do all of them in turn (`Call.inTurn`), since no
time passes and no signal is raised within them (`Call.forM_under`). A call may be made so that it is no
failure if what it is about is not found (`Call.lenient`).
-/

namespace Depot

/-- An outcome with no failure in it if something is not found. -/
def Error.overlook : Except Error Unit → Except Error Unit
  | .ok _ => .ok ()
  | .error e => if e.isNotFound then .ok () else .error e

namespace Call

variable {σ α : Type} {ctx : Context} {s : Session σ}

/-- The call, where it is no failure if something is not found. -/
def lenient (call : Call σ Unit) : Call σ Unit :=
  fun s => (Error.overlook (call s).1, (call s).2)

/-- That a context is dead is not overlooked. -/
theorem lenient_under (f : Time → σ → Except Error Unit × σ) :
    (under ctx f).lenient = under ctx fun now b => (Error.overlook (f now b).1, (f now b).2) := by
  funext s
  rw [lenient]
  cases refused : s.refusal? ctx with
  | some e =>
      rw [under_of_refusal _ refused, under_of_refusal _ refused]
      rcases Session.refusal?_eq_some refused with rfl | rfl <;> rfl
  | none => rw [under_of_live _ refused, under_of_live _ refused]

/-- A function of the backend and an item, done for items in turn up to the first for which it fails. -/
def inTurn (f : α → σ → Except Error Unit × σ) : List α → σ → Except Error Unit × σ
  | [], b => (.ok (), b)
  | a :: rest, b =>
    match f a b with
    | (.ok _, b) => inTurn f rest b
    | (.error e, b) => (.error e, b)

/-- A function that does not fail makes its change for every item. -/
theorem inTurn_of_ok {f : α → σ → Except Error Unit × σ} {change : σ → α → σ}
    (h : ∀ a b, f a b = (.ok (), change b a)) (items : List α) (b : σ) :
    inTurn f items b = (.ok (), items.foldl change b) := by
  induction items generalizing b with
  | nil => rfl
  | cons a rest ih =>
      rw [inTurn, h]
      exact ih (change b a)

/-- Under a live context, calls made in turn do their functions in turn. -/
theorem forM_under (f : α → Time → σ → Except Error Unit × σ) (items : List α)
    (live : s.refusal? ctx = none) :
    (items.forM fun a => under ctx (f a)) s =
      ((inTurn (fun a => f a s.now) items s.backend).1,
        s.withBackend (inTurn (fun a => f a s.now) items s.backend).2) := by
  induction items generalizing s with
  | nil => rfl
  | cons a rest ih =>
      show (under ctx (f a) >>= fun _ => rest.forM fun a => under ctx (f a)) s = _
      rw [bind_apply, under_of_live _ live, inTurn]
      cases f a s.now s.backend with
      | mk outcome b =>
          cases outcome with
          | error e => rfl
          | ok _ => exact ih (s := s.withBackend b) live

theorem forM_under_of_ok {f : α → Time → σ → Except Error Unit × σ} {change : σ → α → σ}
    (h : ∀ a b, f a s.now b = (.ok (), change b a)) (items : List α) (live : s.refusal? ctx = none) :
    (items.forM fun a => under ctx (f a)) s = (.ok (), s.withBackend (items.foldl change s.backend)) := by
  rw [forM_under f items live, inTurn_of_ok h]

/-- Under a dead context the first call fails. -/
theorem forM_under_of_refusal (f : α → Time → σ → Except Error Unit × σ) {items : List α}
    (nonempty : items ≠ []) {e : Error} (dead : s.refusal? ctx = some e) :
    (items.forM fun a => under ctx (f a)) s = (.error e, s) := by
  obtain ⟨a, rest, rfl⟩ := List.exists_cons_of_ne_nil nonempty
  show (under ctx (f a) >>= fun _ => rest.forM fun a => under ctx (f a)) s = _
  rw [bind_apply, under_of_refusal _ dead]

/-- A function that leaves the backend alone where it fails leaves the whole session alone. -/
theorem session_of_error {f : Time → σ → Except Error α × σ}
    (whole : ∀ now b e, (f now b).1 = .error e → (f now b).2 = b) {e : Error}
    (failed : (under ctx f s).1 = .error e) : (under ctx f s).2 = s := by
  cases refused : s.refusal? ctx with
  | some e' => rw [under_of_refusal f refused]
  | none =>
      rw [under_of_live f refused] at failed ⊢
      rw [whole s.now s.backend e failed]
      rfl

theorem backend_of_changeIf {β : Type} {check : Except Error β} {change : β → σ} {b : σ} {e : Error}
    (failed : (changeIf check change b).1 = .error e) : (changeIf check change b).2 = b := by
  cases check with
  | error e' => rfl
  | ok x => cases failed

end Call

end Depot
