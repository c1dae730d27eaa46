import Depot.Proofs.Fallible
import Depot.Proofs.Record.Firing

/-!
# How a batch ends

A batch is made of items, and each of them has a hook before and one after (`BatchItem`). A hook runs on
the occasion that the hooks before it leave, so an item is what it is when it is its turn
(`BatchItem.inTurn`), and two items of one key may end differently.

A batch ends in one of three ways (`BatchEnds`). It is stopped by the first item that is not ready, and
then no provider is called; or its provider fails, and then no hook after it runs; or it is done, and
then all hooks after it run, whatever becomes of each of them. The loops of the stores differ in what
their items are. Which hooks run while the items are prepared one by one is said by `BatchItem.trace`, and
`BatchItem.ends_of_provide` makes the end of a batch of it.
-/

namespace Depot

/-! ### Items -/

/-- One item of a batch: what is checked of it, the hooks around the batch, what the hook before it
leaves of it, and what of that is for the provider. The hook after it has its occasion yet to come. -/
structure BatchItem (ι β : Type) where
  given : ι
  check : Except Error Unit
  before : Firing
  left : ι
  entry : Except Error β
  after : Occasion → Firing

namespace BatchItem

variable {ι β : Type}

/-- What an item is for the provider, or why it is not ready. -/
def prepared (i : BatchItem ι β) : Except Error β := do
  i.check
  i.before.outcome
  i.entry

/-- The hooks that run for an item before its batch: none if the checks fail. -/
def opened (i : BatchItem ι β) : List Firing :=
  match i.check with
  | .ok _ => [i.before]
  | .error _ => []

/-- An item when it was its turn. -/
def turned (i : BatchItem ι β) : ι :=
  match i.check with
  | .ok _ => i.left
  | .error _ => i.given

/-- The hooks that run while items are prepared, up to the first one that is not ready. -/
def trace : List (BatchItem ι β) → List Firing
  | [] => []
  | i :: rest => i.opened ++ if i.prepared.isOk then trace rest else []

/-- Items when they were prepared, up to the first one that is not ready. -/
def leave : List (BatchItem ι β) → List ι
  | [] => []
  | i :: rest => i.turned :: if i.prepared.isOk then leave rest else rest.map given

/-- The items of a batch, each of them as it is on the occasion that the hooks of those before it leave. -/
def inTurn {σ α : Type} (ctx : Context) (item : Occasion → α → BatchItem ι β) :
    List α → Session σ → List (BatchItem ι β)
  | [], _ => []
  | x :: rest, s =>
    let own := item (s.occasion ctx) x
    own :: inTurn ctx item rest (s.fired ctx own.opened)

end BatchItem

/-- How a batch ends that is under way in a session: the items as they are then, the outcome and the
session. -/
inductive BatchEnds {σ ι β : Type} (ctx : Context) (items : List (BatchItem ι β))
    (provide : List β → Call σ Unit) (s : Session σ) :
    List ι → Except Error Unit → Session σ → Prop
  /-- The first item that is not ready stops the batch before the provider is called. -/
  | stopped {front rest : List (BatchItem ι β)} {item : BatchItem ι β} {e : Error}
      (split : items = front ++ item :: rest) (ready : ∀ i ∈ front, ∃ entry, i.prepared = .ok entry)
      (unready : item.prepared = .error e) :
      BatchEnds ctx items provide s
        (front.map BatchItem.left ++ item.turned :: rest.map BatchItem.given) (.error e)
        (s.fired ctx (front.map BatchItem.before ++ item.opened))
  /-- The provider fails, and no hook runs after it. -/
  | failed {entries : List β} {e : Error} {t : Session σ}
      (ready : items.mapM BatchItem.prepared = .ok entries)
      (called : provide entries (s.fired ctx (items.map BatchItem.before)) = (.error e, t)) :
      BatchEnds ctx items provide s (items.map BatchItem.left) (.error e) t
  /-- The provider has done the batch, and all hooks run after it. The first failure counts. -/
  | done {entries : List β} {t : Session σ} {ran : List Firing}
      (ready : items.mapM BatchItem.prepared = .ok entries)
      (called : provide entries (s.fired ctx (items.map BatchItem.before)) = (.ok (), t))
      (after : t.firings ctx (items.map BatchItem.after) = ran) :
      BatchEnds ctx items provide s (items.map BatchItem.left) (ran.forM Firing.outcome)
        (t.fired ctx ran)

namespace BatchItem

variable {σ ι β : Type} {ctx : Context} {items : List (BatchItem ι β)} {provide : List β → Call σ Unit}
  {s : Session σ}

theorem opened_of_prepared {i : BatchItem ι β} {entry : β} (ready : i.prepared = .ok entry) :
    i.opened = [i.before] ∧ i.turned = i.left := by
  rw [prepared, Fallible.bind_eq_ok_iff] at ready
  obtain ⟨_, checked, _⟩ := ready
  rw [opened, turned, checked]
  exact ⟨rfl, rfl⟩

/-- If all items are ready, all hooks before them have run. -/
theorem trace_of_ready {entries : List β} (ready : items.mapM prepared = .ok entries) :
    trace items = items.map before ∧ leave items = items.map left := by
  induction items generalizing entries with
  | nil => exact ⟨rfl, rfl⟩
  | cons i rest ih =>
      rw [List.mapM_cons, Fallible.bind_eq_ok_iff] at ready
      obtain ⟨entry, own, ready⟩ := ready
      obtain ⟨_, others, _⟩ := Fallible.bind_eq_ok_iff.1 ready
      obtain ⟨ran, left⟩ := ih others
      obtain ⟨opened, turned⟩ := opened_of_prepared own
      rw [trace, leave, opened, turned, own, List.map_cons, List.map_cons, ← ran, ← left]
      exact ⟨rfl, rfl⟩

/-- Items of which no hook changes anything are left as they are. -/
theorem leave_of_same (same : ∀ i ∈ items, i.left = i.given) : leave items = items.map given := by
  induction items with
  | nil => rfl
  | cons i rest ih =>
      obtain ⟨own, others⟩ := List.forall_mem_cons.1 same
      have turned : i.turned = i.given := by
        rw [BatchItem.turned]
        split
        · exact own
        · rfl
      rw [leave, turned, ih others, ite_self, List.map_cons]

/-- If not all items are ready, there is a first one that is not. -/
theorem exists_first {e : Error} (unready : items.mapM prepared = .error e) :
    ∃ front item rest, items = front ++ item :: rest ∧ (∀ i ∈ front, ∃ entry, i.prepared = .ok entry) ∧
      item.prepared = .error e ∧ trace items = front.map before ++ item.opened ∧
      leave items = front.map left ++ item.turned :: rest.map given := by
  induction items with
  | nil => cases unready
  | cons i rest ih =>
      rw [List.mapM_cons, Fallible.bind_eq_error_iff] at unready
      rcases unready with own | ⟨entry, own, unready⟩
      · refine ⟨[], i, rest, rfl, List.forall_mem_nil _, own, ?_, ?_⟩
        · rw [trace, own]
          exact List.append_nil _
        · rw [leave, own]
          rfl
      · rcases Fallible.bind_eq_error_iff.1 unready with others | ⟨_, _, others⟩
        · obtain ⟨front, item, rest', rfl, ready, last, ran, left⟩ := ih others
          obtain ⟨opened, turned⟩ := opened_of_prepared own
          refine ⟨i :: front, item, rest', rfl, List.forall_mem_cons.2 ⟨⟨entry, own⟩, ready⟩, last,
            ?_, ?_⟩
          · rw [trace, opened, own, ran]
            rfl
          · rw [leave, turned, own, left]
            rfl
        · cases others

/-- What does not depend on the occasion is the same for all items, whenever it is their turn. -/
theorem map_inTurn {α γ : Type} {item : Occasion → α → BatchItem ι β} {f : BatchItem ι β → γ} {g : α → γ}
    (same : ∀ now x, f (item now x) = g x) (xs : List α) (s : Session σ) :
    (inTurn ctx item xs s).map f = xs.map g := by
  induction xs generalizing s with
  | nil => rfl
  | cons x rest ih => rw [inTurn, List.map_cons, List.map_cons, same, ih]

theorem forall_inTurn {α : Type} {item : Occasion → α → BatchItem ι β} {P : BatchItem ι β → Prop}
    (holds : ∀ now x, P (item now x)) (xs : List α) (s : Session σ) : ∀ i ∈ inTurn ctx item xs s, P i := by
  induction xs generalizing s with
  | nil => exact List.forall_mem_nil _
  | cons x rest ih => exact List.forall_mem_cons.2 ⟨holds _ x, ih _⟩

/-- A loop that prepares items one after the other, up to the first one that is not ready. -/
theorem prepares {α : Type} {prepare : α → Call σ (ι × Except Error β)}
    {loop : List α → Call σ (List ι × Except Error (List β))} {item : Occasion → α → BatchItem ι β}
    (one : ∀ x s, let own := item (s.occasion ctx) x
      prepare x s = (.ok (own.turned, own.prepared), s.fired ctx own.opened))
    (given : α → ι) (isGiven : ∀ now x, (item now x).given = given x) (nil : loop [] = pure ([], .ok []))
    (cons : ∀ x rest, loop (x :: rest) = do
      let p ← prepare x
      match p.2 with
      | .error e => return (p.1 :: rest.map given, .error e)
      | .ok entry => do
        let others ← loop rest
        return (p.1 :: others.1, others.2.map fun entries => entry :: entries))
    (xs : List α) (s : Session σ) :
    let items := inTurn ctx item xs s
    loop xs s = (.ok (leave items, items.mapM prepared), s.fired ctx (trace items)) := by
  induction xs generalizing s with
  | nil =>
      show loop [] s = (_, s.fired ctx [])
      rw [nil, Session.fired_nil]
      rfl
  | cons x rest ih =>
      intro items
      let own := item (s.occasion ctx) x
      have later := ih (s.fired ctx own.opened)
      have split : items = own :: inTurn ctx item rest (s.fired ctx own.opened) := rfl
      rw [cons, Call.bind_apply, one, split, List.mapM_cons, leave, trace]
      dsimp only
      cases ready : own.prepared with
      | error e =>
          simp only [Except.isOk, Except.toBool, Bool.false_eq_true, if_false, List.append_nil,
            map_inTurn isGiven]
          rfl
      | ok entry =>
          dsimp only at later ⊢
          rw [Call.bind_apply, later, Session.fired_fired]
          dsimp only
          simp only [Except.isOk, Except.toBool, if_true]
          cases (inTurn ctx item rest (s.fired ctx own.opened)).mapM prepared <;> rfl

/-- A loop that prepares items of which nothing is left. -/
theorem preparesEach {α : Type} {prepare : α → Call σ Unit} {loop : List α → Call σ Unit}
    {item : Occasion → α → BatchItem ι Unit}
    (one : ∀ x s, let own := item (s.occasion ctx) x
      prepare x s = (own.prepared, s.fired ctx own.opened))
    (nil : loop [] = pure ())
    (cons : ∀ x rest, loop (x :: rest) = do
      prepare x
      loop rest)
    (xs : List α) (s : Session σ) :
    let items := inTurn ctx item xs s
    loop xs s = ((items.mapM prepared).map fun _ => (), s.fired ctx (trace items)) := by
  induction xs generalizing s with
  | nil =>
      show loop [] s = (_, s.fired ctx [])
      rw [nil, Session.fired_nil]
      rfl
  | cons x rest ih =>
      intro items
      let own := item (s.occasion ctx) x
      have later := ih (s.fired ctx own.opened)
      have split : items = own :: inTurn ctx item rest (s.fired ctx own.opened) := rfl
      rw [cons, Call.bind_apply, one, split, List.mapM_cons, trace]
      cases ready : own.prepared with
      | error e =>
          simp only [Except.isOk, Except.toBool, Bool.false_eq_true, if_false, List.append_nil]
          rfl
      | ok _ =>
          dsimp only at later ⊢
          rw [later, Session.fired_fired]
          simp only [Except.isOk, Except.toBool, if_true]
          cases (inTurn ctx item rest (s.fired ctx own.opened)).mapM prepared <;> rfl

/-- A batch whose items are prepared comes to the provider if all of them are ready, and then to the
hooks after it. -/
theorem ends_of_provide (ctx : Context) (items : List (BatchItem ι β)) (provide : List β → Call σ Unit)
    (after : Call σ (Except Error Unit)) (s : Session σ)
    (h : leave items = items.map left → ∀ t, let ran := t.firings ctx (items.map BatchItem.after)
      after t = (.ok (ran.forM Firing.outcome), t.fired ctx ran)) :
    let r := (do
      let entries ← Call.lift (items.mapM prepared)
      provide entries
      Call.lift (← after) : Call σ Unit) (s.fired ctx (trace items))
    BatchEnds ctx items provide s (leave items) r.1 r.2 := by
  intro r
  cases ready : items.mapM prepared with
  | error e =>
      have stopped : r = (.error e, s.fired ctx (trace items)) := by
        show (Call.lift (items.mapM prepared) >>= _) _ = _
        rw [ready]
        rfl
      obtain ⟨front, item, rest, split, before, last, ran, left⟩ := exists_first ready
      rw [stopped, ran, left]
      exact .stopped split before last
  | ok entries =>
      obtain ⟨ran, left⟩ := trace_of_ready ready
      have provided : r = (provide entries >>= fun _ => after >>= Call.lift)
          (s.fired ctx (items.map before)) := by
        show (Call.lift (items.mapM prepared) >>= _) _ = _
        rw [ready, ran]
        rfl
      rw [left, provided, Call.bind_apply]
      rcases called : provide entries (s.fired ctx (items.map before)) with ⟨e | _, t⟩
      · exact .failed ready called
      · dsimp only
        rw [Call.bind_apply, h left t]
        dsimp only
        rw [Call.lift_apply]
        exact .done ready called rfl

end BatchItem

end Depot
