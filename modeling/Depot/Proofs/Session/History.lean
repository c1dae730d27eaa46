import Depot.Proofs.Session.Run

/-!
# What stands under a key

A write says of some keys what is to stand under them from then on, or that nothing is (`Notes`). What
stands under a key after a run is what the last successful write that names the key says of it
(`Notes.stands`), unless it was written for a span that is over by then (`Kept.isThere`).

A backend keeps with the notes of the writes done to it if each operation with success adds its notes,
made at the moment of the call, and one that fails adds none (`Call.Adds`). Then it is with the notes
of the whole run (`Step.history_run`).
-/

namespace Depot

/-- A record as it was written: until when it stands, if not for good. -/
structure Kept (ρ : Type) where
  record : ρ
  deadline : Option Time := none

namespace Kept

/-- Whether the record stands at a moment. -/
def isThere {ρ : Type} (now : Time) (kept : Kept ρ) : Bool :=
  match kept.deadline with
  | none => true
  | some moment => now < moment

end Kept

/-- What writes say of keys, the oldest first. -/
abbrev Notes (κ α : Type) := List (κ × Option α)

namespace Notes

variable {κ α β : Type} {is : κ → Bool}

/-- What stands under the keys of a kind after some notes, given what stood there before. -/
def stands (is : κ → Bool) (notes : Notes κ α) (before : Option α) : Option α :=
  notes.foldl (fun standing note => if is note.1 then note.2 else standing) before

/-- The notes with something else in place of what they say. -/
def map (f : α → β) (notes : Notes κ α) : Notes κ β :=
  List.map (fun note => (note.1, note.2.map f)) notes

@[simp] theorem stands_nil (before : Option α) : stands is [] before = before := rfl

theorem stands_append (first rest : Notes κ α) (before : Option α) :
    stands is (first ++ rest) before = stands is rest (stands is first before) := by
  rw [stands, List.foldl_append]
  rfl

theorem stands_cons (note : κ × Option α) (rest : Notes κ α) (before : Option α) :
    stands is (note :: rest) before = stands is rest (if is note.1 then note.2 else before) := rfl

theorem stands_map (f : α → β) (notes : Notes κ α) (before : Option α) :
    stands is (notes.map f) (before.map f) = (stands is notes before).map f := by
  induction notes generalizing before with
  | nil => rfl
  | cons note rest ih =>
      rw [stands_cons, ← ih, map, List.map_cons, stands_cons, ← apply_ite (Option.map f)]
      rfl

theorem stands_map_none (f : α → β) (notes : Notes κ α) :
    stands is (notes.map f) none = (stands is notes none).map f := stands_map f notes none

theorem map_append (f : α → β) (first rest : Notes κ α) :
    map f (first ++ rest) = map f first ++ map f rest := List.map_append

/-- One note more counts for its own key alone. -/
theorem stands_concat (notes : Notes String α) (key other : String) (a before : Option α) :
    stands (· == other) (notes ++ [(key, a)]) before =
      if other = key then a else stands (· == other) notes before := by
  rw [stands_append, stands_cons, stands_nil]
  by_cases same : other = key
  · simp [same]
  · simp [same, Ne.symm same]

theorem stands_note (f : α → β) (notes : Notes String α) (key other : String) (a : Option α)
    (before : Option β) :
    stands (· == other) (map f (notes ++ [(key, a)])) before =
      if other = key then a.map f else stands (· == other) (map f notes) before := by
  rw [map_append]
  exact stands_concat (map f notes) key other (a.map f) before

/-- What notes put under a key stands there, whatever was there before. -/
theorem stands_of_stands_none {notes : Notes κ α} {a : α} (h : stands is notes none = some a)
    (before : Option α) : stands is notes before = some a := by
  induction notes generalizing before with
  | nil => cases h
  | cons note rest ih =>
      rw [stands_cons] at h ⊢
      cases named : is note.1 with
      | true => simpa [named] using h
      | false => exact ih (by simpa [named] using h) _

theorem stands_map_of_stands_none {notes : Notes κ α} {a : α} (h : stands is notes none = some a)
    (f : α → β) (before : Option β) : stands is (notes.map f) before = some (f a) := by
  apply stands_of_stands_none
  rw [stands_map_none, h, Option.map_some]

/-- What stands was noted, under a key of the kind. -/
theorem exists_mem_of_stands {notes : Notes κ α} {a : α} (h : stands is notes none = some a) :
    ∃ key, is key = true ∧ (key, some a) ∈ notes := by
  have origin (notes : Notes κ α) (before : Option α) (h : stands is notes before = some a) :
      before = some a ∨ ∃ key, is key = true ∧ (key, some a) ∈ notes := by
    induction notes generalizing before with
    | nil => exact .inl h
    | cons note rest ih =>
        rcases ih _ h with first | ⟨key, kind, mem⟩
        · cases named : is note.1 with
          | false => exact .inl (by simpa [named] using first)
          | true =>
              simp only [named, if_true] at first
              exact .inr ⟨note.1, named, by simp [← first]⟩
        · exact .inr ⟨key, kind, List.mem_cons_of_mem _ mem⟩
  exact (origin notes none h).resolve_left nofun

end Notes

section

variable {ι σ α κ β : Type}

namespace Call

variable {R : Time → σ → Notes κ β → Prop} {ctx : Context} {notes : Time → Notes κ β}

/-- The call keeps a backend with the notes of what was done to it, to which it adds its own if it
succeeds. It takes no time. -/
def Adds (R : Time → σ → Notes κ β → Prop) (call : Call σ α) (notes : Time → Notes κ β) : Prop :=
  ∀ s past, R s.now s.backend past →
    (call s).2.now = s.now ∧
      match (call s).1 with
      | .ok _ => R s.now (call s).2.backend (past ++ notes s.now)
      | .error _ => R s.now (call s).2.backend past

theorem adds_under {f : Time → σ → Except Error α × σ}
    (h : ∀ now b past, R now b past →
      match (f now b).1 with
      | .ok _ => R now (f now b).2 (past ++ notes now)
      | .error _ => R now (f now b).2 past) :
    Adds R (under ctx f) notes := by
  intro s past related
  cases refused : s.refusal? ctx with
  | some e =>
      rw [under_of_refusal f refused]
      exact ⟨rfl, related⟩
  | none =>
      rw [under_of_live f refused]
      exact ⟨rfl, h s.now s.backend past related⟩

/-- A change that takes place if a check passes. -/
theorem adds_changeIf {γ : Type} {check : Time → σ → Except Error γ} {change : Time → σ → γ → σ}
    (h : ∀ now b past x, check now b = .ok x → R now b past → R now (change now b x) (past ++ notes now)) :
    Adds R (under ctx fun now b => changeIf (check now b) (change now b) b) notes := by
  refine adds_under fun now b past related => ?_
  cases checked : check now b with
  | error e => exact related
  | ok x => exact h now b past x checked related

theorem adds_fail (e : Error) : Adds R (fail e : Call σ α) notes := fun _ _ related => ⟨rfl, related⟩

/-- What is worked out before a call may fail and decides on the call. -/
theorem adds_lift_bind {γ : Type} {result : Except Error γ} {next : γ → Call σ α}
    (h : ∀ x, result = .ok x → Adds R (next x) notes) : Adds R (lift result >>= next) notes := by
  cases result with
  | error e => exact adds_fail e
  | ok x => exact h x rfl

theorem adds_check_bind {next : Unit → Call σ α} (h : Adds R (next ()) notes) :
    Adds R (check ctx >>= next) notes := by
  intro s past related
  cases refused : s.refusal? ctx with
  | some e =>
      rw [check_bind_of_refusal refused]
      exact ⟨rfl, related⟩
  | none =>
      rw [check_bind_of_live refused]
      exact h s past related

/-- The answer of a call is no matter for its notes. -/
theorem Adds.map {call : Call σ α} {γ : Type} (h : Adds R call notes) (f : α → γ) :
    Adds R (f <$> call) notes := by
  intro s past related
  have noted := h s past related
  rw [map_apply]
  cases result : (call s).1 <;> rw [result] at noted <;> exact noted

end Call

namespace Step

variable {call : Context → ι → Call σ α} {notes : Time → ι → Notes κ β}
  {R : Time → σ → Notes κ β → Prop}

/-- The notes of the operations among steps that succeed, each made at its moment. -/
def history (call : Context → ι → Call σ α) (notes : Time → ι → Notes κ β) :
    List (Step ι) → Session σ → Notes κ β
  | [], _ => []
  | step :: rest, s =>
    ((step.done? call s).toList.flatMap (notes s.now)) ++ history call notes rest (step.after call s)

/-- What a run noted, one of its operations did. -/
theorem exists_of_mem_history {steps : List (Step ι)} {s : Session σ} {note : κ × Option β}
    (h : note ∈ history call notes steps s) :
    ∃ ctx op now, .call ctx op ∈ steps ∧ note ∈ notes now op := by
  induction steps generalizing s with
  | nil => cases h
  | cons step rest ih =>
      rcases List.mem_append.1 h with first | others
      · obtain ⟨op, done, noted⟩ := List.mem_flatMap.1 first
        cases step with
        | call ctx own =>
            rw [done?] at done
            split at done
            · obtain rfl : op = own := by simpa using done
              exact ⟨ctx, op, s.now, List.mem_cons_self, noted⟩
            · cases done
        | wait span => cases done
        | cancel ctx => cases done
      · obtain ⟨ctx, op, now, mem, noted⟩ := ih others
        exact ⟨ctx, op, now, List.mem_cons_of_mem _ mem, noted⟩

theorem history_step (lasts : ∀ now later b past, now ≤ later → R now b past → R later b past)
    (step : Step ι)
    (kept : ∀ ctx op, step = .call ctx op → (call ctx op).Adds R fun now => notes now op)
    {s : Session σ} {past : Notes κ β} (related : R s.now s.backend past) :
    R (step.after call s).now (step.after call s).backend
      (past ++ (step.done? call s).toList.flatMap (notes s.now)) := by
  cases step with
  | wait span => simpa [after, done?] using lasts _ _ _ _ (Nat.le_add_right s.now span) related
  | cancel ctx =>
      have leads := s.leads_cancel ctx
      simpa [after, done?, leads.now, leads.backend] using related
  | call ctx op =>
      obtain ⟨same, noted⟩ := kept ctx op rfl s past related
      rw [after, done?, same]
      cases result : (call ctx op s).1 with
      | error e => simpa [result] using noted
      | ok a => simpa [result] using noted

/-- A backend with which the operations keep their notes is with the notes of every run. -/
theorem history_run (lasts : ∀ now later b past, now ≤ later → R now b past → R later b past)
    (steps : List (Step ι))
    (kept : ∀ ctx op, .call ctx op ∈ steps → (call ctx op).Adds R fun now => notes now op)
    {s : Session σ} {past : Notes κ β} (related : R s.now s.backend past) :
    R (run call steps s).now (run call steps s).backend (past ++ history call notes steps s) := by
  induction steps generalizing s past with
  | nil => simpa [history, run] using related
  | cons step rest ih =>
      have first := history_step lasts step (fun ctx op same => kept ctx op (by simp [same])) related
      have others := ih (fun ctx op mem => kept ctx op (by simp [mem])) first
      rw [history, ← List.append_assoc]
      exact others

end Step

end

end Depot
