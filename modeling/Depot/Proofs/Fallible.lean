/-!
# Lists of things that may fail

What it means that walking a list with a function that may fail has succeeded: a check of every
element passes if each one does (`forM_eq_ok_iff`), and what each step of a fold keeps, the fold
keeps (`foldlM_induction`). If the walk fails, it fails as one of its steps does.
-/

namespace Depot

namespace Fallible

variable {ε α β : Type}

theorem bind_eq_ok_iff {x : Except ε α} {f : α → Except ε β} {b : β} :
    (x >>= f) = .ok b ↔ ∃ a, x = .ok a ∧ f a = .ok b := by
  cases x with
  | error e => simp [bind, Except.bind]
  | ok a => simp [bind, Except.bind]

theorem bind_eq_error_iff {x : Except ε α} {f : α → Except ε β} {e : ε} :
    (x >>= f) = .error e ↔ x = .error e ∨ ∃ a, x = .ok a ∧ f a = .error e := by
  cases x with
  | error e' => simp [bind, Except.bind]
  | ok a => simp [bind, Except.bind]

theorem forM_eq_ok_iff {f : α → Except ε Unit} {xs : List α} :
    xs.forM f = .ok () ↔ ∀ x ∈ xs, f x = .ok () := by
  induction xs with
  | nil => simp [pure, Except.pure]
  | cons x xs ih =>
      have step : (x :: xs).forM f = (f x >>= fun _ => xs.forM f) := rfl
      rw [step, bind_eq_ok_iff, List.forall_mem_cons]
      constructor
      · intro h
        obtain ⟨_, first, rest⟩ := h
        exact ⟨first, ih.1 rest⟩
      · intro h
        obtain ⟨first, rest⟩ := h
        exact ⟨(), first, ih.2 rest⟩

/-- What every step of a fold keeps, the fold keeps. -/
theorem foldlM_induction {P : β → Prop} {f : β → α → Except ε β} {xs : List α} {b c : β}
    (init : P b) (step : ∀ b x c, P b → f b x = .ok c → P c) (h : xs.foldlM f b = .ok c) : P c := by
  induction xs generalizing b with
  | nil =>
      cases h
      exact init
  | cons x xs ih =>
      rw [List.foldlM_cons, bind_eq_ok_iff] at h
      obtain ⟨d, first, rest⟩ := h
      exact ih (step b x d init first) rest

theorem foldlM_congr {f g : β → α → Except ε β} {xs : List α}
    (same : ∀ x ∈ xs, ∀ b, f b x = g b x) (b : β) : xs.foldlM f b = xs.foldlM g b := by
  induction xs generalizing b with
  | nil => rfl
  | cons x rest ih =>
      rw [List.forall_mem_cons] at same
      rw [List.foldlM_cons, List.foldlM_cons, same.1]
      exact bind_congr fun c => ih same.2 c

/-- A fold whose steps succeed or fail whatever they are taken from succeeds exactly if each step does. -/
theorem exists_foldlM_iff {f : β → α → Except ε β} {P : α → Prop}
    (h : ∀ x b, (∃ c, f b x = .ok c) ↔ P x) (xs : List α) (b : β) :
    (∃ c, xs.foldlM f b = .ok c) ↔ ∀ x ∈ xs, P x := by
  induction xs generalizing b with
  | nil => simp [pure, Except.pure]
  | cons x rest ih =>
      rw [List.forall_mem_cons, ← h x b]
      simp only [List.foldlM_cons, bind_eq_ok_iff]
      constructor
      · rintro ⟨c, d, first, others⟩
        exact ⟨⟨d, first⟩, (ih d).1 ⟨c, others⟩⟩
      · rintro ⟨⟨d, first⟩, others⟩
        obtain ⟨c, made⟩ := (ih d).2 others
        exact ⟨c, d, first, made⟩

theorem exists_of_forM_eq_error {f : α → Except ε Unit} {xs : List α} {e : ε}
    (h : xs.forM f = .error e) : ∃ x ∈ xs, f x = .error e := by
  induction xs with
  | nil => cases h
  | cons x xs ih =>
      have step : (x :: xs).forM f = (f x >>= fun _ => xs.forM f) := rfl
      rw [step, bind_eq_error_iff] at h
      rcases h with first | ⟨_, _, rest⟩
      · exact ⟨x, by simp, first⟩
      · obtain ⟨y, mem, failed⟩ := ih rest
        exact ⟨y, by simp [mem], failed⟩

theorem exists_of_foldlM_eq_error {f : β → α → Except ε β} {xs : List α} {b : β} {e : ε}
    (h : xs.foldlM f b = .error e) : ∃ c, ∃ x ∈ xs, f c x = .error e := by
  induction xs generalizing b with
  | nil => cases h
  | cons x xs ih =>
      rw [List.foldlM_cons, bind_eq_error_iff] at h
      rcases h with first | ⟨c, _, rest⟩
      · exact ⟨b, x, by simp, first⟩
      · obtain ⟨d, y, mem, failed⟩ := ih rest
        exact ⟨d, y, by simp [mem], failed⟩

theorem exists_of_mapM_eq_error {f : α → Except ε β} {xs : List α} {e : ε}
    (h : xs.mapM f = .error e) : ∃ x ∈ xs, f x = .error e := by
  induction xs with
  | nil => cases h
  | cons x xs ih =>
      rw [List.mapM_cons, bind_eq_error_iff] at h
      rcases h with first | ⟨_, _, rest⟩
      · exact ⟨x, by simp, first⟩
      · rw [bind_eq_error_iff] at rest
        rcases rest with rest | ⟨_, _, last⟩
        · obtain ⟨y, mem, failed⟩ := ih rest
          exact ⟨y, by simp [mem], failed⟩
        · cases last

/-- A walk over a list succeeds exactly if it does at every element. -/
theorem exists_mapM_iff {f : α → Except ε β} {xs : List α} :
    (∃ ys, xs.mapM f = .ok ys) ↔ ∀ x ∈ xs, ∃ y, f x = .ok y := by
  induction xs with
  | nil => simp [pure, Except.pure]
  | cons x xs ih =>
      rw [List.forall_mem_cons, ← ih]
      simp only [List.mapM_cons, bind_eq_ok_iff]
      constructor
      · intro h
        obtain ⟨_, y, first, ys, rest, _⟩ := h
        exact ⟨⟨y, first⟩, ys, rest⟩
      · intro h
        obtain ⟨⟨y, first⟩, ys, rest⟩ := h
        exact ⟨_, y, first, ys, rest, rfl⟩

/-- What a walk over a list gives comes from its elements. -/
theorem exists_of_mem_of_mapM {f : α → Except ε β} {xs : List α} {ys : List β} {y : β}
    (h : xs.mapM f = .ok ys) (mem : y ∈ ys) : ∃ x ∈ xs, f x = .ok y := by
  induction xs generalizing ys with
  | nil =>
      cases h
      cases mem
  | cons x xs ih =>
      simp only [List.mapM_cons, bind_eq_ok_iff] at h
      obtain ⟨z, first, zs, rest, whole⟩ := h
      cases whole
      rcases List.mem_cons.1 mem with rfl | mem
      · exact ⟨x, by simp, first⟩
      · obtain ⟨w, inside, found⟩ := ih rest mem
        exact ⟨w, by simp [inside], found⟩

end Fallible

end Depot
