import Depot.Proofs.Session.Call
import Mathlib.Data.List.Forall2

/-!
# Calls that mirror one another

Two calls on the same backend that answer in different types are compared through a relation between
their answers. They mirror one another if in every session both fail with the same error or give related
answers, and leave the same session behind (`Call.Mirrors`).
-/

namespace Depot

/-- Two outcomes are the same error, or related answers. -/
inductive Agree {α β : Type} (R : α → β → Prop) : Except Error α → Except Error β → Prop
  | ok {a : α} {b : β} (related : R a b) : Agree R (.ok a) (.ok b)
  | error (e : Error) : Agree R (.error e) (.error e)

namespace Agree

variable {α β γ δ ι : Type} {R : α → β → Prop} {S : γ → δ → Prop}

/-- What is made of related answers agrees if it does for each two of them. -/
theorem bind {x : Except Error α} {y : Except Error β} {f : α → Except Error γ}
    {g : β → Except Error δ} (h : Agree R x y) (next : ∀ a b, R a b → Agree S (f a) (g b)) :
    Agree S (x >>= f) (y >>= g) := by
  cases h with
  | ok related => exact next _ _ related
  | error e => exact .error e

/-- Two functions that agree on every element agree on every list. -/
theorem mapM {f : ι → Except Error α} {g : ι → Except Error β} (h : ∀ i, Agree R (f i) (g i))
    (items : List ι) : Agree (List.Forall₂ R) (items.mapM f) (items.mapM g) := by
  induction items with
  | nil => exact .ok .nil
  | cons i rest ih =>
      rw [List.mapM_cons, List.mapM_cons]
      refine (h i).bind fun a b first => ih.bind fun as bs others => ?_
      exact .ok (.cons first others)

theorem eq_ok_of_left {x : Except Error α} {y : Except Error β} {a : α} (h : Agree R x y)
    (left : x = .ok a) : ∃ b, y = .ok b ∧ R a b := by
  subst left
  cases h with
  | ok related => exact ⟨_, rfl, related⟩

end Agree

namespace Call

variable {σ α β γ δ : Type} {R : α → β → Prop} {S : γ → δ → Prop}

/-- Whatever the session, the two calls agree in their answers and leave the same behind. -/
def Mirrors (R : α → β → Prop) (call : Call σ α) (other : Call σ β) : Prop :=
  ∀ s, Agree R (call s).1 (other s).1 ∧ (other s).2 = (call s).2

theorem mirrors_pure {a : α} {b : β} (related : R a b) :
    Mirrors R (pure a : Call σ α) (pure b) :=
  fun _ => ⟨.ok related, rfl⟩

theorem mirrors_lift {x : Except Error α} {y : Except Error β} (h : Agree R x y) :
    Mirrors R (lift x : Call σ α) (lift y) := by
  intro s
  rw [lift_apply, lift_apply]
  exact ⟨h, rfl⟩

/-- Agreeing outcomes may be worked on by calls that mirror one another. -/
theorem mirrors_lift_bind {x : Except Error γ} {y : Except Error δ} {f : γ → Call σ α}
    {g : δ → Call σ β} (h : Agree S x y) (next : ∀ c d, S c d → Mirrors R (f c) (g d)) :
    Mirrors R (lift x >>= f) (lift y >>= g) := by
  cases h with
  | ok related => exact next _ _ related
  | error e => exact fun _ => ⟨.error e, rfl⟩

/-- After the same call, calls that mirror one another still do. -/
theorem mirrors_bind {call : Call σ γ} {f : γ → Call σ α} {g : γ → Call σ β}
    (h : ∀ c, Mirrors R (f c) (g c)) : Mirrors R (call >>= f) (call >>= g) := by
  intro s
  rw [bind_apply, bind_apply]
  rcases call s with ⟨_ | c, t⟩
  · exact ⟨.error _, rfl⟩
  · exact h c t

end Call

end Depot
