import Depot.Proofs.Session.Quiet
import Depot.Statement.Bind

/-!
# Statements that are refused

A statement that cannot be bound is refused as one that makes no sense for its table, whatever is wrong
with it: an unknown field, a missing parameter, one of the wrong sort, or nothing to do.
-/

namespace Depot

/-- A failure, if there is one, is that of a statement that makes no sense for its table. -/
def Refuses {α : Type} (result : Except Error α) : Prop :=
  ∀ e, result = .error e → ∃ detail, e = .invalidQuery detail

namespace Refuses

variable {α β : Type}

theorem ok (a : α) : Refuses (.ok a) := fun _ same => by cases same

theorem error (detail : String) : Refuses (.error (.invalidQuery detail) : Except Error α) :=
  fun _ same => by
    cases same
    exact ⟨detail, rfl⟩

theorem bind {x : Except Error α} {f : α → Except Error β} (hx : Refuses x)
    (hf : ∀ a, Refuses (f a)) : Refuses (x >>= f) := by
  intro e h
  rcases Fallible.bind_eq_error_iff.1 h with failed | ⟨a, _, failed⟩
  · exact hx e failed
  · exact hf a e failed

theorem mapM {f : α → Except Error β} (h : ∀ a, Refuses (f a)) (xs : List α) : Refuses (xs.mapM f) := by
  intro e failed
  obtain ⟨a, _, failed⟩ := Fallible.exists_of_mapM_eq_error failed
  exact h a e failed

/-- It does not claim that anything was done. -/
theorem early {x : Except Error α} (h : Refuses x) : Early x := by
  intro e failed
  obtain ⟨detail, rfl⟩ := h e failed
  rfl

end Refuses

theorem Spec.refuses_columnOf (spec : Spec) (field : String) : Refuses (spec.columnOf field) := by
  rw [columnOf]
  split
  · exact .ok _
  · exact .error _

theorem Params.refuses_value (params : Params) (param : String) :
    Refuses (Params.value params param) := by
  rw [Params.value]
  split
  · exact .ok _
  · exact .error _

namespace Condition

mutual

theorem refuses_bind (spec : Spec) (params : Params) : ∀ c : Condition, Refuses (c.bind spec params)
  | compare field op param => by
      rw [bind]
      refine (spec.refuses_columnOf field).bind fun column =>
        (Params.refuses_value params param).bind fun value => ?_
      split
      · exact .ok _
      · exact .error _
  | isNull field => by
      rw [bind]
      exact (spec.refuses_columnOf field).bind fun _ => .ok _
  | isNotNull field => by
      rw [bind]
      exact (spec.refuses_columnOf field).bind fun _ => .ok _
  | all conditions => by
      rw [bind]
      exact (refuses_bindAll spec params conditions).bind fun _ => .ok _
  | any conditions => by
      rw [bind]
      split
      · exact .error _
      · exact (refuses_bindAll spec params conditions).bind fun _ => .ok _

theorem refuses_bindAll (spec : Spec) (params : Params) :
    ∀ cs : List Condition, Refuses (bindAll spec params cs)
  | [] => .ok []
  | c :: rest => by
      rw [bindAll]
      exact (refuses_bind spec params c).bind fun _ =>
        (refuses_bindAll spec params rest).bind fun _ => .ok _

end

end Condition

namespace Update

theorem refuses_bindAssignment (spec : Spec) (params : Params) (assignment : String × String) :
    Refuses (bindAssignment spec params assignment) := by
  obtain ⟨field, param⟩ := assignment
  rw [bindAssignment]
  split
  · exact .error _
  · exact (Params.refuses_value params param).bind fun _ =>
      (spec.refuses_columnOf field).bind fun _ => .ok _

theorem refuses_bind (u : Update) (spec : Spec) (params : Params) : Refuses (u.bind spec params) := by
  rw [bind]
  split
  · exact .error _
  · exact (Refuses.mapM (refuses_bindAssignment spec params) u.assignments).bind fun _ =>
      ((Condition.refuses_bindAll spec params u.conditions).bind fun _ => .ok _).bind fun _ => .ok _

end Update

theorem Query.refuses_bind (q : Query) (spec : Spec) (params : Params) :
    Refuses (q.bind spec params) := by
  rw [bind]
  exact (Refuses.mapM (fun o => (spec.refuses_columnOf o.1).bind fun _ => .ok _) q.orderBy).bind fun _ =>
    ((Condition.refuses_bindAll spec params q.conditions).bind fun _ => .ok _).bind fun _ => .ok _

theorem Aggregate.refuses_bind (a : Aggregate) (spec : Spec) (params : Params) :
    Refuses (a.bind spec params) := by
  rw [bind]
  refine Refuses.bind ?_ fun _ =>
    ((Condition.refuses_bindAll spec params a.conditions).bind fun _ => .ok _).bind fun _ => .ok _
  rw [bindColumn]
  split
  · split
    · exact .ok _
    · exact .error _
  · split
    · exact .error _
    · split
      · exact .error _
      · exact .ok _

end Depot
