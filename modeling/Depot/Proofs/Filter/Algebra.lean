import Depot.Proofs.Filter.Compile
import Mathlib.Data.List.Forall2

/-!
# The algebra of filters

A filter may be rewritten by the laws of Boolean algebra without any change of what it finds
(`Filter.Rewrites.test_eq`). Negations move inwards to the leaves, where the kinds that have an opposite
take it. A choice among values is spelled out as equalities. Groups within groups of their kind are
flattened. The laws hold on all metadata, since the test of a negated kind is the negation of the plain
kind's: that a field is missing or null, or holds what cannot be compared, makes no third answer.

Rewritten as far as it goes, every filter comes to a normal form (`Filter.rewrites_normal`,
`Filter.isNormal_normal`).
-/

namespace Depot

/-- The two ways of taking clauses together. -/
inductive Junction
  | all
  | any

namespace Junction

def operator : Junction → Operator
  | all => .and
  | any => .or

def group : Junction → List Filter → Filter
  | all, clauses => .and clauses
  | any, clauses => .or clauses

/-- The way in which the negations of clauses are taken together. -/
def dual : Junction → Junction
  | all => any
  | any => all

def holds : Junction → List Bool → Bool
  | all, answers => answers.all id
  | any, answers => answers.any id

theorem not_holds (j : Junction) (answers : List Bool) :
    (!j.holds answers) = j.dual.holds (answers.map (!·)) := by
  cases j with
  | all => simp [holds, dual, List.not_all_eq_any_not, List.any_map]
  | any => simp [holds, dual, List.not_any_eq_all_not, List.all_map]

/-- What clauses within a group of the same way answer may be taken with the others. -/
theorem holds_flatten (j : Junction) (before inner after : List Bool) :
    j.holds (before ++ j.holds inner :: after) = j.holds (before ++ inner ++ after) := by
  cases j <;> simp [holds]

end Junction

namespace Filter

/-! ### Answers of groups -/

theorem tests_eq_map (fs : List Filter) : tests fs = fs.map test := by
  induction fs with
  | nil => rfl
  | cons f rest ih => rw [tests, ih, List.map_cons]

theorem test_group (j : Junction) (fs : List Filter) (v : Value) :
    (j.group fs).test v = j.holds (fs.map fun f => f.test v) := by
  cases j <;> simp [Junction.group, Junction.holds, test, Test.all, Test.any, tests_eq_map,
    List.all_map, List.any_map, Function.comp_def]

theorem test_not (f : Filter) (v : Value) : (not f).test v = !f.test v := rfl

/-! ### Laws -/

/-- A filter becomes another by the laws, applied anywhere in it and any number of times. -/
inductive Rewrites : Filter → Filter → Prop
  | refl (f : Filter) : Rewrites f f
  | trans {f g h : Filter} : Rewrites f g → Rewrites g h → Rewrites f h
  | inNot {f g : Filter} : Rewrites f g → Rewrites (not f) (not g)
  | inGroup (j : Junction) (before after : List Filter) {f g : Filter} :
      Rewrites f g → Rewrites (j.group (before ++ f :: after)) (j.group (before ++ g :: after))
  | notEq (field : String) (value : Value) : Rewrites (not (eq field value)) (ne field value)
  | notNe (field : String) (value : Value) : Rewrites (not (ne field value)) (eq field value)
  | notIsIn (field : String) (values : List Value) :
      Rewrites (not (isIn field values)) (notIn field values)
  | notNotIn (field : String) (values : List Value) :
      Rewrites (not (notIn field values)) (isIn field values)
  | notNot (f : Filter) : Rewrites (not (not f)) f
  | notGroup (j : Junction) (fs : List Filter) :
      Rewrites (not (j.group fs)) (j.dual.group (fs.map not))
  | choice (field : String) (values : List Value) :
      Rewrites (isIn field values) (or (values.map (eq field)))
  | flatten (j : Junction) (before inner after : List Filter) :
      Rewrites (j.group (before ++ j.group inner :: after)) (j.group (before ++ inner ++ after))

/-- A choice among values is met if one of the equalities is. -/
theorem test_choice (field : String) (values : List Value) (v : Value) :
    (isIn field values).test v = (or (values.map (eq field))).test v := by
  rw [show or (values.map (eq field)) = Junction.any.group (values.map (eq field)) from rfl,
    test_group, List.map_map]
  show Test.isAmong field values v = (values.map fun x => Test.isEqual field x v).any id
  simp only [Test.isAmong, Test.isEqual, List.any_map]
  cases Test.lookup? v field with
  | none => simp
  | some content => rfl

/-- The laws change no answer. -/
theorem Rewrites.test_eq {f g : Filter} (h : f.Rewrites g) : f.test = g.test := by
  funext v
  induction h with
  | refl f => rfl
  | trans _ _ first second => exact first.trans second
  | inNot _ same => rw [test_not, test_not, same]
  | inGroup j before after _ same =>
      rw [test_group, test_group, List.map_append, List.map_append, List.map_cons, List.map_cons, same]
  | notEq | notIsIn => rfl
  | notNe | notNotIn => exact Bool.not_not _
  | notNot f => rw [test_not, test_not, Bool.not_not]
  | notGroup j fs =>
      rw [test_not, test_group, test_group, Junction.not_holds, List.map_map, List.map_map]
      rfl
  | choice field values => exact test_choice field values v
  | flatten j before inner after =>
      rw [test_group, test_group, List.map_append, List.map_cons, test_group, Junction.holds_flatten,
        List.map_append, List.map_append]

/-! ### Normal forms -/

end Filter

/-- The clauses of a group; another filter is a clause by itself. -/
def Junction.clauses : Junction → Filter → List Filter
  | all, .and fs => fs
  | any, .or fs => fs
  | _, f => [f]

/-- The kinds of clauses whose negation is of no kind of its own. -/
def Operator.lacksOpposite : Operator → Bool
  | .gt | .ge | .lt | .le | .like | .contains | .present => true
  | _ => false

namespace Filter

mutual

/-- The filter with negations at the leaves alone, choices spelled out and groups flattened. -/
def normal : Filter → Filter
  | isIn field values => or (values.map (eq field))
  | not inner => inner.opposite
  | and fs => and ((normals fs).flatMap Junction.all.clauses)
  | or fs => or ((normals fs).flatMap Junction.any.clauses)
  | leaf => leaf

/-- The normal form of the negation. -/
def opposite : Filter → Filter
  | eq field value => ne field value
  | ne field value => eq field value
  | isIn field values => notIn field values
  | notIn field values => or (values.map (eq field))
  | not inner => inner.normal
  | and fs => or ((opposites fs).flatMap Junction.any.clauses)
  | or fs => and ((opposites fs).flatMap Junction.all.clauses)
  | leaf => not leaf

def normals : List Filter → List Filter
  | [] => []
  | f :: rest => f.normal :: normals rest

def opposites : List Filter → List Filter
  | [] => []
  | f :: rest => f.opposite :: opposites rest

end

/-- No negation but that of a kind without an opposite, no choice, and no group in one of its kind. -/
inductive IsNormal : Filter → Prop
  | leaf {f : Filter} (kind : f.operator ∉ [.isIn, .not, .and, .or]) : IsNormal f
  | not {f : Filter} (kind : f.operator.lacksOpposite = true) : IsNormal (not f)
  | and {fs : List Filter} (normal : ∀ f ∈ fs, IsNormal f) (flat : ∀ f ∈ fs, f.operator ≠ .and) :
      IsNormal (and fs)
  | or {fs : List Filter} (normal : ∀ f ∈ fs, IsNormal f) (flat : ∀ f ∈ fs, f.operator ≠ .or) :
      IsNormal (or fs)

theorem isNormal_group {j : Junction} {fs : List Filter} (normal : ∀ f ∈ fs, f.IsNormal)
    (flat : ∀ f ∈ fs, f.operator ≠ j.operator) : (j.group fs).IsNormal := by
  cases j with
  | all => exact .and normal flat
  | any => exact .or normal flat

/-- A filter is a group, or a clause by itself. -/
theorem clauses_cases (j : Junction) (f : Filter) :
    f = j.group (j.clauses f) ∨ j.clauses f = [f] ∧ f.operator ≠ j.operator := by
  have range_ne (op : RangeOp) : op.operator ≠ j.operator := by
    cases op <;> cases j <;> nofun
  cases j with
  | all =>
      cases f with
      | and fs => exact .inl rfl
      | range field op bound => exact .inr ⟨rfl, range_ne op⟩
      | _ => exact .inr ⟨rfl, nofun⟩
  | any =>
      cases f with
      | or fs => exact .inl rfl
      | range field op bound => exact .inr ⟨rfl, range_ne op⟩
      | _ => exact .inr ⟨rfl, nofun⟩

/-- The clauses of a group that is normal are normal, and none is a group of its kind. -/
theorem IsNormal.of_mem_clauses {j : Junction} {f g : Filter} (h : f.IsNormal)
    (mem : g ∈ j.clauses f) : g.IsNormal ∧ g.operator ≠ j.operator := by
  rcases clauses_cases j f with grouped | ⟨single, other⟩
  · rw [grouped] at h
    generalize j.clauses f = fs at h mem
    cases j with
    | all => cases h with
      | leaf kind => simp [Junction.group, operator] at kind
      | and normal flat => exact ⟨normal g mem, flat g mem⟩
    | any => cases h with
      | leaf kind => simp [Junction.group, operator] at kind
      | or normal flat => exact ⟨normal g mem, flat g mem⟩
  · rw [single, List.mem_singleton] at mem
    subst mem
    exact ⟨h, other⟩

theorem isNormal_flatten {j : Junction} {fs : List Filter} (normal : ∀ f ∈ fs, f.IsNormal) :
    (j.group (fs.flatMap j.clauses)).IsNormal := by
  have each : ∀ g ∈ fs.flatMap j.clauses, g.IsNormal ∧ g.operator ≠ j.operator := by
    intro g mem
    obtain ⟨f, there, mem⟩ := List.mem_flatMap.1 mem
    exact (normal f there).of_mem_clauses mem
  exact isNormal_group (fun g mem => (each g mem).1) fun g mem => (each g mem).2

/-- A choice is spelled out as equalities. -/
theorem isNormal_choice (field : String) (values : List Value) :
    (or (values.map (eq field))).IsNormal := by
  have each {g : Filter} (mem : g ∈ values.map (eq field)) : g.operator = .eq := by
    obtain ⟨x, _, rfl⟩ := List.mem_map.1 mem
    rfl
  exact .or (fun g mem => .leaf (by simp [each mem])) fun g mem => by simp [each mem]

mutual

theorem isNormal_normal : ∀ f : Filter, f.normal.IsNormal
  | .eq .. | .ne .. | .notIn .. | .like .. | .contains .. | .present _ =>
      .leaf (by simp [normal, operator])
  | .range _ op _ => .leaf (by cases op <;> simp [normal, operator, RangeOp.operator])
  | .isIn field values => isNormal_choice field values
  | .not inner => isNormal_opposite inner
  | .and fs => isNormal_flatten (j := .all) (isNormal_normals fs)
  | .or fs => isNormal_flatten (j := .any) (isNormal_normals fs)

theorem isNormal_opposite : ∀ f : Filter, f.opposite.IsNormal
  | .eq .. | .ne .. | .isIn .. => .leaf (by simp [opposite, operator])
  | .notIn field values => isNormal_choice field values
  | .range _ op _ => .not (by cases op <;> rfl)
  | .like .. | .contains .. | .present _ => .not rfl
  | .not inner => isNormal_normal inner
  | .and fs => isNormal_flatten (j := .any) (isNormal_opposites fs)
  | .or fs => isNormal_flatten (j := .all) (isNormal_opposites fs)

theorem isNormal_normals : ∀ fs : List Filter, ∀ g ∈ normals fs, g.IsNormal
  | [] => by simp [normals]
  | f :: rest => List.forall_mem_cons.2 ⟨isNormal_normal f, isNormal_normals rest⟩

theorem isNormal_opposites : ∀ fs : List Filter, ∀ g ∈ opposites fs, g.IsNormal
  | [] => by simp [opposites]
  | f :: rest => List.forall_mem_cons.2 ⟨isNormal_opposite f, isNormal_opposites rest⟩

end

/-! ### Coming to the normal form -/

/-- Each clause of a group may be rewritten. -/
theorem rewrites_group (j : Junction) {fs gs : List Filter} (each : List.Forall₂ Rewrites fs gs) :
    (j.group fs).Rewrites (j.group gs) := by
  have behind (before : List Filter) :
      (j.group (before ++ fs)).Rewrites (j.group (before ++ gs)) := by
    induction each generalizing before with
    | nil => exact .refl _
    | @cons f g rest rest' first _ ih =>
        have others := ih (before ++ [g])
        rw [List.append_assoc, List.append_assoc] at others
        exact .trans (.inGroup j before rest first) others
  exact behind []

/-- Every group within a group of its kind may be flattened. -/
theorem rewrites_flatten (j : Junction) (fs : List Filter) :
    (j.group fs).Rewrites (j.group (fs.flatMap j.clauses)) := by
  have behind (before : List Filter) :
      (j.group (before ++ fs)).Rewrites (j.group (before ++ fs.flatMap j.clauses)) := by
    induction fs generalizing before with
    | nil => exact .refl _
    | cons f rest ih =>
        have others := ih (before ++ j.clauses f)
        rw [List.append_assoc before, List.append_assoc before] at others
        refine .trans ?_ others
        rcases clauses_cases j f with grouped | ⟨single, _⟩
        · have flat := Rewrites.flatten j before (j.clauses f) rest
          rwa [← grouped, List.append_assoc] at flat
        · rw [single]
          exact .refl _
  exact behind []

mutual

/-- Every filter comes to its normal form by the laws. -/
theorem rewrites_normal : ∀ f : Filter, f.Rewrites f.normal
  | .eq .. | .ne .. | .notIn .. | .range .. | .like .. | .contains .. | .present _ => .refl _
  | .isIn field values => .choice field values
  | .not inner => rewrites_opposite inner
  | .and fs => .trans (rewrites_group .all (rewrites_normals fs)) (rewrites_flatten .all _)
  | .or fs => .trans (rewrites_group .any (rewrites_normals fs)) (rewrites_flatten .any _)

theorem rewrites_opposite : ∀ f : Filter, (not f).Rewrites f.opposite
  | .eq field value => .notEq field value
  | .ne field value => .notNe field value
  | .isIn field values => .notIsIn field values
  | .notIn field values => .trans (.notNotIn field values) (.choice field values)
  | .range .. | .like .. | .contains .. | .present _ => .refl _
  | .not inner => .trans (.notNot inner) (rewrites_normal inner)
  | .and fs =>
      .trans (.notGroup .all fs)
        (.trans (rewrites_group .any (rewrites_opposites fs)) (rewrites_flatten .any _))
  | .or fs =>
      .trans (.notGroup .any fs)
        (.trans (rewrites_group .all (rewrites_opposites fs)) (rewrites_flatten .all _))

theorem rewrites_normals : ∀ fs : List Filter, List.Forall₂ Rewrites fs (normals fs)
  | [] => .nil
  | f :: rest => .cons (rewrites_normal f) (rewrites_normals rest)

theorem rewrites_opposites : ∀ fs : List Filter, List.Forall₂ Rewrites (fs.map not) (opposites fs)
  | [] => .nil
  | f :: rest => .cons (rewrites_opposite f) (rewrites_opposites rest)

end

end Filter

end Depot
