import Depot.Proofs.Text.Pattern
import Mathlib.Logic.Relation

/-!
# Where the matcher stands

A walk hands on what is left of the pattern and of the text, and so it cannot leave them. Here the same
loop keeps both texts whole and says by numbers where it stands in them (`Position`). These numbers can
point anywhere and move backwards, and a turn that cuts the pattern behind its end breaks.

Every position that the loop comes to is in bounds (`Position.InBounds`), and every turn that goes on
leaves less before it (`Position.left`). In bounds, a turn is the step of the walk that stands there
(`Position.step?_turn`), so the loop never breaks, and it ends with the answer of the matcher.
-/

namespace Depot.Text.Pattern

/-- The last `%` that was passed: where it is in the pattern, and the first character of the text that
its run has not taken. -/
structure Mark where
  pattern : Nat
  text : Nat

/-- Where the loop stands: the next character of the pattern and the next one of the text. -/
structure Position where
  pattern : Nat := 0
  text : Nat := 0
  mark : Option Mark := none

/-- What the loop does at a position. -/
inductive Turn
  /-- The pattern is cut behind its end. -/
  | broken
  | done (found : Bool)
  | next (pos : Position)

/-- Goes back to behind the last `%`, whose run takes one more character. -/
def Turn.back : Option Mark → Turn
  | some m => .next ⟨m.pattern + 1, m.text + 1, some ⟨m.pattern, m.text + 1⟩⟩
  | none => .done false

def Position.turn (pattern text : List Char) (pos : Position) : Turn :=
  match text[pos.text]? with
  | none =>
    if pos.pattern ≤ pattern.length then .done (matchesEmpty (pattern.drop pos.pattern)) else .broken
  | some c =>
    match pattern[pos.pattern]? with
    | none => .back pos.mark
    | some p =>
      if p = '_' ∨ p = c then .next ⟨pos.pattern + 1, pos.text + 1, pos.mark⟩
      else if p = '%' then .next ⟨pos.pattern + 1, pos.text, some ⟨pos.pattern, pos.text⟩⟩
      else .back pos.mark

/-- The loop goes on from one position at another. -/
def Position.Leads (pattern text : List Char) (pos later : Position) : Prop :=
  pos.turn pattern text = .next later

/-- The loop comes to a position from the beginning of both texts. -/
def Position.Reached (pattern text : List Char) : Position → Prop :=
  Relation.ReflTransGen (Leads pattern text) {}

/-- A position is inside both texts, and the last `%` is a `%` of the pattern before it. -/
structure Position.InBounds (whole written : List Char) (pos : Position) : Prop where
  pattern : pos.pattern ≤ whole.length
  text : pos.text ≤ written.length
  mark : ∀ m, pos.mark = some m →
    whole[m.pattern]? = some '%' ∧ m.pattern < pos.pattern ∧ m.text ≤ pos.text

/-- How far the loop has to go: to the end of the text from the last `%`, or from before the text if
there is none, and then to the ends of both texts. -/
def Position.left (pattern text : List Char) (pos : Position) : Nat × Nat :=
  (match pos.mark with
    | some m => text.length - m.text
    | none => text.length + 1,
   (pattern.length - pos.pattern) + (text.length - pos.text))

/-- The walk that stands at a position. -/
def Position.walk (pattern text : List Char) (pos : Position) : Walk where
  pattern := pattern.drop pos.pattern
  text := text.drop pos.text
  restart := pos.mark.map fun m => ⟨pattern.drop (m.pattern + 1), text.drop m.text⟩

/-- What a walk does where a position makes a turn, if the turn does not break. -/
def Turn.step? (pattern text : List Char) : Turn → Option Step
  | .broken => none
  | .done found => some (.done found)
  | .next pos => some (.next (pos.walk pattern text))

variable {pattern text : List Char} {pos later : Position}

/-! ### One turn -/

theorem drop_of_getElem? {l : List Char} {i : Nat} {c : Char} (h : l[i]? = some c) :
    l.drop i = c :: l.drop (i + 1) := by
  rw [List.drop_eq_getElem?_toList_append, h]
  rfl

theorem Turn.back_eq_next_iff {mark : Option Mark} : back mark = .next later ↔
    ∃ m, mark = some m ∧ later = ⟨m.pattern + 1, m.text + 1, some ⟨m.pattern, m.text + 1⟩⟩ := by
  cases mark <;> simp [back, eq_comm]

/-- The ways on from a position: a character is matched, a run begins, or the loop goes back. -/
theorem Position.Leads.cases (h : Leads pattern text pos later) :
    pos.text < text.length ∧
      ((pos.pattern < pattern.length ∧ later = ⟨pos.pattern + 1, pos.text + 1, pos.mark⟩) ∨
       (pattern[pos.pattern]? = some '%' ∧
          later = ⟨pos.pattern + 1, pos.text, some ⟨pos.pattern, pos.text⟩⟩) ∨
       ∃ m, pos.mark = some m ∧
          later = ⟨m.pattern + 1, m.text + 1, some ⟨m.pattern, m.text + 1⟩⟩) := by
  rw [Leads, turn] at h
  split at h
  · split at h <;> cases h
  · next c here =>
      refine ⟨(List.getElem?_eq_some_iff.1 here).1, ?_⟩
      split at h
      · exact .inr (.inr (Turn.back_eq_next_iff.1 h))
      · next p there =>
          split at h
          · cases h
            exact .inl ⟨(List.getElem?_eq_some_iff.1 there).1, rfl⟩
          · split at h
            · next run =>
                cases h
                exact .inr (.inl ⟨run ▸ there, rfl⟩)
            · exact .inr (.inr (Turn.back_eq_next_iff.1 h))

theorem Position.Leads.inBounds (h : Leads pattern text pos later)
    (inside : pos.InBounds pattern text) : later.InBounds pattern text := by
  obtain ⟨inText, ⟨inPattern, rfl⟩ | ⟨run, rfl⟩ | ⟨m, marked, rfl⟩⟩ := h.cases
  · refine ⟨inPattern, inText, fun m same => ?_⟩
    obtain ⟨run, before, behind⟩ := inside.mark m same
    exact ⟨run, Nat.lt_succ_of_lt before, Nat.le_succ_of_le behind⟩
  · refine ⟨(List.getElem?_eq_some_iff.1 run).1, inside.text, fun m same => ?_⟩
    cases same
    exact ⟨run, Nat.lt_succ_self _, Nat.le_refl _⟩
  · obtain ⟨run, before, behind⟩ := inside.mark m marked
    refine ⟨Nat.le_trans before inside.pattern, Nat.lt_of_le_of_lt behind inText, fun m same => ?_⟩
    cases same
    exact ⟨run, Nat.lt_succ_self _, Nat.le_refl _⟩

/-- A run that begins has no more of the text before it than the run of the `%` before, and where it has as
much, a character of the pattern is used up. -/
theorem Position.Leads.left_lt (h : Leads pattern text pos later)
    (inside : pos.InBounds pattern text) :
    Prod.Lex (· < ·) (· < ·) (later.left pattern text) (pos.left pattern text) := by
  rw [Prod.lex_def]
  obtain ⟨inText, ⟨inPattern, rfl⟩ | ⟨run, rfl⟩ | ⟨m, marked, rfl⟩⟩ := h.cases
  · refine .inr ⟨rfl, ?_⟩
    simp only [left]
    omega
  · have inPattern : pos.pattern < pattern.length := (List.getElem?_eq_some_iff.1 run).1
    cases marked : pos.mark with
    | none =>
        refine .inl ?_
        simp only [left, marked]
        omega
    | some m =>
        have behind : m.text ≤ pos.text := (inside.mark m marked).2.2
        simp only [left, marked]
        omega
  · have behind : m.text ≤ pos.text := (inside.mark m marked).2.2
    refine .inl ?_
    simp only [left, marked]
    omega

theorem Position.InBounds.step?_back (inside : pos.InBounds pattern text)
    (inText : pos.text < text.length) :
    (Turn.back pos.mark).step? pattern text = some (retry (pos.walk pattern text).restart) := by
  cases marked : pos.mark with
  | none => simp [walk, marked, retry, Turn.back, Turn.step?]
  | some m =>
      have behind : m.text < text.length := Nat.lt_of_le_of_lt (inside.mark m marked).2.2 inText
      have rest : text.drop m.text = text[m.text] :: text.drop (m.text + 1) :=
        List.drop_eq_getElem_cons behind
      simp only [walk, marked, Option.map_some, rest]
      rfl

/-- In bounds, a turn is the step of the walk that stands there. -/
theorem Position.step?_turn (inside : pos.InBounds pattern text) :
    (pos.turn pattern text).step? pattern text = some (step (pos.walk pattern text)) := by
  rw [turn]
  split
  · next ended =>
      have rest : text.drop pos.text = [] := List.drop_eq_nil_iff.2 (List.getElem?_eq_none_iff.1 ended)
      rw [if_pos inside.pattern]
      simp [Turn.step?, step, walk, rest]
  · next c here =>
      have rest := drop_of_getElem? here
      have inText : pos.text < text.length := (List.getElem?_eq_some_iff.1 here).1
      have back := inside.step?_back inText
      split
      · next used =>
          have spent : pattern.drop pos.pattern = [] :=
            List.drop_eq_nil_iff.2 (List.getElem?_eq_none_iff.1 used)
          rw [back]
          simp [step, walk, rest, spent]
      · next p there =>
          have ahead := drop_of_getElem? there
          split
          · next stands => simp [Turn.step?, step, walk, rest, ahead, stands]
          · next other =>
              split
              · next run =>
                  subst run
                  have apart : '%' ≠ c := fun same => other (.inr same)
                  simp [Turn.step?, step, walk, rest, ahead, apart]
              · next notRun =>
                  rw [back]
                  simp [step, walk, rest, ahead, other, notRun]

/-! ### The whole loop -/

theorem Position.inBounds_start : Position.InBounds pattern text {} :=
  ⟨Nat.zero_le _, Nat.zero_le _, nofun⟩

theorem Position.Reached.inBounds (h : Reached pattern text pos) : pos.InBounds pattern text := by
  induction h with
  | refl => exact inBounds_start
  | tail _ leads ih => exact leads.inBounds ih

theorem Position.InBounds.turn_ne_broken (inside : pos.InBounds pattern text) :
    pos.turn pattern text ≠ .broken := by
  intro broken
  have steps := step?_turn inside
  rw [broken] at steps
  cases steps

/-- The walk at a position in bounds is a walk along the two texts. -/
theorem Position.InBounds.along (inside : pos.InBounds pattern text) :
    (pos.walk pattern text).Along pattern text := by
  refine ⟨List.drop_suffix _ _, List.drop_suffix _ _, fun r same => ?_⟩
  obtain ⟨m, marked, rfl⟩ := Option.map_eq_some_iff.1 same
  obtain ⟨run, before, behind⟩ := inside.mark m marked
  refine ⟨?_, List.drop_suffix_drop_left pattern before, List.drop_suffix _ _,
    List.drop_suffix_drop_left text behind⟩
  rw [← drop_of_getElem? run]
  exact List.drop_suffix _ _

/-- A loop that has enough steps before it ends, with the answer of its walk. -/
theorem Position.InBounds.exists_done {bound : Nat} (inside : pos.InBounds pattern text)
    (enough : (pos.walk pattern text).need pattern < bound) :
    ∃ last, Relation.ReflTransGen (Leads pattern text) pos last ∧
      last.turn pattern text = .done (run bound (pos.walk pattern text)) := by
  induction bound generalizing pos with
  | zero => exact absurd enough (Nat.not_lt_zero _)
  | succ bound ih =>
      have takes := takes_step (pos.walk pattern text)
      have steps := step?_turn inside
      rw [run]
      cases turned : pos.turn pattern text with
      | broken => exact absurd turned inside.turn_ne_broken
      | done found =>
          rw [turned] at steps
          rw [← Option.some.inj steps]
          exact ⟨pos, .refl, turned⟩
      | next later =>
          rw [turned] at steps
          rw [← Option.some.inj steps] at takes ⊢
          have leads : Leads pattern text pos later := turned
          have within := leads.inBounds inside
          have on : Advances (pos.walk pattern text) (later.walk pattern text) := takes
          have less := Walk.need_lt within.along (on.left_lt inside.along)
          obtain ⟨last, path, ended⟩ := ih within (by omega)
          exact ⟨last, .head leads path, ended⟩

/-- **The matcher stays in its texts and comes to an end.** Wherever the loop stands, its place in
the pattern and its place in the text are inside, and the `%` it would go back to is a `%` of the pattern
before its place, with no more of the text taken than it has passed. From there it does what the walk
does, never cuts the pattern behind its end, and has less before it after each turn, although going
back may move it backwards in both texts. It ends, and with the answer of the matcher. -/
theorem loop_in_bounds_and_ends (pattern text : String) :
    (∀ pos, Position.Reached pattern.toList text.toList pos →
      pos.InBounds pattern.toList text.toList ∧
      pos.turn pattern.toList text.toList ≠ .broken ∧
      (pos.turn pattern.toList text.toList).step? pattern.toList text.toList =
        some (step (pos.walk pattern.toList text.toList)) ∧
      ∀ later, pos.turn pattern.toList text.toList = .next later →
        Prod.Lex (· < ·) (· < ·) (later.left pattern.toList text.toList)
          (pos.left pattern.toList text.toList)) ∧
    ∃ last, Position.Reached pattern.toList text.toList last ∧
      last.turn pattern.toList text.toList = .done (isMatch pattern text) := by
  constructor
  · intro pos reached
    have inside := reached.inBounds
    exact ⟨inside, inside.turn_ne_broken, Position.step?_turn inside,
      fun later leads => Position.Leads.left_lt leads inside⟩
  · refine Position.inBounds_start.exists_done ?_
    simp only [Position.walk, Walk.need, Walk.left, bound, Option.map_none, List.drop_zero,
      Nat.succ_mul, Nat.mul_succ]
    omega

/-- Behind a `%` two characters are matched before the texts disagree, and the loop goes back by two in
the pattern and by one in the text. -/
theorem loop_in_bounds_and_ends_back :
    Position.Reached "%bcd".toList "bcxbcd".toList ⟨3, 2, some ⟨0, 0⟩⟩ ∧
      Position.turn "%bcd".toList "bcxbcd".toList ⟨3, 2, some ⟨0, 0⟩⟩ = .next ⟨1, 1, some ⟨0, 1⟩⟩ ∧
      Position.InBounds "%bcd".toList "bcxbcd".toList ⟨3, 2, some ⟨0, 0⟩⟩ ∧
      Prod.Lex (· < ·) (· < ·)
        (Position.left "%bcd".toList "bcxbcd".toList ⟨1, 1, some ⟨0, 1⟩⟩)
        (Position.left "%bcd".toList "bcxbcd".toList ⟨3, 2, some ⟨0, 0⟩⟩) := by
  have run : Position.Leads "%bcd".toList "bcxbcd".toList {} ⟨1, 0, some ⟨0, 0⟩⟩ := rfl
  have first : Position.Leads "%bcd".toList "bcxbcd".toList
    ⟨1, 0, some ⟨0, 0⟩⟩ ⟨2, 1, some ⟨0, 0⟩⟩ := rfl
  have second : Position.Leads "%bcd".toList "bcxbcd".toList
    ⟨2, 1, some ⟨0, 0⟩⟩ ⟨3, 2, some ⟨0, 0⟩⟩ := rfl
  have reached : Position.Reached "%bcd".toList "bcxbcd".toList ⟨3, 2, some ⟨0, 0⟩⟩ :=
    .head run <| .head first <| .single second
  obtain ⟨inside, _, _, less⟩ := (loop_in_bounds_and_ends "%bcd" "bcxbcd").1 _ reached
  exact ⟨reached, rfl, inside, less _ rfl⟩

end Depot.Text.Pattern
