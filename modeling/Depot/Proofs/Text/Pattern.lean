import Depot.Text.Pattern
import Mathlib.Data.List.Forall2
import Mathlib.Data.List.Infix

/-!
# What patterns match

`Like` is the meaning that a pattern should have: the text can be cut into pieces, one for each
character of the pattern, of which `%` takes any run, `_` one character, and every other character
itself. The matcher uses a `%` up as a character where the text goes on with a `%`, so what it matches is
`Reads` (`isMatch_eq_true_iff`), which is `Like` wherever text and pattern do not both have a `%`
(`Reads.like`, `Like.reads`).

The matcher goes back to its last `%` alone. That is safe because a walk never loses a way on: whatever
can still be read from its restart can be read from where it stands, with some of the text taken by a
run (`Walk.KeepsUp`). So a `%` that is met later on has all the ways of the one before, which may be
forgotten (`Advances.accepts_iff`).
-/

namespace Depot.Text.Pattern

/-- A character of a pattern may stand for a piece of the text. -/
def Covers (p : Char) (piece : List Char) : Prop :=
  if p = '%' then True else if p = '_' then piece.length = 1 else piece = [p]

/-- The text can be cut into pieces for which the characters of the pattern stand, one by one. -/
def Like (pattern text : List Char) : Prop :=
  ∃ pieces, List.Forall₂ Covers pattern pieces ∧ pieces.flatten = text

/-- The text is read along the pattern. Where the text goes on with a `%`, a `%` of the pattern stands for
that character, and elsewhere for a run. -/
inductive Reads : List Char → List Char → Prop
  | nil : Reads [] []
  | char {p c : Char} {pattern text : List Char} (stands : p = '_' ∨ p = c)
      (rest : Reads pattern text) : Reads (p :: pattern) (c :: text)
  | run {pattern text later : List Char} (apart : text.head? ≠ some '%') (tail : later <:+ text)
      (rest : Reads pattern later) : Reads ('%' :: pattern) text

section

variable {p c : Char} {pattern text : List Char}

/-! ### Reading a text -/

@[simp] theorem reads_nil_iff : Reads [] text ↔ text = [] := by
  constructor
  · rintro ⟨⟩
    rfl
  · rintro rfl
    exact .nil

theorem reads_cons_nil_iff : Reads (p :: pattern) [] ↔ p = '%' ∧ Reads pattern [] := by
  constructor
  · rintro (_ | _ | ⟨_, tail, rest⟩)
    exact ⟨rfl, List.suffix_nil.1 tail ▸ rest⟩
  · rintro ⟨rfl, rest⟩
    exact .run (by simp) (List.suffix_refl []) rest

theorem reads_cons_cons_iff : Reads (p :: pattern) (c :: text) ↔
    if p = '_' ∨ p = c then Reads pattern text
    else p = '%' ∧ ∃ later, later <:+ c :: text ∧ Reads pattern later := by
  constructor
  · rintro (_ | ⟨stands, rest⟩ | ⟨apart, tail, rest⟩)
    · rwa [if_pos stands]
    · have other : ¬ ('%' = '_' ∨ '%' = c) := by
        rintro (underscore | rfl)
        · exact absurd underscore (by decide)
        · exact apart rfl
      rw [if_neg other]
      exact ⟨rfl, _, tail, rest⟩
  · intro h
    split at h
    · next stands => exact .char stands h
    · next other =>
        obtain ⟨rfl, later, tail, rest⟩ := h
        refine .run (fun same => other (.inr ?_)) tail rest
        exact (Option.some.inj same).symm

theorem matchesEmpty_iff : matchesEmpty pattern = true ↔ Reads pattern [] := by
  induction pattern with
  | nil => simp [matchesEmpty]
  | cons p pattern ih =>
      rw [reads_cons_nil_iff, ← ih, matchesEmpty, List.all_cons, Bool.and_eq_true, beq_iff_eq]
      rfl

/-- What the first character of a pattern takes leaves an end of the text for the others. -/
theorem Reads.exists_later (h : Reads (p :: pattern) text) :
    ∃ later, later <:+ text ∧ Reads pattern later := by
  rcases h with _ | ⟨_, rest⟩ | ⟨_, tail, rest⟩
  · exact ⟨_, List.suffix_cons _ _, rest⟩
  · exact ⟨_, tail, rest⟩

/-! ### Cutting a text -/

theorem like_cons_iff : Like (p :: pattern) text ↔
    ∃ piece rest, Covers p piece ∧ piece ++ rest = text ∧ Like pattern rest := by
  constructor
  · rintro ⟨pieces, whole, rfl⟩
    obtain ⟨piece, others, covers, rest, rfl⟩ := List.forall₂_cons_left_iff.1 whole
    exact ⟨piece, others.flatten, covers, rfl, others, rest, rfl⟩
  · rintro ⟨piece, _, covers, rfl, pieces, others, rfl⟩
    exact ⟨piece :: pieces, .cons covers others, rfl⟩

theorem covers_single (stands : p = '_' ∨ p = c) : Covers p [c] := by
  rw [Covers]
  split
  · trivial
  · split
    · rfl
    · next notRun notSingle =>
        rw [stands.resolve_left notSingle]

theorem Reads.like (h : Reads pattern text) : Like pattern text := by
  induction h with
  | nil => exact ⟨[], .nil, rfl⟩
  | @char p c pattern text stands _ ih => exact like_cons_iff.2 ⟨[c], text, covers_single stands, rfl, ih⟩
  | @run pattern text later _ tail _ ih =>
      obtain ⟨piece, rfl⟩ := tail
      exact like_cons_iff.2 ⟨piece, later, trivial, rfl, ih⟩

/-- Unless text and pattern both have a `%`, none can be used up as a character. -/
theorem Like.reads (h : Like pattern text) (apart : '%' ∉ text ∨ '%' ∉ pattern) :
    Reads pattern text := by
  induction pattern generalizing text with
  | nil =>
      obtain ⟨_, ⟨⟩, rfl⟩ := h
      exact .nil
  | cons p pattern ih =>
      obtain ⟨piece, rest, covers, rfl, others⟩ := like_cons_iff.1 h
      have later : Reads pattern rest := ih others <| apart.imp
        (fun absent mem => absent (List.mem_append_right _ mem))
        fun absent mem => absent (List.mem_cons_of_mem _ mem)
      rw [Covers] at covers
      split at covers
      · next run =>
          subst run
          have absent := apart.resolve_right fun absent => absent List.mem_cons_self
          exact .run (fun starts => absent (List.mem_of_mem_head? starts)) (List.suffix_append _ _) later
      · split at covers
        · next single =>
            obtain ⟨c, rfl⟩ := List.length_eq_one_iff.1 covers
            exact .char (.inl single) later
        · subst covers
          exact .char (.inr rfl) later

end

/-! ### Walks -/

/-- A later end of the text of the restart can be read from there. -/
def Restart.Accepts (r : Restart) : Prop :=
  ∃ c text later, r.text = c :: text ∧ later <:+ text ∧ Reads r.pattern later

/-- What is left can be read, either from where the walk stands or once it has gone back. -/
def Walk.Accepts (w : Walk) : Prop :=
  Reads w.pattern w.text ∨ ∃ r, w.restart = some r ∧ r.Accepts

/-- Whatever can be read from the restart, an end of the text that is left can be read from where the
walk stands. -/
def Walk.KeepsUp (w : Walk) : Prop :=
  ∀ r, w.restart = some r → ∀ later, later <:+ r.text → Reads r.pattern later →
    ∃ rest, rest <:+ w.text ∧ Reads w.pattern rest

/-- A walk over a pattern and a text: both are used up from the left, and the restart lies behind a `%`
and not behind where the walk stands. -/
structure Walk.Along (whole written : List Char) (w : Walk) : Prop where
  pattern : w.pattern <:+ whole
  text : w.text <:+ written
  restart : ∀ r, w.restart = some r →
    '%' :: r.pattern <:+ whole ∧ w.pattern <:+ r.pattern ∧ r.text <:+ written ∧ w.text <:+ r.text

/-- How far a walk has to go: to the end of the text from its restart, or from before the text if there
is none, and then to the end of the pattern from where it stands. -/
def Walk.left (w : Walk) : Nat × Nat :=
  (match w.restart with
    | some r => r.text.length
    | none => w.text.length + 1,
   w.pattern.length)

/-! ### One step -/

/-- How a walk goes on. -/
inductive Advances : Walk → Walk → Prop
  /-- A character of the pattern stands for one of the text. -/
  | char {p c : Char} {pattern text : List Char} {restart : Option Restart}
      (stands : p = '_' ∨ p = c) :
      Advances ⟨p :: pattern, c :: text, restart⟩ ⟨pattern, text, restart⟩
  /-- A run begins, of which nothing is taken so far. -/
  | run {c : Char} {pattern text : List Char} {restart : Option Restart} (apart : c ≠ '%') :
      Advances ⟨'%' :: pattern, c :: text, restart⟩
        ⟨pattern, c :: text, some ⟨pattern, c :: text⟩⟩
  /-- The run of the last `%` takes one more character. -/
  | retry {d : Char} {current rest pattern text : List Char} (refused : ¬ Reads current rest) :
      Advances ⟨current, rest, some ⟨pattern, d :: text⟩⟩ ⟨pattern, text, some ⟨pattern, text⟩⟩

/-- How a walk ends. -/
inductive Ends : Walk → Bool → Prop
  | text {pattern : List Char} {restart : Option Restart} :
      Ends ⟨pattern, [], restart⟩ (matchesEmpty pattern)
  /-- There is nothing to go back to. -/
  | stuck {w : Walk} (refused : ¬ Reads w.pattern w.text) (idle : ∀ r, w.restart = some r → r.text = []) :
      Ends w false

/-- A step ends a walk or goes on. -/
def Step.Takes (w : Walk) : Step → Prop
  | .done found => Ends w found
  | .next v => Advances w v

theorem takes_retry {w : Walk} (refused : ¬ Reads w.pattern w.text) : (retry w.restart).Takes w := by
  obtain ⟨pattern, text, restart⟩ := w
  match restart with
  | none => exact .stuck refused nofun
  | some ⟨_, []⟩ => exact .stuck refused fun r same => Option.some.inj same ▸ rfl
  | some ⟨_, _ :: _⟩ => exact .retry refused

theorem takes_step (w : Walk) : (step w).Takes w := by
  obtain ⟨pattern, text, restart⟩ := w
  match pattern, text with
  | _, [] => exact .text
  | [], c :: text => exact takes_retry (w := ⟨[], c :: text, restart⟩) (by simp)
  | p :: pattern, c :: text =>
      simp only [step]
      split
      · next stands => exact .char stands
      · next other =>
          split
          · next run =>
              subst run
              exact .run fun same => other (.inr same.symm)
          · next notRun =>
              refine takes_retry (w := ⟨p :: pattern, c :: text, restart⟩) ?_
              rw [reads_cons_cons_iff, if_neg other]
              exact fun h => notRun h.1

variable {w v : Walk}

theorem Advances.along {whole written : List Char} (h : Advances w v) (along : w.Along whole written) :
    v.Along whole written := by
  have ⟨inPattern, inText, behind⟩ := along
  have tail {a : Char} {l : List Char} : l <:+ a :: l := List.suffix_cons a l
  cases h with
  | char stands =>
      refine ⟨tail.trans inPattern, tail.trans inText, fun r same => ?_⟩
      obtain ⟨star, later, inside, rest⟩ := behind r same
      exact ⟨star, tail.trans later, inside, tail.trans rest⟩
  | run apart =>
      refine ⟨tail.trans inPattern, inText, fun r same => ?_⟩
      cases same
      exact ⟨inPattern, List.suffix_refl _, inText, List.suffix_refl _⟩
  | retry refused =>
      obtain ⟨star, _, inside, _⟩ := behind _ rfl
      refine ⟨tail.trans star, tail.trans inside, fun r same => ?_⟩
      cases same
      exact ⟨star, List.suffix_refl _, tail.trans inside, List.suffix_refl _⟩

/-- A walk that goes back has less of the text before it, and any other step uses the pattern up. -/
theorem Advances.left_lt {whole written : List Char} (h : Advances w v) (along : w.Along whole written) :
    Prod.Lex (· < ·) (· < ·) v.left w.left := by
  cases h with
  | @char p c pattern text restart stands =>
      cases restart with
      | none => exact .left _ _ (Nat.lt_succ_self _)
      | some r => exact .right _ (Nat.lt_succ_self _)
  | @run c pattern text restart apart =>
      cases restart with
      | none => exact .left _ _ (Nat.lt_succ_self _)
      | some r =>
          have behind : (c :: text).length ≤ r.text.length := (along.restart r rfl).2.2.2.length_le
          rcases Nat.lt_or_eq_of_le behind with lt | same
          · exact .left _ _ lt
          · rw [Walk.left, Walk.left]
            dsimp only
            rw [same]
            exact .right _ (Nat.lt_succ_self _)
  | retry refused => exact .left _ _ (Nat.lt_succ_self _)

/-- A character that stands for the next one of the text takes no way on away: from where it may stand
instead, at least as much of the text is taken. -/
theorem Advances.keepsUp (h : Advances w v) (keeps : w.KeepsUp) : v.KeepsUp := by
  intro r same later tail reads
  cases h with
  | @char p c pattern text restart stands =>
      obtain ⟨rest, front, reads⟩ := keeps r same later tail reads
      rcases List.suffix_cons_iff.1 front with rfl | inside
      · rw [reads_cons_cons_iff, if_pos stands] at reads
        exact ⟨text, List.suffix_refl _, reads⟩
      · obtain ⟨rest', shorter, reads⟩ := reads.exists_later
        exact ⟨rest', shorter.trans inside, reads⟩
  | run apart =>
      cases same
      exact ⟨later, tail, reads⟩
  | retry refused =>
      cases same
      exact ⟨later, tail, reads⟩

/-- A run takes nothing, or the way on is the one of a walk that goes back. -/
theorem exists_reads_iff {pattern : List Char} {text : List Char} :
    (∃ later, later <:+ text ∧ Reads pattern later) ↔
      Walk.Accepts ⟨pattern, text, some ⟨pattern, text⟩⟩ := by
  constructor
  · rintro ⟨later, tail, reads⟩
    cases text with
    | nil => exact .inl (List.suffix_nil.1 tail ▸ reads)
    | cons c text =>
        rcases List.suffix_cons_iff.1 tail with rfl | inside
        · exact .inl reads
        · exact .inr ⟨_, rfl, c, text, later, rfl, inside, reads⟩
  · rintro (reads | ⟨_, same, c, rest, later, whole, tail, reads⟩)
    · exact ⟨text, List.suffix_refl _, reads⟩
    · cases same
      obtain rfl : text = c :: rest := whole
      exact ⟨later, tail.trans (List.suffix_cons c rest), reads⟩

/-- What can be read once the walk has gone back can be read from an end of the text that is left. -/
theorem Walk.KeepsUp.exists_reads (h : w.KeepsUp) (accepts : w.Accepts) :
    ∃ rest, rest <:+ w.text ∧ Reads w.pattern rest := by
  rcases accepts with here | ⟨r, same, c, text, later, whole, tail, reads⟩
  · exact ⟨w.text, List.suffix_refl _, here⟩
  · exact h r same later (whole ▸ tail.trans (List.suffix_cons c text)) reads

theorem Advances.accepts_iff (h : Advances w v) (keeps : w.KeepsUp) : v.Accepts ↔ w.Accepts := by
  cases h with
  | char stands => rw [Walk.Accepts, Walk.Accepts, reads_cons_cons_iff, if_pos stands]
  | @run c pattern text restart apart =>
      rw [← exists_reads_iff]
      have other : ¬ ('%' = '_' ∨ '%' = c) := by simp [Ne.symm apart]
      constructor
      · intro found
        refine .inl ?_
        rw [reads_cons_cons_iff, if_neg other]
        exact ⟨rfl, found⟩
      · intro accepts
        obtain ⟨rest, tail, reads⟩ := keeps.exists_reads accepts
        obtain ⟨later, shorter, reads⟩ := reads.exists_later
        exact ⟨later, shorter.trans tail, reads⟩
  | @retry d current rest pattern text refused =>
      rw [← exists_reads_iff]
      constructor
      · rintro ⟨later, tail, reads⟩
        exact .inr ⟨_, rfl, d, text, later, rfl, tail, reads⟩
      · rintro (here | ⟨_, same, _, _, later, whole, tail, reads⟩)
        · exact absurd here refused
        · cases same
          cases whole
          exact ⟨later, tail, reads⟩

theorem Ends.accepts_iff {found : Bool} (h : Ends w found) (keeps : w.KeepsUp) :
    found = true ↔ w.Accepts := by
  cases h with
  | @text pattern restart =>
      rw [matchesEmpty_iff]
      constructor
      · exact .inl
      · intro accepts
        obtain ⟨rest, tail, reads⟩ := keeps.exists_reads accepts
        exact List.suffix_nil.1 tail ▸ reads
  | stuck refused idle =>
      refine iff_of_false Bool.false_ne_true ?_
      rintro (here | ⟨r, same, c, text, later, whole, _⟩)
      · exact refused here
      · cases (idle r same).symm.trans whole

/-! ### Whole walks -/

/-- A number of steps that is enough for a walk over a pattern. -/
def Walk.need (whole : List Char) (w : Walk) : Nat :=
  w.left.1 * (whole.length + 1) + w.left.2

theorem Walk.need_lt {whole written : List Char} (along : v.Along whole written)
    (lt : Prod.Lex (· < ·) (· < ·) v.left w.left) : v.need whole < w.need whole := by
  have short : v.left.2 ≤ whole.length := along.pattern.length_le
  rw [need, need]
  rcases Prod.lex_def.1 lt with less | ⟨same, less⟩
  · calc v.left.1 * (whole.length + 1) + v.left.2
        < (v.left.1 + 1) * (whole.length + 1) := by rw [Nat.succ_mul]; omega
      _ ≤ w.left.1 * (whole.length + 1) := Nat.mul_le_mul_right _ less
      _ ≤ w.left.1 * (whole.length + 1) + w.left.2 := Nat.le_add_right _ _
  · rw [same]
    exact Nat.add_lt_add_left less _

/-- A walk that is given enough steps ends, with the answer whether it accepts. -/
theorem run_eq_true_iff {whole written : List Char} {bound : Nat} (along : w.Along whole written)
    (keeps : w.KeepsUp) (enough : w.need whole < bound) : run bound w = true ↔ w.Accepts := by
  induction bound generalizing w with
  | zero => exact absurd enough (Nat.not_lt_zero _)
  | succ bound ih =>
      have takes := takes_step w
      rw [run]
      cases taken : step w with
      | done found =>
          rw [taken] at takes
          exact Ends.accepts_iff takes keeps
      | next v =>
          rw [taken] at takes
          have on : Advances w v := takes
          have less := Walk.need_lt (on.along along) (on.left_lt along)
          rw [← on.accepts_iff keeps]
          exact ih (on.along along) (on.keepsUp keeps) (by omega)

/-- The matcher gives the answer that its reading of the pattern gives. -/
theorem isMatch_eq_true_iff (pattern text : String) :
    isMatch pattern text = true ↔ Reads pattern.toList text.toList := by
  have start : Walk.Along pattern.toList text.toList ⟨pattern.toList, text.toList, none⟩ :=
    ⟨List.suffix_refl _, List.suffix_refl _, nofun⟩
  rw [isMatch, run_eq_true_iff start nofun]
  · simp [Walk.Accepts]
  · simp only [Walk.need, Walk.left, bound, Nat.succ_mul, Nat.mul_succ]
    omega

/-- **A pattern matches as it should unless a `%` of it meets a `%` of the text.** The matcher takes the
texts that are read along the pattern, a `%` before a `%` of the text standing for that character alone.
What it takes is always a text that the pattern should match, and it takes all of them if the text or
the pattern has no `%`. -/
theorem isMatch_iff_like (pattern text : String) :
    (isMatch pattern text = true ↔ Reads pattern.toList text.toList) ∧
    (isMatch pattern text = true → Like pattern.toList text.toList) ∧
    ('%' ∉ text.toList ∨ '%' ∉ pattern.toList →
      (isMatch pattern text = true ↔ Like pattern.toList text.toList)) := by
  have exact := isMatch_eq_true_iff pattern text
  have sound : isMatch pattern text = true → Like pattern.toList text.toList :=
    fun found => (exact.1 found).like
  exact ⟨exact, sound, fun apart => ⟨sound, fun like => exact.2 (like.reads apart)⟩⟩

/-- Two runs with a character between them, over a text that has the character twice. -/
theorem isMatch_iff_like_abxcyce :
    '%' ∉ "abxcyce".toList ∧ Like "a%c%e".toList "abxcyce".toList ∧
      isMatch "a%c%e" "abxcyce" = true := by
  have apart : '%' ∉ "abxcyce".toList := by decide
  have like : Like "a%c%e".toList "abxcyce".toList :=
    ⟨[['a'], ['b', 'x'], ['c'], ['y', 'c'], ['e']], by simp [Covers], rfl⟩
  exact ⟨apart, like, ((isMatch_iff_like "a%c%e" "abxcyce").2.2 (.inl apart)).2 like⟩

/-- The pattern `%` should match every text, and does not match one that begins with a `%` and goes
on. -/
theorem run_taken_for_character :
    Like "%".toList "%a".toList ∧ ¬ isMatch "%" "%a" = true := by
  exact ⟨⟨[['%', 'a']], by simp [Covers], rfl⟩, by decide⟩

end Depot.Text.Pattern
