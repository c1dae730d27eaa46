import Depot.Dict

/-!
# Walks over keys that start with a text

The texts that start with a text form an interval of the key order (`isPrefix_of_between`). So a walk
over the entries of a dictionary that begins behind all keys before the text and ends at the first key
that starts otherwise misses none of those that start with it (`Dict.walk_eq_filter`).
-/

namespace Depot

/-- Along an ordered list, what holds of an element and of all before it holds of a front part, and
fails of the rest. -/
theorem while_eq_filter {α : Type} {R : α → α → Prop} {p : α → Bool} {l : List α}
    (ordered : l.Pairwise R) (down : ∀ a ∈ l, ∀ b ∈ l, R a b → p b = true → p a = true) :
    l.takeWhile p = l.filter p ∧ l.dropWhile p = l.filter fun a => !p a := by
  induction l with
  | nil => exact ⟨rfl, rfl⟩
  | cons a l ih =>
      obtain ⟨first, rest⟩ := List.pairwise_cons.1 ordered
      cases here : p a with
      | true =>
          obtain ⟨taken, dropped⟩ := ih rest fun b memb c memc =>
            down b (List.mem_cons_of_mem _ memb) c (List.mem_cons_of_mem _ memc)
          simp [here, taken, dropped]
      | false =>
          have fails (b : α) (mem : b ∈ l) : p b = false := by
            cases there : p b with
            | false => rfl
            | true =>
                have holds := down a List.mem_cons_self b (List.mem_cons_of_mem _ mem) (first b mem)
                  there
                cases here.symm.trans holds
          have whole : l.filter (fun a => !p a) = l :=
            List.filter_eq_self.2 fun b mem => by simp [fails b mem]
          simpa [here, whole] using fails

/-! ### Texts that start with a text -/

/-- A list that is neither before a list nor behind one that starts with it starts with it as well. -/
theorem isPrefix_of_between : ∀ {start as bs : List Char}, ¬ List.Lex (· < ·) as start →
    ¬ List.Lex (· < ·) bs as → start <+: bs → start <+: as
  | [], _, _, _, _, _ => List.nil_prefix
  | c :: start, [], _, low, _, _ => absurd .nil low
  | c :: start, a :: as, bs, low, high, front => by
      obtain ⟨rest, rfl⟩ := front
      rw [List.cons_append] at high
      have same : a = c := by
        rcases Std.lt_trichotomy a c with lt | eq | gt
        · exact absurd (.rel lt) low
        · exact eq
        · exact absurd (.rel gt) high
      subst same
      exact List.cons_prefix_cons.2 ⟨rfl, isPrefix_of_between (fun before => low (.cons before))
        (fun behind => high (.cons behind)) (List.prefix_append start rest)⟩

theorem not_lex_of_isPrefix : ∀ {start cs : List Char}, start <+: cs → ¬ List.Lex (· < ·) cs start
  | [], _, _, before => nomatch before
  | c :: start, _, ⟨rest, rfl⟩, before => by
      rcases List.cons_lex_cons_iff.1 before with lt | ⟨_, before⟩
      · exact Std.lt_irrefl lt
      · exact not_lex_of_isPrefix (List.prefix_append start rest) before

/-- A walk from where it has begun to the first key that starts otherwise finds the entries whose keys
start with the text, but for those before it began. -/
theorem Dict.walk_eq_filter {α : Type} (d : Dict α) (start : String) (isBefore : String → Bool)
    (down : ∀ {a b : String}, a < b → isBefore b = true → isBefore a = true)
    (low : ∀ {key : String}, isBefore key = false → ¬ key < start) :
    ((d.entries.dropWhile fun e => isBefore e.1).takeWhile
        fun e => start.toList.isPrefixOf e.1.toList) =
      d.entries.filter fun e => start.toList.isPrefixOf e.1.toList && !isBefore e.1 := by
  have dropped := (while_eq_filter (p := fun e => isBefore e.1) d.ordered fun _ _ _ _ lt => down lt).2
  have begun := d.ordered.filter fun e => !isBefore e.1
  have taken := (while_eq_filter (p := fun e => start.toList.isPrefixOf e.1.toList) begun
    fun a mem b _ lt front => by
      have behind := low (Bool.not_eq_true' _ ▸ (List.mem_filter.1 mem).2)
      rw [List.isPrefixOf_iff_prefix] at front ⊢
      exact isPrefix_of_between behind (Std.not_lt.2 (Std.le_of_lt lt)) front).1
  rw [dropped, taken, List.filter_filter]

end Depot
