import Depot.Proofs.Filter.Algebra
import Depot.Proofs.Vector.Search
import Mathlib.Data.List.Nodup

/-!
# Filters that split an index

The entries of an index that satisfy a filter, and those that satisfy its negation, are all its entries,
each once and in the order in which they are listed (`Memory.splits_filter`). To a filter that becomes
another by the laws of Boolean algebra the index answers as to the other: both are compiled to one test.
-/

namespace Depot.Vector

/-- Two lists of ids that make up a third: each id is in just one of them, and both keep the order. -/
structure Splits (ids yes no : List String) : Prop where
  nodup : ids.Nodup
  yesInOrder : yes.Sublist ids
  noInOrder : no.Sublist ids
  apart : ∀ id ∈ ids, id ∈ yes ↔ id ∉ no

/-- Of entries with different ids, those that satisfy a test are known by their ids. -/
theorem mem_ids_filter_iff {shelf : Shelf} (nodup : (shelf.map Entry.id).Nodup) {test : Entry → Bool}
    {e : Entry} (mem : e ∈ shelf) : e.id ∈ (shelf.filter test).map Entry.id ↔ test e = true := by
  constructor
  · intro found
    obtain ⟨e', there, same⟩ := List.mem_map.1 found
    obtain ⟨mem', met⟩ := List.mem_filter.1 there
    obtain rfl := List.inj_on_of_nodup_map nodup mem' mem same
    exact met
  · intro met
    exact List.mem_map_of_mem (List.mem_filter.2 ⟨mem, met⟩)

/-- Tests of which just one is met by every entry split a shelf. -/
theorem splits_filter {shelf : Shelf} (nodup : (shelf.map Entry.id).Nodup) {test other : Entry → Bool}
    (apart : ∀ e ∈ shelf, other e = !test e) :
    Splits (shelf.map Entry.id) ((shelf.filter test).map Entry.id)
      ((shelf.filter other).map Entry.id) where
  nodup := nodup
  yesInOrder := List.filter_sublist.map _
  noInOrder := List.filter_sublist.map _
  apart id listed := by
    obtain ⟨e, mem, rfl⟩ := List.mem_map.1 listed
    rw [mem_ids_filter_iff nodup mem, mem_ids_filter_iff nodup mem, apart e mem]
    simp

namespace Memory

variable {settings : Settings} {ctx : Context} {shelf : Shelf}

/-- Metadata that can be read satisfy a filter or its negation. -/
theorem meets_not {f : Filter} {e : Entry} (readable : ∃ v, settings.codec.decode e.metadata = .ok v) :
    meets settings (some (.not f)) e = !meets settings (some f) e := by
  obtain ⟨v, read⟩ := readable
  simp only [meets, read, Filter.test_not]

theorem map_id_found (settings : Settings) (query : Option Components) (entries : List Entry) :
    (entries.map (found settings query)).map Hit.id = entries.map Entry.id := by
  rw [List.map_map]
  rfl

section

variable (offered : ∀ op, settings.config.filter.allows op = true) {f g : Filter}

include offered

/-- Without a limit, filtering finds the entries of the shelf that satisfy the filter. -/
theorem filter_all (on : settings.config.filter.metadataFilter = true) {s : Session Memory}
    (holds : s.backend.Holds shelf) (ready : Ready settings ctx shelf s) :
    (filter settings ctx f 0 s).1 =
      .ok ((shelf.filter (meets settings (some f))).map (found settings none)) := by
  rw [filter_answers holds ready (fun op _ => offered op), if_pos on]
  rfl

/-- Where everything is offered, a filter is compiled as what it becomes by the laws. -/
theorem compile_rewrites (h : f.Rewrites g) :
    (Access.compile settings f : Call Memory Test) = Access.compile settings g := by
  rw [compile_of_offered fun op _ => offered op, compile_of_offered fun op _ => offered op, h.test_eq]

end

/-- **Filters make up a Boolean algebra.** Where an index offers to filter without a query and with
clauses of all kinds: after any run of a fresh index, a filter and its negation split the ids that the
index lists, if its metadata can be read. And by the laws every filter comes to a normal form, in which
negations stand at the leaves alone, and there only where the kind has no opposite, choices are spelled
out as equalities, and no group is in one of its kind. Wherever in a filter and in whatever order the
laws are applied, no answer to a search, query or filtering changes, whatever the index holds. -/
theorem filters_make_algebra (on : settings.config.filter.metadataFilter = true)
    (offered : ∀ op, settings.config.filter.allows op = true) :
    (∀ (steps : List (Step Operation)) (s₀ : Session Memory) (ctx : Context) (f : Filter),
      s₀.backend = initial settings →
      let s := Step.run (Operation.call (provider settings)) steps s₀
      Ready settings ctx (shelfAfter settings steps s₀) s →
      ∃ ids yes no, (list ctx 0 s).1 = .ok ids ∧ (filter settings ctx f 0 s).1 = .ok yes ∧
        (filter settings ctx (.not f) 0 s).1 = .ok no ∧
        Splits ids (yes.map Hit.id) (no.map Hit.id)) ∧
    (∀ f : Filter, f.Rewrites f.normal ∧ f.normal.IsNormal) ∧
    ∀ f g : Filter, f.Rewrites g → ∀ (ctx : Context) (q : Components) (n : Nat),
      search settings ctx q n (some f) = search settings ctx q n (some g) ∧
      query settings ctx q n f = query settings ctx q n g ∧
      filter settings ctx f n = filter settings ctx g n := by
  refine ⟨?split, fun f => ⟨f.rewrites_normal, f.isNormal_normal⟩, ?rewritten⟩
  case split =>
    intro steps s₀ ctx f fresh s ready
    have holds : s.backend.Holds (shelfAfter settings steps s₀) := holds_run steps fresh
    refine ⟨_, _, _, list_answers holds ready.live 0, filter_all offered on holds ready,
      filter_all offered on holds ready, ?_⟩
    rw [map_id_found, map_id_found]
    exact splits_filter (ids_nodup holds) fun e mem => meets_not (ready.readable e mem)
  case rewritten =>
    intro f g h ctx q n
    have compiled := compile_rewrites offered h
    refine ⟨?_, ?_, ?_⟩
    · simp only [search, Access.search, compiled]
    · simp only [query, Access.query, compiled]
    · simp only [filter, Access.filter, compiled]

/-- Entries whose field is missing, null, not a number, and a text. -/
def mixed : Shelf :=
  [⟨"a", [.one], [0x80]⟩, ⟨"b", [.one], [0x81, 0xa1, 0x78, 0xc0]⟩,
    ⟨"c", [.one], [0x81, 0xa1, 0x78, 0xcb, 0x7f, 0xf8, 0, 0, 0, 0, 0, 0]⟩,
    ⟨"d", [.one], [0x81, 0xa1, 0x78, 0xa1, 0x61]⟩]

/-- Only the text is found by a filter for it, and all the others by the negation. The filter may be
brought to its normal form before a search. -/
theorem filters_make_algebra_mixed :
    let settings : Settings := { codec := .messagePack }
    let ctx : Context := ⟨0, none⟩
    let s := Step.run (Operation.call (provider settings)) [.call ctx (.upsertBatch mixed)]
      ⟨initial settings, 0, [], [], []⟩
    let f : Filter := .not (.or [.ne "x" (.string "a"),
      .not (.isIn "x" [.string "a", .integer 1])])
    let normal : Filter := .and [.eq "x" (.string "a"),
      .or [.eq "x" (.string "a"), .eq "x" (.integer 1)]]
    (list ctx 0 s).1 = .ok ["a", "b", "c", "d"] ∧
      (∃ yes no, (filter settings ctx f 0 s).1 = .ok yes ∧
        (filter settings ctx (.not f) 0 s).1 = .ok no ∧ yes.map Hit.id = ["d"] ∧
        no.map Hit.id = ["a", "b", "c"]) ∧
      search settings ctx [.one] 0 (some f) = search settings ctx [.one] 0 (some normal) := by
  intro settings ctx s f normal
  have offered (op : Operator) : settings.config.filter.allows op = true := rfl
  have holds : s.backend.Holds mixed := holds_run [.call ctx (.upsertBatch mixed)] rfl
  have ready : Ready settings ctx mixed s := by
    refine ⟨rfl, ?_⟩
    simp only [mixed, List.forall_mem_cons]
    exact ⟨⟨_, rfl⟩, ⟨_, rfl⟩, ⟨_, rfl⟩, ⟨_, rfl⟩, by simp⟩
  have on : settings.config.filter.metadataFilter = true := rfl
  obtain ⟨split, _, rewritten⟩ := filters_make_algebra on offered
  obtain ⟨_, yes, no, _, found, others, _⟩ :=
    split [.call ctx (.upsertBatch mixed)] ⟨initial settings, 0, [], [], []⟩ ctx f rfl ready
  refine ⟨list_answers holds ready.live 0, ⟨yes, no, found, others, ?_, ?_⟩, ?_⟩
  · obtain rfl := Except.ok.inj (found.symm.trans (filter_all offered on holds ready))
    rw [map_id_found]
    rfl
  · obtain rfl := Except.ok.inj (others.symm.trans (filter_all offered on holds ready))
    rw [map_id_found]
    rfl
  · exact (rewritten f f.normal f.rewrites_normal ctx [.one] 0).1

end Memory

end Depot.Vector
