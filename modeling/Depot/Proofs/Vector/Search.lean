import Depot.Proofs.Filter.Compile
import Depot.Proofs.Vector.Shelf

/-!
# Searches of the vector index in memory

What a search finds is told by the shelf alone: the entries whose metadata satisfy the filter, ranked
by their distance to the query, and by their place on the shelf where distances are equal
(`Ranked`). Only then are they cut.

The index goes through its vectors by id and ranks by sequence numbers. Since the numbers rise along
the shelf and no two are equal, it comes to the same (`Memory.ranked_hits`). A search under a context
that stays live, whose vector has the right length and whose metadata can be read, answers with these
hits, whatever the count is (`Memory.run_answers`).
-/

namespace Depot.Vector

/-- The first so many of a list; zero is no limit. -/
def cut {α : Type} (k : Nat) (xs : List α) : List α :=
  if k = 0 then xs else xs.take k

/-- A higher limit, or none, only adds to the end. -/
theorem cut_prefix_cut {α : Type} {k k' : Nat} (positive : 0 < k) (le : k ≤ k' ∨ k' = 0)
    (xs : List α) : cut k xs <+: cut k' xs := by
  rw [cut, cut, if_neg (Nat.ne_of_gt positive)]
  split
  · exact List.take_prefix k xs
  · next limited =>
      exact List.take_prefix_take_left (le.resolve_right limited)

/-- Hits by rising distance, those at one distance in the order in which they are listed. -/
structure Ranked (listed hits : List Hit) : Prop where
  once : hits.Perm listed
  rising : hits.Pairwise fun a b => a.score.totalRank ≤ b.score.totalRank
  level : ∀ d, hits.filter (fun h => h.score = d) = listed.filter fun h => h.score = d

/-- Hits at one distance are ranked as they are listed. -/
theorem Ranked.eq_of_level {listed hits : List Hit} (h : Ranked listed hits) {d : Binary32}
    (same : ∀ hit ∈ listed, hit.score = d) : hits = listed := by
  have same' : ∀ hit ∈ hits, hit.score = d := fun hit mem => same hit (h.once.mem_iff.1 mem)
  have level := h.level d
  rwa [List.filter_eq_self.2 (by simpa using same'), List.filter_eq_self.2 (by simpa using same)]
    at level

/-- A list by rising numbers is known by its members if no two numbers are equal. -/
theorem eq_of_rising {α : Type} (number : α → Nat) {xs ys : List α} (perm : xs.Perm ys)
    (hx : xs.Pairwise fun a b => number a ≤ number b)
    (hy : ys.Pairwise fun a b => number a < number b) : xs = ys := by
  have distinct : xs.Pairwise fun a b => number a ≠ number b :=
    (perm.pairwise_iff fun ne => ne.symm).2 (hy.imp Nat.ne_of_lt)
  have strict : xs.Pairwise fun a b => number a < number b :=
    (hx.and distinct).imp fun h => Nat.lt_of_le_of_ne h.1 h.2
  exact List.Perm.eq_of_pairwise (fun _ _ _ _ ab ba => absurd ab (Nat.lt_asymm ba)) strict hy perm

namespace Memory

variable {settings : Settings} {ctx : Context} {m : Memory} {shelf : Shelf}
  {query : Option Components} {f : Option Filter}

/-- Whether the metadata of an entry satisfy a filter, if there is one. -/
def meets (settings : Settings) (f : Option Filter) (e : Entry) : Bool :=
  match f with
  | none => true
  | some f =>
    match settings.codec.decode e.metadata with
    | .ok v => f.test v
    | .error _ => false

/-- The distance to a query, zero without one. -/
def nearness (settings : Settings) (query : Option Components) (vector : Components) : Binary32 :=
  match query with
  | none => .zero
  | some q =>
    match settings.config.metric.distance q vector with
    | .ok d => d
    | .error _ => .zero

/-- An entry as it is found: with its own vector and metadata, and its distance to the query. -/
def found (settings : Settings) (query : Option Components) (e : Entry) : Hit :=
  ⟨e.id, e.vector, nearness settings query e.vector, e.metadata⟩

/-- Nothing gets in the way of a search under a context: it is live, and the metadata on the shelf can be
read. -/
structure Ready (settings : Settings) (ctx : Context) (shelf : Shelf) (s : Session Memory) :
    Prop where
  live : s.refusal? ctx = none
  readable : ∀ e ∈ shelf, ∃ v, settings.codec.decode e.metadata = .ok v

/-- The distance of vectors of one length is known. -/
theorem distance_eq {q vector : Components} (same : q.length = vector.length) :
    settings.config.metric.distance q vector = .ok (nearness settings (some q) vector) := by
  have known : ∃ d, settings.config.metric.distance q vector = .ok d := ⟨_, if_pos same⟩
  obtain ⟨d, known⟩ := known
  rw [nearness, known]

theorem score_eq {stored : Stored} (fits : ∀ q ∈ query, q.length = stored.vector.length) :
    score settings query stored = .ok (nearness settings query stored.vector) := by
  cases query with
  | none => rfl
  | some q => exact distance_eq (fits q rfl)

/-! ### Going through the vectors -/

/-- Metadata that can be read are tested. -/
theorem satisfies_apply {s : Session Memory} {e : String × Stored}
    (readable : ∃ v, settings.codec.decode e.2.metadata = .ok v) :
    (access settings).satisfies (f.map Filter.test) e.2 s = (.ok (meets settings f (entryOf e)), s) := by
  cases f with
  | none => rfl
  | some f =>
      obtain ⟨v, read⟩ := readable
      have answer : (access settings).decode e.2.metadata = pure v := congrArg Call.lift read
      rw [Option.map_some, Access.satisfies, answer, meets, entryOf]
      dsimp only
      rw [read]
      rfl

/-- A vector with its number, as it is found. -/
def scoredAs (settings : Settings) (query : Option Components) (e : String × Stored) : Scored :=
  ⟨e.2.sequence, found settings query (entryOf e)⟩

/-- The vectors whose metadata satisfy the filter, with their numbers. -/
def collected (settings : Settings) (query : Option Components) (f : Option Filter)
    (entries : Entries Stored) : List Scored :=
  (entries.filter fun e => meets settings f (entryOf e)).map (scoredAs settings query)

/-- Vectors are collected in the order in which they are gone through. -/
theorem collect_apply {entries : Entries Stored} {s : Session Memory}
    (live : s.refusal? ctx = none)
    (readable : ∀ e ∈ entries, ∃ v, settings.codec.decode e.2.metadata = .ok v)
    (fits : ∀ e ∈ entries, ∀ q ∈ query, q.length = e.2.vector.length) :
    (access settings).collect settings ctx query (f.map Filter.test) entries s =
      (.ok (collected settings query f entries), s) := by
  induction entries with
  | nil => rfl
  | cons e rest ih =>
      rw [List.forall_mem_cons] at readable fits
      have others := ih readable.2 fits.2
      have answer := satisfies_apply (s := s) (f := f) readable.1
      obtain ⟨id, stored⟩ := e
      rw [Access.collect, Call.check_bind_of_live live, Call.bind_apply, answer, collected,
        List.filter_cons]
      dsimp only
      cases meets settings f (entryOf (id, stored)) with
      | false => exact others
      | true =>
          rw [if_pos rfl, if_pos rfl, score_eq fits.1, Call.lift_ok, pure_bind, Call.bind_apply, others]
          rfl

/-! ### Ranking -/

/-- All that a search finds, ranked. -/
def hits (settings : Settings) (query : Option Components) (f : Option Filter) (m : Memory) :
    List Hit :=
  ((collected settings query f m.vectors.entries).mergeSort Scored.comesFirst).map Scored.hit

theorem comesFirst_iff {a b : Scored} :
    a.comesFirst b = true ↔ a.hit.score.totalRank < b.hit.score.totalRank ∨
      a.hit.score.totalRank = b.hit.score.totalRank ∧ a.sequence ≤ b.sequence := by
  simp [Scored.comesFirst]

theorem pairwise_ranked (scored : List Scored) :
    (scored.mergeSort Scored.comesFirst).Pairwise fun a b => a.comesFirst b = true := by
  apply List.pairwise_mergeSort
  · intro a b c ab bc
    rw [comesFirst_iff] at *
    omega
  · intro a b
    rw [Bool.or_eq_true, comesFirst_iff, comesFirst_iff]
    omega

/-- Sorting what rises by sequence number, in whatever order it comes, ranks it. -/
theorem ranked_mergeSort {scored arrival : List Scored} (perm : scored.Perm arrival)
    (rising : arrival.Pairwise fun a b => a.sequence < b.sequence) :
    Ranked (arrival.map Scored.hit) ((scored.mergeSort Scored.comesFirst).map Scored.hit) := by
  have sorted := pairwise_ranked scored
  have same := (List.mergeSort_perm scored Scored.comesFirst).trans perm
  constructor
  case once => exact same.map _
  case rising =>
    rw [List.pairwise_map]
    refine sorted.imp fun first => ?_
    rw [comesFirst_iff] at first
    omega
  case level =>
    intro d
    rw [List.filter_map, List.filter_map]
    congr 1
    refine eq_of_rising Scored.sequence (same.filter _) ?_ (rising.filter _)
    refine List.Pairwise.imp_of_mem (fun ha hb first => ?_) (sorted.filter _)
    have sa : _ = d := of_decide_eq_true (List.mem_filter.1 ha).2
    have sb : _ = d := of_decide_eq_true (List.mem_filter.1 hb).2
    rw [comesFirst_iff, sa, sb] at first
    omega

/-- The vectors under their ids are those of the shelf, in another order. -/
theorem Arrived.perm {arrival : Entries Stored} (h : m.Arrived arrival) :
    m.vectors.entries.Perm arrival := by
  have nodup {entries : Entries Stored} (ids : (entries.map Prod.fst).Nodup) : entries.Nodup :=
    List.Pairwise.of_map _ (fun a b ne same => ne (congrArg Prod.fst same)) ids
  rw [List.perm_ext_iff_of_nodup (nodup m.vectors.ordered.nodup) (nodup h.ids)]
  intro e
  obtain ⟨id, stored⟩ := e
  rw [← Dict.get?_eq_some_iff, h.found]
  exact ⟨Entries.mem_of_lookup, Entries.lookup_of_mem_of_nodup h.ids⟩

theorem ranked_hits (h : m.Holds shelf) :
    Ranked ((shelf.filter (meets settings f)).map (found settings query))
      (hits settings query f m) := by
  obtain ⟨arrival, arrived, rfl⟩ := h
  have perm : (collected settings query f m.vectors.entries).Perm
      (collected settings query f arrival) := (arrived.perm.filter _).map _
  have ranked := ranked_mergeSort perm (List.pairwise_map.2 (arrived.rising.filter _))
  rw [List.filter_map, List.map_map]
  rwa [collected, List.map_map] at ranked

theorem ids_nodup (h : m.Holds shelf) : (shelf.map Entry.id).Nodup := by
  obtain ⟨arrival, arrived, rfl⟩ := h
  rw [List.map_map]
  exact arrived.ids

/-- The vectors on the shelf have the length of the index. -/
theorem length_eq (h : m.Holds shelf) {e : Entry} (mem : e ∈ shelf) :
    m.dimension = some e.vector.length := by
  obtain ⟨arrival, arrived, rfl⟩ := h
  obtain ⟨e', mem', rfl⟩ := List.mem_map.1 mem
  exact arrived.fits e' mem'

/-- The ids in order of their numbers are those of the shelf. -/
theorem ids_eq (h : m.Holds shelf) : m.ids = shelf.map Entry.id := by
  obtain ⟨arrival, arrived, rfl⟩ := h
  have sorted : (m.vectors.entries.mergeSort fun a b =>
      decide (a.2.sequence ≤ b.2.sequence)).Pairwise fun a b => a.2.sequence ≤ b.2.sequence := by
    refine List.Pairwise.imp of_decide_eq_true (List.pairwise_mergeSort ?_ ?_ _)
    · intro a b c ab bc
      rw [decide_eq_true_eq] at *
      omega
    · intro a b
      rw [Bool.or_eq_true, decide_eq_true_eq, decide_eq_true_eq]
      omega
  rw [ids, eq_of_rising (fun e : String × Stored => e.2.sequence)
    ((List.mergeSort_perm ..).trans arrived.perm) sorted arrived.rising, List.map_map]
  rfl

/-! ### Answers -/

/-- A search that nothing gets in the way of answers with what it finds, cut. -/
theorem run_answers {s : Session Memory} (holds : s.backend.Holds shelf)
    (ready : Ready settings ctx shelf s) (valid : ∀ q ∈ query, q.validate = .ok ())
    (fits : ∀ q ∈ query, ∀ n, s.backend.dimension = some n → q.length = n) (k : Nat) :
    ((access settings).run settings ctx query k (f.map Filter.test) s).1 =
      .ok (cut k (hits settings query f s.backend)) := by
  obtain ⟨arrival, arrived, rfl⟩ := holds
  have found := collect_apply (f := f) ready.live
    (fun e mem => ready.readable (entryOf e) (List.mem_map_of_mem (arrived.perm.mem_iff.1 mem)))
    fun e mem q known => fits q known _ (arrived.fits e (arrived.perm.mem_iff.1 mem))
  have answer : ((do
      let scored ← (access settings).collect settings ctx query (f.map Filter.test)
        s.backend.vectors.entries
      let ranked := (scored.mergeSort Scored.comesFirst).map Scored.hit
      return if k = 0 then ranked else ranked.take k : Call Memory (List Hit)) s).1 =
        .ok (cut k (hits settings query f s.backend)) := by
    rw [Call.bind_apply, found]
    rfl
  rw [Access.run, Call.bind_apply, Call.backend_apply]
  cases query with
  | none => exact answer
  | some q =>
      dsimp only [access]
      rw [valid q rfl, checkDimension_eq_ok_iff.2 (fits q rfl)]
      exact answer

/-- A filter of clauses that the index offers is compiled to its test. -/
theorem compile_of_offered {g : Filter} (offered : g.OfferedBy settings.config.filter) :
    (Access.compile settings g : Call Memory Test) = pure g.test := by
  rw [Access.compile, FilterSupport.compile_eq_ok_iff.2 ⟨offered, rfl⟩, Call.lift_ok]

theorem search_answers {s : Session Memory} (holds : s.backend.Holds shelf)
    (ready : Ready settings ctx shelf s) {q : Components} (valid : q.validate = .ok ())
    (fits : ∀ n, s.backend.dimension = some n → q.length = n)
    (offered : ∀ g ∈ f, g.OfferedBy settings.config.filter) (k : Nat) :
    (search settings ctx q k f s).1 = .ok (cut k (hits settings (some q) f s.backend)) := by
  have compiled : search settings ctx q k f s =
      (access settings).run settings ctx (some q) k (f.map Filter.test) s := by
    refine (Call.check_bind_of_live ready.live _).trans ?_
    cases f with
    | none => rfl
    | some g =>
        dsimp only
        rw [compile_of_offered (offered g rfl), pure_bind]
        rfl
  rw [compiled]
  exact run_answers holds ready (fun _ same => Option.some.inj same ▸ valid)
    (fun _ same => Option.some.inj same ▸ fits) k

/-- Without a query the hits stand as on the shelf. -/
theorem hits_without_query (h : m.Holds shelf) :
    hits settings none f m = (shelf.filter (meets settings f)).map (found settings none) := by
  refine (ranked_hits h).eq_of_level (d := .zero) fun hit mem => ?_
  obtain ⟨e, _, rfl⟩ := List.mem_map.1 mem
  rfl

theorem filter_answers {s : Session Memory} (holds : s.backend.Holds shelf)
    (ready : Ready settings ctx shelf s) {g : Filter}
    (offered : g.OfferedBy settings.config.filter) (n : Nat) :
    (filter settings ctx g n s).1 =
      if settings.config.filter.metadataFilter then
        .ok (cut n ((shelf.filter (meets settings (some g))).map (found settings none)))
      else .error .filterNotSupported := by
  rw [filter, Access.filter, Call.check_bind_of_live ready.live]
  split
  · rw [compile_of_offered offered, pure_bind, ← hits_without_query holds]
    exact run_answers (f := some g) holds ready (by simp) (by simp) n
  · rfl

theorem list_answers {s : Session Memory} (holds : s.backend.Holds shelf)
    (live : s.refusal? ctx = none) (n : Nat) :
    (list ctx n s).1 = .ok (cut n (shelf.map Entry.id)) := by
  rw [list, Call.check_bind_of_live live, ← ids_eq holds]
  rfl

/-- After any run of a fresh index, a search that nothing gets in the way of finds exactly the entries
of the shelf that satisfy its filter, each once, with its own vector and metadata and its distance to
the query, ranked by distance and then by the order in which the ids came in. The hits are cut to the
count at the very end, so a lower count gets a prefix of what a higher one gets, or none. A query is a
search with a filter. The ids are listed by the order in which they came in, and filtering without a
query, where the index offers it, finds the first of them that satisfy the filter. -/
theorem search_exact (steps : List (Step Operation)) {s₀ : Session Memory}
    (fresh : s₀.backend = initial settings) {q : Components} (valid : q.validate = .ok ())
    (fits : ∀ n, (Step.run (Operation.call (provider settings)) steps s₀).backend.dimension = some n →
      q.length = n)
    (offered : ∀ g ∈ f, g.OfferedBy settings.config.filter)
    (ready : Ready settings ctx (shelfAfter settings steps s₀)
      (Step.run (Operation.call (provider settings)) steps s₀)) :
    let s := Step.run (Operation.call (provider settings)) steps s₀
    let shelf := shelfAfter settings steps s₀
    (shelf.map Entry.id).Nodup ∧
      ∃ hits,
        Ranked ((shelf.filter (meets settings f)).map (found settings (some q))) hits ∧
        (∀ hit ∈ hits, settings.config.metric.distance q hit.vector = .ok hit.score) ∧
        (∀ k, (search settings ctx q k f s).1 = .ok (cut k hits)) ∧
        (∀ k k', 0 < k → k ≤ k' ∨ k' = 0 → cut k hits <+: cut k' hits) ∧
        (∀ g k, Memory.query settings ctx q k g = search settings ctx q k (some g)) ∧
        (∀ n, (list ctx n s).1 = .ok (cut n (shelf.map Entry.id))) ∧
        ∀ g ∈ f, ∀ n, (filter settings ctx g n s).1 =
          if settings.config.filter.metadataFilter then
            .ok (cut n ((shelf.filter (meets settings f)).map (found settings none)))
          else .error .filterNotSupported := by
  intro s shelf
  have holds : s.backend.Holds shelf := holds_run steps fresh
  have ranked : Ranked ((shelf.filter (meets settings f)).map (found settings (some q)))
      (hits settings (some q) f s.backend) := ranked_hits holds
  refine ⟨ids_nodup holds, hits settings (some q) f s.backend, ranked, ?distance, ?search,
    ?prefixes, ?query, list_answers holds ready.live, ?filter⟩
  case distance =>
    intro hit mem
    obtain ⟨e, there, rfl⟩ := List.mem_map.1 (ranked.once.mem_iff.1 mem)
    exact distance_eq (fits _ (length_eq holds (List.mem_filter.1 there).1))
  case search => exact search_answers holds ready valid fits offered
  case prefixes => exact fun k k' positive le => cut_prefix_cut positive le _
  case query => exact fun g k => rfl
  case filter =>
    intro g same n
    rw [Option.mem_def] at same
    subst same
    exact filter_answers holds ready (offered g rfl) n

/-! ### One distance for all -/

/-- Vectors that are all at one distance: the first is written over, the second deleted and put in
again, and the third has other metadata. -/
def tied : List (Step Operation) :=
  [.call ⟨0, none⟩ (.upsertBatch [⟨"a", [.one], [0x80]⟩, ⟨"b", [.one], [0x80]⟩,
      ⟨"c", [.one], [0x81, 0xa1, 0x78, 0x01]⟩]),
    .call ⟨0, none⟩ (.upsert ⟨"a", [.one], [0x80]⟩),
    .call ⟨0, none⟩ (.delete "b"),
    .call ⟨0, none⟩ (.upsert ⟨"b", [.one], [0x80]⟩)]

/-- An index that may offer to filter without a query. -/
def offering (metadataFilter : Bool) : Settings :=
  { config := { filter := { metadataFilter } }, codec := .messagePack }

def beforeTied (offers : Bool) : Session Memory := ⟨initial (offering offers), 0, [], [], []⟩

def afterTied (offers : Bool) : Session Memory :=
  Step.run (Operation.call (provider (offering offers))) tied (beforeTied offers)

theorem shelfAfter_tied (offers : Bool) : shelfAfter (offering offers) tied (beforeTied offers) =
    [⟨"a", [.one], [0x80]⟩, ⟨"c", [.one], [0x81, 0xa1, 0x78, 0x01]⟩, ⟨"b", [.one], [0x80]⟩] := by
  rfl

theorem dimension_tied (offers : Bool) : (afterTied offers).backend.dimension = some 1 := by
  rfl

theorem ready_tied (offers : Bool) : Ready (offering offers) ⟨0, none⟩
    (shelfAfter (offering offers) tied (beforeTied offers)) (afterTied offers) := by
  constructor
  · rfl
  · rw [shelfAfter_tied]
    simp only [List.forall_mem_cons]
    exact ⟨⟨_, rfl⟩, ⟨_, rfl⟩, ⟨_, rfl⟩, by simp⟩

theorem filter_tied (offers : Bool) :
    (shelfAfter (offering offers) tied (beforeTied offers)).filter
      (meets (offering offers) (some (.not (.present "x")))) =
        [⟨"a", [.one], [0x80]⟩, ⟨"b", [.one], [0x80]⟩] := by
  rw [shelfAfter_tied]
  rfl

/-- Where all are at one distance, the hits are in the order in which their ids came in. -/
theorem ids_of_ranked_tied {offers : Bool} {hits : List Hit}
    (ranked : Ranked (((shelfAfter (offering offers) tied (beforeTied offers)).filter
      (meets (offering offers) (some (.not (.present "x"))))).map
        (found (offering offers) (some [.one]))) hits) : hits.map Hit.id = ["a", "b"] := by
  rw [filter_tied] at ranked
  rw [ranked.eq_of_level (d := nearness (offering offers) (some [.one]) [.one]) (by simp [found])]
  rfl

theorem search_exact_tied :
    (list ⟨0, none⟩ 0 (afterTied true)).1 = .ok ["a", "c", "b"] ∧
      ∃ hits, hits.map Hit.id = ["a", "b"] ∧
        ∀ k, (search (offering true) ⟨0, none⟩ [.one] k (some (.not (.present "x")))
          (afterTied true)).1 = .ok (cut k hits) := by
  obtain ⟨_, hits, ranked, _, searched, _, _, listed, _⟩ :=
    search_exact (f := some (.not (.present "x"))) tied rfl (q := [.one]) rfl
      (fun _ known => Option.some.inj ((dimension_tied true).symm.trans known)) (fun _ _ _ _ => rfl)
      (ready_tied true)
  refine ⟨?_, hits, ids_of_ranked_tied ranked, searched⟩
  rw [shelfAfter_tied] at listed
  exact listed 0

/-- An index that does not offer to filter without a query refuses to, also where entries satisfy the
filter and a search with it is fine. And since zero is no limit, what a search gets with it is no prefix
of what it gets with one. -/
theorem filter_refused_and_zero_no_limit :
    let g : Filter := .not (.present "x")
    g.OfferedBy (offering false).config.filter ∧
      Ready (offering false) ⟨0, none⟩ (shelfAfter (offering false) tied (beforeTied false))
        (afterTied false) ∧
      (shelfAfter (offering false) tied (beforeTied false)).filter (meets (offering false) (some g)) =
        [⟨"a", [.one], [0x80]⟩, ⟨"b", [.one], [0x80]⟩] ∧
      (filter (offering false) ⟨0, none⟩ g 0 (afterTied false)).1 = .error .filterNotSupported ∧
      ∃ all first,
        (search (offering false) ⟨0, none⟩ [.one] 0 (some g) (afterTied false)).1 = .ok all ∧
        (search (offering false) ⟨0, none⟩ [.one] 1 (some g) (afterTied false)).1 = .ok first ∧
        ¬ all <+: first := by
  intro g
  have holds : (afterTied false).backend.Holds _ := holds_run tied rfl
  have offered : g.OfferedBy (offering false).config.filter := fun _ _ => rfl
  have searched := search_answers (f := some g) holds (ready_tied false) (q := [.one]) rfl
    (fun _ known => Option.some.inj ((dimension_tied false).symm.trans known))
    (fun _ same => Option.some.inj same ▸ offered)
  have ids := ids_of_ranked_tied (ranked_hits holds)
  have two := congrArg List.length ids
  rw [List.length_map] at two
  refine ⟨offered, ready_tied false, filter_tied false, ?refused, _, _, searched 0, searched 1, ?longer⟩
  case refused => exact filter_answers holds (ready_tied false) offered 0
  case longer =>
    intro shorter
    have le := shorter.length_le
    rw [cut, cut, if_pos rfl, if_neg Nat.one_ne_zero, List.length_take, two] at le
    simp at le

end Memory

end Depot.Vector
