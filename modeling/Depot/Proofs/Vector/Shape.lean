import Depot.Proofs.Codec
import Depot.Proofs.Filter.Support
import Depot.Proofs.Vector.Search

/-!
# The shape of a vector index

All vectors of an index in memory are sound and of one length, and no two have the same number
(`Memory.Shaped`). The length is fixed by the settings or by the first vector, and stays. What length and
ids an index has is read off its writes alone (`Outline`); an index goes along with its outline
(`Memory.tracks_outline`), hence every run does.

Since the vectors fit each other, a search has no length to complain of but that of its own query.
-/

namespace Depot

/-- A vector is sound if it has components and all of them are finite. -/
theorem Components.validate_eq_ok_iff {v : Components} :
    v.validate = .ok () ↔ v ≠ [] ∧ ∀ x ∈ v, x.isFinite = true := by
  rw [validate]
  split
  · next empty => simp [List.isEmpty_iff.1 empty]
  · next held =>
      have held : v ≠ [] := fun empty => held (List.isEmpty_iff.2 empty)
      split
      · next i found =>
          have some_infinite : ¬ ∀ x ∈ v, x.isFinite = true := by
            intro finite
            have none_found : (v.findIdx? fun x => !x.isFinite) = none :=
              List.findIdx?_eq_none_iff.2 fun x mem => by simp [finite x mem]
            rw [none_found] at found
            cases found
          simp [some_infinite]
      · next none_found =>
          have finite := List.findIdx?_eq_none_iff.1 none_found
          simpa [held] using finite

theorem Components.error_of_validate {v : Components} {e : Error} (h : v.validate = .error e) :
    ∃ detail, e = .invalidVector detail := by
  rw [validate] at h
  split at h
  · cases h
    exact ⟨_, rfl⟩
  · split at h <;> cases h
    exact ⟨_, rfl⟩

namespace Vector

/-- The length of the vectors of an index, once it is known, and the ids in the order in which they
came in. -/
structure Outline where
  dimension : Option Nat
  ids : List String
deriving DecidableEq

namespace Outline

/-- The first entry fixes the length. An id that is there keeps its place, a new one goes to the end. -/
def enter (o : Outline) (entry : Entry) : Outline where
  dimension := some (o.dimension.getD entry.vector.length)
  ids := if entry.id ∈ o.ids then o.ids else o.ids ++ [entry.id]

def leave (o : Outline) (id : String) : Outline :=
  { o with ids := o.ids.filter (· ≠ id) }

end Outline

namespace Shelf

variable {shelf : Shelf}

theorem ids_put (shelf : Shelf) (entry : Entry) :
    (shelf.put entry).map Entry.id =
      if entry.id ∈ shelf.map Entry.id then shelf.map Entry.id
      else shelf.map Entry.id ++ [entry.id] := by
  have there : (shelf.any fun e => e.id == entry.id) = true ↔ entry.id ∈ shelf.map Entry.id := by
    simp
  rw [put]
  by_cases mem : entry.id ∈ shelf.map Entry.id
  · rw [if_pos (there.2 mem), if_pos mem, List.map_map]
    refine List.map_congr_left fun e _ => ?_
    show (if e.id = entry.id then entry else e).id = e.id
    split
    · next same => exact same.symm
    · rfl
  · rw [if_neg fun any => mem (there.1 any), if_neg mem, List.map_append]
    rfl

theorem ids_drop (shelf : Shelf) (id : String) :
    (shelf.drop id).map Entry.id = (shelf.map Entry.id).filter (· ≠ id) := by
  rw [drop, List.filter_map]
  congr 1
  refine List.filter_congr fun e _ => ?_
  by_cases same : e.id = id <;> simp [same]

theorem mem_put {entry e : Entry} (mem : e ∈ shelf.put entry) : e = entry ∨ e ∈ shelf := by
  rw [put] at mem
  split at mem
  · obtain ⟨e', there, same⟩ := List.mem_map.1 mem
    split at same
    · exact .inl same.symm
    · exact .inr (same ▸ there)
  · rcases List.mem_append.1 mem with there | last
    · exact .inr there
    · exact .inl (List.mem_singleton.1 last)

end Shelf

namespace Memory

variable {settings : Settings} {ctx : Context} {m : Memory} {shelf : Shelf}

/-- The index holds a shelf of sound vectors, which has the length and the ids of an outline. -/
structure Outlined (m : Memory) (shelf : Shelf) (o : Outline) : Prop where
  holds : m.Holds shelf
  sound : ∀ e ∈ shelf, e.vector.validate = .ok ()
  dimension : m.dimension = o.dimension
  ids : shelf.map Entry.id = o.ids

def HasOutline (m : Memory) (o : Outline) : Prop :=
  ∃ shelf, m.Outlined shelf o

theorem Outlined.insert {o : Outline} (h : m.Outlined shelf o) {entry : Entry}
    (checked : checkVector m.dimension entry.vector = .ok ()) :
    (m.insert entry).Outlined (shelf.put entry) (o.enter entry) := by
  obtain ⟨_, valid, fits⟩ := Fallible.bind_eq_ok_iff.1 checked
  constructor
  case holds => exact h.holds.insert fits
  case sound =>
    intro e mem
    rcases Shelf.mem_put mem with rfl | there
    · exact valid
    · exact h.sound e there
  case dimension =>
    rw [dimension_insert, h.dimension]
    rfl
  case ids =>
    rw [Shelf.ids_put, h.ids]
    rfl

theorem Outlined.erase {o : Outline} (h : m.Outlined shelf o) (id : String) :
    (m.erase id).Outlined (shelf.drop id) (o.leave id) := by
  constructor
  case holds => exact h.holds.erase id
  case sound => exact fun e mem => h.sound e (List.mem_filter.1 mem).1
  case dimension => exact h.dimension
  case ids =>
    rw [Shelf.ids_drop, h.ids]
    rfl

theorem tracks_outline : Tracks HasOutline Outline.enter Outline.leave where
  insert _ _ entry checked h := by
    obtain ⟨shelf, outlined⟩ := h
    exact ⟨shelf.put entry, outlined.insert checked⟩
  erase _ _ id h := by
    obtain ⟨shelf, outlined⟩ := h
    exact ⟨shelf.drop id, outlined.erase id⟩

/-- The outline that a run of a fresh index leads to. -/
def outlineAfter (settings : Settings) (steps : List (Step Operation)) (s : Session Memory) : Outline :=
  (Step.successes (Operation.call (provider settings)) steps s).foldl
    (Operation.move Outline.enter Outline.leave) ⟨settings.config.dimension, []⟩

/-- After every run an index has the outline that its writes led to. -/
theorem hasOutline_run (steps : List (Step Operation)) {s : Session Memory}
    (fresh : s.backend = initial settings) :
    (Step.run (Operation.call (provider settings)) steps s).backend.HasOutline
      (outlineAfter settings steps s) :=
  (tracks_outline.follows settings).run steps
    (fresh ▸ ⟨[], holds_initial settings, by simp, rfl, rfl⟩)

/-! ### Vectors -/

/-- All vectors are sound and of the length of the index, and no two have the same number. -/
structure Shaped (m : Memory) : Prop where
  nonempty : ∀ e ∈ m.vectors.entries, e.2.vector ≠ []
  finite : ∀ e ∈ m.vectors.entries, ∀ x ∈ e.2.vector, x.isFinite = true
  length : ∀ e ∈ m.vectors.entries, m.dimension = some e.2.vector.length
  numbered : m.vectors.entries.Pairwise fun a b => a.2.sequence ≠ b.2.sequence

theorem Outlined.shaped {o : Outline} (h : m.Outlined shelf o) : m.Shaped := by
  obtain ⟨arrival, arrived, rfl⟩ := h.holds
  have arrives {e : String × Stored} (mem : e ∈ m.vectors.entries) : e ∈ arrival :=
    arrived.perm.mem_iff.1 mem
  have valid {e : String × Stored} (mem : e ∈ m.vectors.entries) :=
    Components.validate_eq_ok_iff.1 (h.sound _ (List.mem_map_of_mem (arrives mem)))
  constructor
  case nonempty => exact fun e mem => (valid mem).1
  case finite => exact fun e mem => (valid mem).2
  case length => exact fun e mem => arrived.fits e (arrives mem)
  case numbered =>
    refine (arrived.perm.pairwise_iff fun ne => ne.symm).2 (arrived.rising.imp ?_)
    exact Nat.ne_of_lt

/-- Once the length is known, no change moves it. -/
theorem tracks_dimension (n : Nat) :
    Tracks (fun m (_ : Unit) => m.dimension = some n) (fun _ _ => ()) fun _ _ => () where
  insert m _ entry _ known := by rw [dimension_insert, known, Option.getD_some]
  erase _ _ _ known := known

/-- Once the length is known, it stays, whatever is done to the index. -/
theorem dimension_run (settings : Settings) (steps : List (Step Operation)) {s : Session Memory} {n : Nat}
    (known : s.backend.dimension = some n) :
    (Step.run (Operation.call (provider settings)) steps s).backend.dimension = some n :=
  ((tracks_dimension n).follows settings).run (k := ()) steps known

/-! ### Answers -/

/-- Which ids an index has is told by its shelf. -/
theorem Holds.contains_iff (h : m.Holds shelf) {id : String} :
    m.vectors.contains id = true ↔ id ∈ shelf.map Entry.id := by
  obtain ⟨arrival, arrived, rfl⟩ := h
  rw [Dict.contains, arrived.found, ← any_entryOf]
  simp

/-- An index under a live context answers as its outline says. -/
structure AnswersAs (ctx : Context) (s : Session Memory) (o : Outline) : Prop where
  lists : (list ctx 0 s).1 = .ok o.ids
  upserts : ∀ entry, (upsert ctx entry s).1 = checkVector o.dimension entry.vector
  upsertsAll : ∀ entries, (upsertBatch ctx entries s).1 = checkBatch o.dimension entries
  deletes : ∀ id, (delete ctx id s).1 = if id ∈ o.ids then .ok () else .error (.notFound id)
  deletesAll : ∀ ids, (deleteBatch ctx ids s).1 = .ok ()

theorem Outlined.answersAs {s : Session Memory} {o : Outline} (h : s.backend.Outlined shelf o)
    (live : s.refusal? ctx = none) : AnswersAs ctx s o := by
  have answer {check : Except Error Unit} {change : Unit → Memory} {b : Memory} :
      (Call.changeIf check change b).1 = check := by
    cases check <;> rfl
  constructor
  case lists => rw [← h.ids, list_answers h.holds live, cut, if_pos rfl]
  case upserts =>
    intro entry
    rw [upsert_eq, Call.under_of_live _ live, answer, h.dimension]
  case upsertsAll =>
    intro entries
    rw [upsertBatch_eq, Call.under_of_live _ live, answer, h.dimension]
  case deletes =>
    intro id
    rw [delete_eq, Call.under_of_live _ live, answer, ← h.ids]
    simp only [h.holds.contains_iff]
  case deletesAll =>
    intro ids
    rw [deleteBatch_eq, Call.under_of_live _ live]

/-! ### Errors -/

/-- If an error tells of a length that does not fit, it is the length of the query. -/
def OwnLength (m : Memory) (query : Option Components) (e : Error) : Prop :=
  ∀ expected actual, e = .dimensionMismatch expected actual →
    ∃ q, query = some q ∧ m.dimension = some expected ∧ q.length = actual ∧ expected ≠ actual

variable {query : Option Components}

theorem ownLength_of_check (m : Memory) (query : Option Components) {s : Session Memory} {e : Error}
    (refused : s.refusal? ctx = some e) : OwnLength m query e := by
  intro expected actual same
  rcases Session.refusal?_eq_some refused with rfl | rfl <;> cases same

theorem ownLength_of_decode (m : Memory) (query : Option Components)
    (reads : settings.codec.FailsToDecode) {bytes : List UInt8} {e : Error}
    (failed : settings.codec.decode bytes = .error e) : OwnLength m query e := by
  intro expected actual same
  obtain ⟨_, _, rfl⟩ := reads bytes e failed
  cases same

theorem ownLength_of_compile (m : Memory) (query : Option Components) {f : Filter} {e : Error}
    (failed : settings.config.filter.compile f = .error e) : OwnLength m query e := by
  intro expected actual same
  have settled := settings.config.filter.settled_compile f
  rw [failed] at settled
  cases settled
  cases same

theorem ownLength_of_validate (m : Memory) {q : Components} {e : Error}
    (failed : q.validate = .error e) : OwnLength m query e := by
  intro expected actual same
  obtain ⟨_, rfl⟩ := Components.error_of_validate failed
  cases same

theorem ownLength_of_checkDimension {m : Memory} {q : Components} {e : Error}
    (failed : checkDimension m.dimension q = .error e) : OwnLength m (some q) e := by
  intro expected actual same
  rw [checkDimension.eq_def] at failed
  split at failed
  · next n known =>
      split at failed
      · cases failed
      · next differs =>
          cases failed
          cases same
          exact ⟨q, rfl, known, rfl, differs⟩
  · cases failed

theorem failsAs_satisfies {P : Error → Prop}
    (unread : ∀ bytes e, settings.codec.decode bytes = .error e → P e) (test : Option Test)
    (stored : Stored) (s : Session Memory) : ((access settings).satisfies test stored).FailsAs s P := by
  cases test with
  | none => exact Call.failsAs_pure _
  | some test =>
      exact Call.failsAs_lift_bind (unread _) fun _ _ => Call.failsAs_pure _

/-- Going through vectors of the length of the query, none is found to have another. -/
theorem failsAs_collect {P : Error → Prop}
    (refused : ∀ (s : Session Memory) e, s.refusal? ctx = some e → P e)
    (unread : ∀ bytes e, settings.codec.decode bytes = .error e → P e) (test : Option Test)
    {entries : Entries Stored} (fits : ∀ e ∈ entries, ∀ q ∈ query, q.length = e.2.vector.length)
    (s : Session Memory) : ((access settings).collect settings ctx query test entries).FailsAs s P := by
  induction entries generalizing s with
  | nil => exact Call.failsAs_pure _
  | cons e rest ih =>
      obtain ⟨id, stored⟩ := e
      rw [List.forall_mem_cons] at fits
      have others := ih fits.2
      rw [Access.collect]
      refine Call.failsAs_check_bind (refused s) ?_
      refine (failsAs_satisfies unread test stored s).bind fun met t => ?_
      cases met with
      | false => exact others t
      | true =>
          rw [if_pos rfl, score_eq fits.1, Call.lift_ok, pure_bind]
          exact (others t).bind fun _ _ => Call.failsAs_pure _

/-- A search over vectors of one length has none to complain of but that of its own query. -/
theorem Shaped.failsAs_run {s : Session Memory} (shaped : s.backend.Shaped)
    (reads : settings.codec.FailsToDecode) (query : Option Components) (k : Nat) (test : Option Test) :
    ((access settings).run settings ctx query k test).FailsAs s (OwnLength s.backend query) := by
  have collects (t : Session Memory)
      (fits : ∀ e ∈ s.backend.vectors.entries, ∀ q ∈ query, q.length = e.2.vector.length) :
      Call.FailsAs (do
        let scored ← (access settings).collect settings ctx query test s.backend.vectors.entries
        let ranked := (scored.mergeSort Scored.comesFirst).map Scored.hit
        return if k = 0 then ranked else ranked.take k) t (OwnLength s.backend query) :=
    (failsAs_collect (fun _ _ => ownLength_of_check _ _) (fun _ _ => ownLength_of_decode _ _ reads)
      test fits t).bind fun _ _ => Call.failsAs_pure _
  rw [Access.run, Call.FailsAs, Call.bind_apply, Call.backend_apply]
  cases query with
  | none => exact collects s (by simp)
  | some q =>
      refine Call.failsAs_lift_bind (fun _ => ownLength_of_validate _) fun _ _ => ?_
      refine Call.failsAs_lift_bind (fun _ => ownLength_of_checkDimension) fun _ checked => ?_
      refine collects s fun e mem q' same => ?_
      cases same
      exact checkDimension_eq_ok_iff.1 checked _ (shaped.length e mem)

theorem Shaped.failsAs_search {s : Session Memory} (shaped : s.backend.Shaped)
    (reads : settings.codec.FailsToDecode) (q : Components) (k : Nat) (f : Option Filter) :
    (search settings ctx q k f).FailsAs s (OwnLength s.backend (some q)) := by
  refine Call.failsAs_check_bind (fun _ => ownLength_of_check _ _) ?_
  cases f with
  | none => exact shaped.failsAs_run reads (some q) k none
  | some f =>
      exact Call.failsAs_lift_bind (fun _ => ownLength_of_compile _ _) fun test _ =>
        shaped.failsAs_run reads (some q) k (some test)

theorem Shaped.failsAs_filter {s : Session Memory} (shaped : s.backend.Shaped)
    (reads : settings.codec.FailsToDecode) (f : Filter) (n : Nat) :
    (filter settings ctx f n).FailsAs s (OwnLength s.backend none) := by
  refine Call.failsAs_check_bind (fun _ => ownLength_of_check _ _) ?_
  split
  · exact Call.failsAs_lift_bind (fun _ => ownLength_of_compile _ _) fun test _ =>
      shaped.failsAs_run reads none n (some test)
  · exact Call.failsAs_fail nofun

/-- **An index keeps its shape.** After any run of a fresh index, whatever its settings and whether its
operations succeeded or failed: all its vectors have components, which are finite, and are of one length,
which is the length of the index; and no two have the same number. The length is that of the settings, or
else of the first vector, and once it was known at any point of the run, it has stayed since. The ids are
listed in the order in which they came in: an upsert of a new one adds it at the end, an upsert of one
that is there leaves it in its place, and a delete drops it. Length and ids also tell what can be done
next. And if a search or query fails because of a length, it is the query's own that is not the length of
the index; filtering never fails so. -/
theorem keeps_shape (steps : List (Step Operation)) {s₀ : Session Memory}
    (fresh : s₀.backend = initial settings) :
    let s := Step.run (Operation.call (provider settings)) steps s₀
    let outline := outlineAfter settings steps s₀
    s.backend.Shaped ∧ s.backend.dimension = outline.dimension ∧
      (∀ before after n, steps = before ++ after →
        (Step.run (Operation.call (provider settings)) before s₀).backend.dimension = some n →
          s.backend.dimension = some n) ∧
      (∀ ctx, s.refusal? ctx = none → AnswersAs ctx s outline) ∧
      (settings.codec.FailsToDecode → ∀ ctx q k n f g,
        (search settings ctx q k f).FailsAs s (OwnLength s.backend (some q)) ∧
        (Memory.query settings ctx q k g).FailsAs s (OwnLength s.backend (some q)) ∧
        (filter settings ctx g n).FailsAs s (OwnLength s.backend none)) := by
  intro s outline
  obtain ⟨shelf, outlined⟩ : s.backend.HasOutline outline := hasOutline_run steps fresh
  have shaped : s.backend.Shaped := outlined.shaped
  refine ⟨shaped, outlined.dimension, ?stays, fun ctx live => outlined.answersAs live, ?errors⟩
  case stays =>
    intro before after n split known
    have later := dimension_run settings after known
    rwa [Step.run, Step.run, ← List.foldl_append, ← split] at later
  case errors =>
    intro reads ctx q k n f g
    exact ⟨shaped.failsAs_search reads q k f, shaped.failsAs_search reads q k (some g),
      shaped.failsAs_filter reads g n⟩

/-- An index is filled with a batch that repeats an id, refuses a batch at its second vector, is emptied,
refuses a vector of another length, and is filled again. -/
def refilled : List (Step Operation) :=
  [.call ⟨0, none⟩ (.upsertBatch [⟨"a", [.one], []⟩, ⟨"b", [.one], []⟩, ⟨"a", [.zero], []⟩]),
    .call ⟨0, none⟩ (.upsertBatch [⟨"c", [.one], []⟩, ⟨"a", [.one, .one], []⟩]),
    .call ⟨0, none⟩ (.delete "a"),
    .call ⟨0, none⟩ (.deleteBatch ["b", "c"]),
    .call ⟨0, none⟩ (.upsert ⟨"a", [.one, .one], []⟩),
    .call ⟨0, none⟩ (.upsertBatch [⟨"b", [.zero], []⟩, ⟨"a", [.one], []⟩, ⟨"b", [.one], []⟩])]

def indexEmpty : Session Memory :=
  ⟨initial { codec := .messagePack }, 0, [], [], []⟩

def indexRefilled : Session Memory :=
  Step.run (Operation.call (provider { codec := .messagePack })) refilled indexEmpty

theorem outlineAfter_refilled :
    outlineAfter { codec := .messagePack } refilled indexEmpty = ⟨some 1, ["b", "a"]⟩ := by
  decide +kernel

theorem refusal?_indexRefilled : indexRefilled.refusal? ⟨0, none⟩ = none := by
  decide +kernel

/-- The first vector has fixed the length for good. No vector of that length is too long or too short to
search with. -/
theorem keeps_shape_refilled :
    indexRefilled.backend.Shaped ∧ indexRefilled.backend.dimension = some 1 ∧
      (list ⟨0, none⟩ 0 indexRefilled).1 = .ok ["b", "a"] ∧
      ∀ x k n g expected actual,
        (search { codec := .messagePack } ⟨0, none⟩ [x] k (some g) indexRefilled).1 ≠
          .error (.dimensionMismatch expected actual) ∧
        (filter { codec := .messagePack } ⟨0, none⟩ g n indexRefilled).1 ≠
          .error (.dimensionMismatch expected actual) := by
  have fresh : indexEmpty.backend = initial { codec := .messagePack } := rfl
  obtain ⟨shaped, dimension, _, answers, errors⟩ := keeps_shape refilled fresh
  have answers := answers ⟨0, none⟩ refusal?_indexRefilled
  rw [outlineAfter_refilled] at dimension answers
  refine ⟨shaped, dimension, answers.lists, fun x k n g expected actual => ?_⟩
  obtain ⟨searched, _, filtered⟩ :=
    errors Codec.failsToDecode_messagePack ⟨0, none⟩ [x] k n (some g) g
  constructor
  · intro failed
    obtain ⟨q, same, known, length, differs⟩ := searched _ failed expected actual rfl
    cases same
    rw [dimension] at known
    cases known
    exact differs length
  · intro failed
    obtain ⟨_, none_some, _⟩ := filtered _ failed expected actual rfl
    cases none_some

end Memory

end Vector

end Depot
