import Depot.Proofs.Dict.Lookup
import Depot.Proofs.Session.Run
import Depot.Proofs.Vector.Memory

/-!
# What a vector index holds

A shelf is what an index should hold, read off the writes that succeeded: the entries by the order in
which their ids came in. An entry under an id that is there takes the place of the old one; an id that
is dropped and comes back goes to the end.

An index in memory finds its vectors by their ids and knows the order only by sequence numbers. It
holds a shelf if its vectors, in the order of these numbers, are the entries of the shelf (`Arrived`).

What an index keeps with a reference when one entry is put in or dropped, it keeps through every operation
(`Memory.Tracks.follows`). It holds its shelf so (`Memory.tracks_holds`), hence after every run
(`Memory.holds_run`).
-/

namespace Depot.Vector

/-- An operation of an index, with all it is called with but the context. -/
inductive Operation
  | upsert (entry : Entry)
  | upsertBatch (entries : List Entry)
  | get (id : String)
  | delete (id : String)
  | deleteBatch (ids : List String)
  | search (vector : Components) (k : Nat) (filter : Option Filter)
  | query (vector : Components) (k : Nat) (filter : Filter)
  | filter (filter : Filter) (limit : Nat)
  | list (limit : Nat)
  | has (id : String)

/-- The call of an operation, its answer left out. -/
def Operation.call {σ : Type} (p : Provider σ) (ctx : Context) : Operation → Call σ Unit
  | upsert entry => p.upsert ctx entry
  | upsertBatch entries => p.upsertBatch ctx entries
  | get id => (fun _ => ()) <$> p.get ctx id
  | delete id => p.delete ctx id
  | deleteBatch ids => p.deleteBatch ctx ids
  | search vector k f => (fun _ => ()) <$> p.search ctx vector k f
  | query vector k f => (fun _ => ()) <$> p.query ctx vector k f
  | filter f limit => (fun _ => ()) <$> p.filter ctx f limit
  | list limit => (fun _ => ()) <$> p.list ctx limit
  | has id => (fun _ => ()) <$> p.has ctx id

/-- What a reference makes of an operation that succeeds, by what it makes of an entry that is put in
and of an id that is dropped. -/
def Operation.move {κ : Type} (enter : κ → Entry → κ) (leave : κ → String → κ) (k : κ) :
    Operation → κ
  | upsert entry => enter k entry
  | upsertBatch entries => entries.foldl enter k
  | delete id => leave k id
  | deleteBatch ids => ids.foldl leave k
  | _ => k

/-- Entries by the order in which their ids came in. -/
abbrev Shelf := List Entry

namespace Shelf

/-- Puts an entry in the place of the one under its id, or else at the end. -/
def put (shelf : Shelf) (entry : Entry) : Shelf :=
  if shelf.any fun e => e.id == entry.id then
    shelf.map fun e => if e.id = entry.id then entry else e
  else shelf ++ [entry]

def drop (shelf : Shelf) (id : String) : Shelf :=
  shelf.filter fun e => e.id != id

/-- What an operation makes of a shelf when it succeeds. -/
def move (shelf : Shelf) : Operation → Shelf
  | .upsert entry => shelf.put entry
  | .upsertBatch entries => entries.foldl put shelf
  | .delete id => shelf.drop id
  | .deleteBatch ids => ids.foldl drop shelf
  | _ => shelf

theorem move_eq : move = Operation.move put drop := by
  funext shelf op
  cases op <;> rfl

end Shelf

namespace Memory

variable {settings : Settings} {ctx : Context} {m : Memory} {shelf : Shelf}

def entryOf (e : String × Stored) : Entry := ⟨e.1, e.2.vector, e.2.metadata⟩

/-- The vectors of an index, listed by rising sequence number. -/
structure Arrived (m : Memory) (arrival : Entries Stored) : Prop where
  found : ∀ id, m.vectors.get? id = arrival.lookup id
  ids : (arrival.map Prod.fst).Nodup
  rising : arrival.Pairwise fun a b => a.2.sequence < b.2.sequence
  counted : ∀ e ∈ arrival, e.2.sequence ≤ m.lastSequence
  fits : ∀ e ∈ arrival, m.dimension = some e.2.vector.length

/-- The index holds what a shelf says. -/
def Holds (m : Memory) (shelf : Shelf) : Prop :=
  ∃ arrival, m.Arrived arrival ∧ shelf = arrival.map entryOf

theorem holds_initial (settings : Settings) : (initial settings).Holds [] :=
  ⟨[], ⟨fun _ => rfl, .nil, .nil, by simp, by simp⟩, rfl⟩

/-! ### Writes -/

theorem dimension_insert (m : Memory) (entry : Entry) :
    (m.insert entry).dimension = some (m.dimension.getD entry.vector.length) := by
  rw [insert]
  split <;> rfl

theorem checkDimension_eq_ok_iff {dimension : Option Nat} {vector : Components} :
    checkDimension dimension vector = .ok () ↔ ∀ n, dimension = some n → vector.length = n := by
  cases dimension with
  | none => simp [checkDimension]
  | some expected =>
      rw [checkDimension]
      split
      · next same => simp [same]
      · next differs => simp [Ne.symm differs]

/-- A vector that passes the check keeps the dimension, or is the first to set it. -/
theorem Arrived.fits_insert {arrival : Entries Stored} (h : m.Arrived arrival) {entry : Entry}
    (checked : checkDimension m.dimension entry.vector = .ok ()) :
    (m.insert entry).dimension = some entry.vector.length ∧
      ∀ e ∈ arrival, (m.insert entry).dimension = some e.2.vector.length := by
  rw [dimension_insert]
  cases known : m.dimension with
  | none =>
      refine ⟨rfl, fun e mem => ?_⟩
      rw [h.fits e mem] at known
      cases known
  | some n =>
      have length := checkDimension_eq_ok_iff.1 checked n known
      refine ⟨by rw [length]; rfl, fun e mem => ?_⟩
      rw [← h.fits e mem, known]
      rfl

theorem any_entryOf {arrival : Entries Stored} {id : String} :
    (arrival.map entryOf).any (fun e => e.id == id) = (arrival.lookup id).isSome := by
  induction arrival with
  | nil => rfl
  | cons e rest ih =>
      obtain ⟨k, stored⟩ := e
      rw [List.map_cons, List.any_cons, ih, Entries.lookup_cons]
      by_cases same : id = k
      · simp [entryOf, same]
      · simp [entryOf, same, Ne.symm same]

/-- An id that is there keeps its number and its place. -/
theorem Arrived.overwrite {arrival : Entries Stored} (h : m.Arrived arrival) {entry : Entry}
    (checked : checkDimension m.dimension entry.vector = .ok ()) {old : Stored}
    (there : m.vectors.get? entry.id = some old) :
    (m.insert entry).Arrived (arrival.map fun e =>
      (e.1, if e.1 = entry.id then ⟨e.2.sequence, entry.vector, entry.metadata⟩ else e.2)) := by
  obtain ⟨fitsNew, fitsOld⟩ := h.fits_insert checked
  have sequence (e : String × Stored) :
      (if e.1 = entry.id then (⟨e.2.sequence, entry.vector, entry.metadata⟩ : Stored)
        else e.2).sequence = e.2.sequence := by
    split <;> rfl
  constructor
  · intro id
    rw [insert, there, Entries.lookup_map fun e : String × Stored =>
      if e.1 = entry.id then ⟨e.2.sequence, entry.vector, entry.metadata⟩ else e.2, ← h.found]
    dsimp only
    rw [Dict.get?_insert]
    split
    · next same => rw [same, there]; simp
    · simp
  · rw [List.map_map]
    exact h.ids
  · rw [List.pairwise_map]
    simpa only [sequence] using h.rising
  · intro e mem
    obtain ⟨e', mem', rfl⟩ := List.mem_map.1 mem
    rw [insert, there]
    dsimp only
    rw [sequence]
    exact h.counted e' mem'
  · intro e mem
    obtain ⟨e', mem', rfl⟩ := List.mem_map.1 mem
    dsimp only
    split
    · exact fitsNew
    · exact fitsOld e' mem'

/-- An id that is not there gets the next number and the last place. -/
theorem Arrived.append {arrival : Entries Stored} (h : m.Arrived arrival) {entry : Entry}
    (checked : checkDimension m.dimension entry.vector = .ok ())
    (absent : m.vectors.get? entry.id = none) :
    (m.insert entry).Arrived
      (arrival ++ [(entry.id, ⟨m.lastSequence + 1, entry.vector, entry.metadata⟩)]) := by
  obtain ⟨fitsNew, fitsOld⟩ := h.fits_insert checked
  have missing : entry.id ∉ arrival.map Prod.fst := by
    intro mem
    obtain ⟨e, mem, same⟩ := List.mem_map.1 mem
    have found : arrival.lookup e.1 = some e.2 := Entries.lookup_of_mem_of_nodup h.ids mem
    rw [same, ← h.found, absent] at found
    cases found
  constructor
  · intro id
    rw [insert, absent, List.lookup_append, ← h.found]
    dsimp only
    rw [Dict.get?_insert, Entries.lookup_cons]
    split
    · next same => rw [same, absent]; rfl
    · simp
  · rw [List.map_append, List.nodup_append]
    refine ⟨h.ids, by simp, fun a mem b last => ?_⟩
    rw [List.map_singleton, List.mem_singleton] at last
    rintro rfl
    subst last
    exact missing mem
  · refine List.pairwise_append.2 ⟨h.rising, List.pairwise_singleton .., fun a mem b last => ?_⟩
    rw [List.mem_singleton] at last
    subst last
    exact Nat.lt_succ_of_le (h.counted a mem)
  · intro e mem
    rw [insert, absent]
    rcases List.mem_append.1 mem with mem | last
    · exact Nat.le_succ_of_le (h.counted e mem)
    · rw [List.mem_singleton] at last
      subst last
      exact Nat.le_refl _
  · intro e mem
    rcases List.mem_append.1 mem with mem | last
    · exact fitsOld e mem
    · rw [List.mem_singleton] at last
      subst last
      exact fitsNew

theorem Holds.insert (h : m.Holds shelf) {entry : Entry}
    (checked : checkDimension m.dimension entry.vector = .ok ()) :
    (m.insert entry).Holds (shelf.put entry) := by
  obtain ⟨arrival, arrived, rfl⟩ := h
  rw [Shelf.put, any_entryOf, ← arrived.found]
  cases there : m.vectors.get? entry.id with
  | some old =>
      refine ⟨_, arrived.overwrite checked there, ?_⟩
      rw [if_pos (by rfl), List.map_map, List.map_map]
      refine List.map_congr_left fun e mem => ?_
      obtain ⟨id, stored⟩ := e
      by_cases same : id = entry.id
      · subst same
        simp [entryOf]
      · simp [entryOf, same]
  | none =>
      refine ⟨_, arrived.append checked there, ?_⟩
      rw [if_neg (by simp), List.map_append]
      rfl

theorem Holds.erase (h : m.Holds shelf) (id : String) : (m.erase id).Holds (shelf.drop id) := by
  obtain ⟨arrival, arrived, rfl⟩ := h
  refine ⟨arrival.filter fun e => e.1 != id, ?_, List.filter_map⟩
  have less {e : String × Stored} (mem : e ∈ arrival.filter fun e => e.1 != id) : e ∈ arrival :=
    (List.mem_filter.1 mem).1
  constructor
  · intro other
    show (m.vectors.erase id).get? other = (Entries.erase id arrival).lookup other
    rw [Dict.get?_erase, arrived.found]
    split
    · next same => rw [same, Entries.lookup_erase_self]
    · next differs => rw [Entries.lookup_erase_of_ne differs]
  · exact arrived.ids.sublist (List.filter_sublist.map _)
  · exact arrived.rising.filter _
  · exact fun e mem => arrived.counted e (less mem)
  · exact fun e mem => arrived.fits e (less mem)

/-! ### Reads -/

section

variable {P : Memory → Prop}

theorem keeps_satisfies (test : Option Test) (stored : Stored) :
    ((access settings).satisfies test stored).Keeps P := by
  cases test with
  | none => exact Call.keeps_pure _
  | some test => exact (Call.keeps_lift _).bind fun _ => Call.keeps_pure _

theorem keeps_collect (query : Option Components) (test : Option Test) (entries : Entries Stored) :
    ((access settings).collect settings ctx query test entries).Keeps P := by
  induction entries with
  | nil => exact Call.keeps_pure _
  | cons e rest ih =>
      obtain ⟨id, stored⟩ := e
      rw [Access.collect]
      refine (Call.keeps_check ctx).bind fun _ => (keeps_satisfies test stored).bind fun met => ?_
      cases met with
      | false => exact ih
      | true =>
          exact (Call.keeps_lift _).bind fun _ => ih.bind fun _ => Call.keeps_pure _

theorem keeps_run (query : Option Components) (k : Nat) (test : Option Test) :
    ((access settings).run settings ctx query k test).Keeps P := by
  have collected (m : Memory) : Call.Keeps P (do
      let scored ← (access settings).collect settings ctx query test m.vectors.entries
      let ranked := (scored.mergeSort Scored.comesFirst).map Scored.hit
      return if k = 0 then ranked else ranked.take k) :=
    (keeps_collect query test _).bind fun _ => Call.keeps_pure _
  refine Call.keeps_backend.bind fun m => ?_
  cases query with
  | none => exact collected m
  | some q => exact (Call.keeps_lift _).bind fun _ => (Call.keeps_lift _).bind fun _ => collected m

theorem keeps_get (id : String) : (get ctx id).Keeps P := by
  refine (Call.keeps_check ctx).bind fun _ => Call.keeps_backend.bind fun m => ?_
  cases m.vectors.get? id with
  | none => exact Call.keeps_fail _
  | some stored => exact Call.keeps_pure _

theorem keeps_search (vector : Components) (k : Nat) (f : Option Filter) :
    (search settings ctx vector k f).Keeps P := by
  refine (Call.keeps_check ctx).bind fun _ => ?_
  cases f with
  | none => exact keeps_run _ _ _
  | some f => exact (Call.keeps_lift _).bind fun _ => keeps_run _ _ _

theorem keeps_query (vector : Components) (k : Nat) (f : Filter) :
    (query settings ctx vector k f).Keeps P :=
  (Call.keeps_check ctx).bind fun _ => (Call.keeps_lift _).bind fun _ => keeps_run _ _ _

theorem keeps_filter (f : Filter) (limit : Nat) : (filter settings ctx f limit).Keeps P := by
  refine (Call.keeps_check ctx).bind fun _ => ?_
  split
  · exact (Call.keeps_lift _).bind fun _ => keeps_run _ _ _
  · exact Call.keeps_fail _

theorem keeps_list (limit : Nat) : (list ctx limit).Keeps P :=
  (Call.keeps_check ctx).bind fun _ => Call.keeps_backend.bind fun _ => Call.keeps_pure _

theorem keeps_has (id : String) : (has ctx id).Keeps P :=
  (Call.keeps_check ctx).bind fun _ => Call.keeps_backend.bind fun _ => Call.keeps_pure _

end

/-! ### Operations -/

section

variable {κ : Type} {R : Memory → κ → Prop} {enter : κ → Entry → κ} {leave : κ → String → κ}

/-- An index stays with a reference when an entry that passes the check is put in, and when one is
dropped. -/
structure Tracks (R : Memory → κ → Prop) (enter : κ → Entry → κ) (leave : κ → String → κ) : Prop where
  insert : ∀ m k entry, checkVector m.dimension entry.vector = .ok () → R m k →
    R (m.insert entry) (enter k entry)
  erase : ∀ m k id, R m k → R (m.erase id) (leave k id)

/-- A batch that passes the check may be put in entry by entry. -/
theorem Tracks.foldl_insert (h : Tracks R enter leave) {k : κ} {entries : List Entry}
    (checked : checkBatch m.dimension entries = .ok ()) (related : R m k) :
    R (entries.foldl Memory.insert m) (entries.foldl enter k) := by
  induction entries generalizing m k with
  | nil => exact related
  | cons entry rest ih =>
      rw [checkBatch_cons] at checked
      obtain ⟨_, first, others⟩ := Fallible.bind_eq_ok_iff.1 checked
      refine ih ?_ (h.insert m k entry first related)
      rw [dimension_insert]
      exact others

theorem Tracks.foldl_erase (h : Tracks R enter leave) {k : κ} (ids : List String) (related : R m k) :
    R (ids.foldl Memory.erase m) (ids.foldl leave k) := by
  induction ids generalizing m k with
  | nil => exact related
  | cons id rest ih => exact ih (h.erase m k id related)

/-- What single changes keep, all operations keep. -/
theorem Tracks.follows (h : Tracks R enter leave) (settings : Settings) :
    Follows (Operation.call (provider settings)) (Operation.move enter leave) R := by
  intro ctx op
  cases op with
  | upsert entry =>
      show Call.Moves R (upsert ctx entry) _
      rw [upsert_eq]
      exact Call.moves_changeIf fun m k _ checked => h.insert m k entry checked
  | upsertBatch entries =>
      show Call.Moves R (upsertBatch ctx entries) _
      rw [upsertBatch_eq]
      exact Call.moves_changeIf fun m k _ checked => h.foldl_insert checked
  | delete id =>
      show Call.Moves R (delete ctx id) _
      rw [delete_eq]
      exact Call.moves_changeIf fun m k _ _ => h.erase m k id
  | deleteBatch ids =>
      show Call.Moves R (deleteBatch ctx ids) _
      rw [deleteBatch_eq]
      exact Call.moves_under fun _ m k => h.foldl_erase ids
  | get id => exact Call.Moves.of_keeps fun k => keeps_get id
  | search vector n f => exact Call.Moves.of_keeps fun k => keeps_search vector n f
  | query vector n f => exact Call.Moves.of_keeps fun k => keeps_query vector n f
  | filter f limit => exact Call.Moves.of_keeps fun k => keeps_filter f limit
  | list limit => exact Call.Moves.of_keeps fun k => keeps_list limit
  | has id => exact Call.Moves.of_keeps fun k => keeps_has id

end

theorem tracks_holds : Tracks Holds Shelf.put Shelf.drop where
  insert _ _ _ checked h := by
    obtain ⟨_, _, fits⟩ := Fallible.bind_eq_ok_iff.1 checked
    exact h.insert fits
  erase _ _ id h := h.erase id

/-- An index in memory holds the shelf that its operations lead to. -/
theorem follows (settings : Settings) :
    Follows (Operation.call (provider settings)) Shelf.move Holds := by
  rw [Shelf.move_eq]
  exact tracks_holds.follows settings

/-- The shelf that a run of a fresh index leads to. -/
def shelfAfter (settings : Settings) (steps : List (Step Operation)) (s : Session Memory) : Shelf :=
  (Step.successes (Operation.call (provider settings)) steps s).foldl Shelf.move []

/-- After every run an index holds the shelf that its writes led to. -/
theorem holds_run (steps : List (Step Operation)) {s : Session Memory}
    (fresh : s.backend = initial settings) :
    (Step.run (Operation.call (provider settings)) steps s).backend.Holds
      (shelfAfter settings steps s) :=
  (follows settings).run steps (fresh ▸ holds_initial settings)

end Memory

end Depot.Vector
