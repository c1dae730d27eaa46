import Depot.Proofs.Blob.Memory
import Depot.Proofs.Dict.Lookup
import Depot.Proofs.Dict.Prefix
import Depot.Proofs.KeyValue.Listing
import Depot.Proofs.Session.History

/-!
# Listings of the blob store in memory

Every successful write says what stands under its key from then on: a put what it answered about its
object, and a delete that there is nothing. After any run a store holds just what was said last of each
key (`Holds.run`), and what is known about an object fits its key and its bytes. Reads speak of that, and
a listing is the objects whose keys start with the text, in the order of their keys (`Memory.infosFrom_eq`).
-/

namespace Depot.Blob

open KeyValue (upTo)

/-- An object as it is stored: its bytes and what is known about it. -/
abbrev Stored := List UInt8 × ObjectInfo

/-- A write of a store. -/
inductive Write
  | put (key : String) (bytes : List UInt8) (info : ObjectInfo)
  | delete (key : String)

namespace Write

/-- A write of the store in memory. Only a put has something to answer. -/
def call (ctx : Context) : Write → Call Memory (Option ObjectInfo)
  | put key bytes info => some <$> Memory.provider.put ctx key bytes info
  | delete key => (fun () => none) <$> Memory.provider.delete ctx key

/-- What a write does to a store. -/
def effect : Write → Time → Memory → Except Error (Option ObjectInfo) × Memory
  | put key bytes info, now, m =>
    (.ok (some (Memory.recorded key bytes info now)),
      ⟨m.objects.insert key (bytes, Memory.recorded key bytes info now)⟩)
  | delete key, _, m =>
    if m.objects.contains key then (.ok none, ⟨m.objects.erase key⟩) else (.error (.notFound key), m)

theorem call_eq (ctx : Context) (w : Write) : w.call ctx = Call.under ctx w.effect := by
  cases w with
  | put key bytes info =>
      show some <$> Memory.put ctx key bytes info = _
      rw [Memory.put_eq, Call.map_under]
      rfl
  | delete key =>
      show (fun () => none) <$> Memory.delete ctx key = _
      rw [Memory.delete_eq, Call.map_under]
      congr 1
      funext _ m
      rw [effect]
      cases m.objects.contains key <;> rfl

/-- What a write says of its key by its answer. -/
def told : Write → Option ObjectInfo → String × Option Stored
  | put key bytes _, answer => (key, answer.map fun info => (bytes, info))
  | delete key, _ => (key, none)

end Write

/-- What a step says of keys: nothing, unless it is a write that succeeds. -/
def stepTold (s : Session Memory) : Step Write → Notes String Stored
  | .call ctx w =>
    match (w.call ctx s).1 with
    | .ok answer => [w.told answer]
    | .error _ => []
  | .wait _ => []
  | .cancel _ => []

/-- What the writes of a run say of keys, the oldest first. -/
def told : List (Step Write) → Session Memory → Notes String Stored
  | [], _ => []
  | step :: rest, s => stepTold s step ++ told rest (step.after Write.call s)

/-- What is known about an object is its own key, its size and the mark of its bytes. -/
structure Describes (info : ObjectInfo) (key : String) (bytes : List UInt8) : Prop where
  key_eq : info.key = key
  size_eq : info.size = bytes.length
  etag_eq : info.etag = etag bytes

/-- A store holds what was said of every key last, and what is known about an object describes it. -/
structure Holds (m : Memory) (past : Notes String Stored) : Prop where
  get? : ∀ key, m.objects.get? key = past.stands (· == key) none
  describes : ∀ key object, m.objects.get? key = some object → Describes object.2 key object.1

namespace Holds

variable {m : Memory} {s : Session Memory} {past : Notes String Stored}

theorem empty : Holds {} [] where
  get? _ := rfl
  describes _ _ held := nomatch held

theorem insert (h : Holds m past) {key : String} {object : Stored}
    (describes : Describes object.2 key object.1) :
    Holds ⟨m.objects.insert key object⟩ (past ++ [(key, some object)]) where
  get? other := by rw [Dict.get?_insert, Notes.stands_concat, h.get? other]
  describes other found held := by
    rw [Dict.get?_insert] at held
    split at held
    · next same =>
        cases held
        exact same ▸ describes
    · exact h.describes other found held

theorem erase (h : Holds m past) (key : String) :
    Holds ⟨m.objects.erase key⟩ (past ++ [(key, none)]) where
  get? other := by rw [Dict.get?_erase, Notes.stands_concat, h.get? other]
  describes other found held := by
    rw [Dict.get?_erase] at held
    split at held
    · cases held
    · exact h.describes other found held

/-- A write that succeeds leaves what it says, and one that fails leaves what was there. -/
theorem effect (h : Holds m past) (w : Write) (now : Time) :
    match (w.effect now m).1 with
    | .ok answer => Holds (w.effect now m).2 (past ++ [w.told answer])
    | .error _ => Holds (w.effect now m).2 past := by
  cases w with
  | put key bytes info => exact h.insert ⟨rfl, rfl, rfl⟩
  | delete key =>
      rw [Write.effect]
      cases m.objects.contains key with
      | true => exact h.erase key
      | false => exact h

theorem call (h : Holds s.backend past) (ctx : Context) (w : Write) :
    Holds (w.call ctx s).2.backend (past ++ stepTold s (.call ctx w)) := by
  rw [stepTold, Write.call_eq]
  cases refused : s.refusal? ctx with
  | some e =>
      rw [Call.under_of_refusal _ refused, List.append_nil]
      exact h
  | none =>
      rw [Call.under_of_live _ refused]
      have left := h.effect w s.now
      dsimp only
      cases outcome : (w.effect s.now s.backend).1 with
      | error e =>
          rw [outcome] at left
          rwa [List.append_nil]
      | ok answer =>
          rw [outcome] at left
          exact left

theorem step (h : Holds s.backend past) (step : Step Write) :
    Holds (step.after Write.call s).backend (past ++ stepTold s step) := by
  cases step with
  | call ctx w => exact h.call ctx w
  | wait span => rwa [stepTold, List.append_nil]
  | cancel ctx => rwa [Step.after, (s.leads_cancel ctx).backend, stepTold, List.append_nil]

/-- After every run the store holds what its writes said last. -/
theorem run (h : Holds s.backend past) (steps : List (Step Write)) :
    Holds (Step.run Write.call steps s).backend (past ++ told steps s) := by
  induction steps generalizing s past with
  | nil => rwa [told, List.append_nil]
  | cons step rest ih =>
      rw [told, ← List.append_assoc]
      exact ih (h.step step)

end Holds

namespace Memory

variable {m : Memory} {ctx : Context} {start : String}

/-! ### Listings -/

/-- What is known about the objects whose keys start with a text, in key order. -/
def infosUnder (m : Memory) (start : String) : List ObjectInfo :=
  (m.objects.entries.filter fun e => start.toList.isPrefixOf e.1.toList).map fun e => e.2.2

/-- The walk misses no object whose key starts with the text. -/
theorem infosFrom_eq (m : Memory) (start : String) (limit : Nat) :
    m.infosFrom start limit = upTo limit (m.infosUnder start) := by
  have walked := m.objects.walk_eq_filter start (fun key => key < start)
    (fun lt before => decide_eq_true (String.lt_trans lt (of_decide_eq_true before)))
    of_decide_eq_false
  have begun : (fun e : String × Stored => start.toList.isPrefixOf e.1.toList && !decide (e.1 < start)) =
      fun e => start.toList.isPrefixOf e.1.toList := by
    funext e
    cases front : start.toList.isPrefixOf e.1.toList with
    | false => rfl
    | true =>
        have low : ¬ e.1 < start := not_lex_of_isPrefix (List.isPrefixOf_iff_prefix.1 front)
        simp [low]
  rw [infosFrom, walked, begun]
  rfl

theorem list_eq (start : String) (limit : Nat) :
    list ctx start limit = Call.reading ctx fun _ m => .ok (upTo limit (m.infosUnder start)) := by
  apply Call.check_bind_eq_reading
  intro s
  rw [← infosFrom_eq]
  rfl

theorem mem_infosUnder_iff {info : ObjectInfo} :
    info ∈ m.infosUnder start ↔
      ∃ key bytes, start.toList <+: key.toList ∧ m.objects.get? key = some (bytes, info) := by
  simp only [infosUnder, List.mem_map, List.mem_filter, List.isPrefixOf_iff_prefix, Dict.get?_eq_some_iff]
  constructor
  · rintro ⟨⟨key, bytes, _⟩, ⟨mem, front⟩, rfl⟩
    exact ⟨key, bytes, front, mem⟩
  · rintro ⟨key, bytes, front, mem⟩
    exact ⟨(key, bytes, info), ⟨mem, front⟩, rfl⟩

/-- The objects that are listed rise by the keys that are known of them. -/
theorem pairwise_infosUnder
    (describes : ∀ key object, m.objects.get? key = some object → Describes object.2 key object.1) :
    (m.infosUnder start).Pairwise fun a b => a.key < b.key := by
  have own {e : String × Stored}
      (mem : e ∈ m.objects.entries.filter fun e => start.toList.isPrefixOf e.1.toList) :
      e.2.2.key = e.1 :=
    (describes e.1 e.2 (Dict.get?_eq_some_iff.2 (List.mem_filter.1 mem).1)).key_eq
  rw [infosUnder, List.pairwise_map]
  refine (m.objects.ordered.filter _).imp_of_mem fun memA memB lt => ?_
  rwa [own memA, own memB]

/-- What a session lists under a text: all objects it has whose keys start with the text, in key order, up
to a limit. -/
structure Lists (s : Session Memory) (ctx : Context) (start : String) (infos : List ObjectInfo) : Prop where
  rising : infos.Pairwise fun a b => a.key < b.key
  mem_iff : ∀ info, info ∈ infos ↔ start.toList <+: info.key.toList ∧
    ∃ bytes, provider.get ctx info.key s = (.ok (bytes, info), s)
  list : ∀ limit, provider.list ctx start limit s = (.ok (upTo limit infos), s)

theorem get_eq_ok_iff {s : Session Memory} (live : s.refusal? ctx = none) {key : String} {object : Stored} :
    get ctx key s = (.ok object, s) ↔ s.backend.objects.get? key = some object := by
  rw [get_eq, Call.reading_of_live _ live]
  cases s.backend.objects.get? key <;> simp

theorem lists_infosUnder {s : Session Memory} (live : s.refusal? ctx = none) (start : String)
    (describes : ∀ key object, s.backend.objects.get? key = some object →
      Describes object.2 key object.1) : Lists s ctx start (s.backend.infosUnder start) where
  rising := pairwise_infosUnder describes
  mem_iff info := by
    show _ ↔ _ ∧ ∃ bytes, get ctx info.key s = _
    simp only [get_eq_ok_iff live, mem_infosUnder_iff]
    constructor
    · rintro ⟨key, bytes, front, held⟩
      obtain rfl : info.key = key := (describes key _ held).key_eq
      exact ⟨front, bytes, held⟩
    · rintro ⟨front, bytes, held⟩
      exact ⟨info.key, bytes, front, held⟩
  list limit := by
    show list ctx start limit s = _
    rw [list_eq, Call.reading_of_live _ live]

/-- What a session answers while some objects stand: reads speak of them, a put takes every object and
says what it is known by, and a delete takes an object that is there. -/
structure Shows (s : Session Memory) (ctx : Context) (standing : String → Option Stored) : Prop where
  get : ∀ key, provider.get ctx key s =
    (match standing key with
      | some object => .ok object
      | none => .error (.notFound key), s)
  has : ∀ key, provider.has ctx key s = (.ok (standing key).isSome, s)
  describes : ∀ key bytes info, standing key = some (bytes, info) → Describes info key bytes
  lists : ∀ start, ∃ infos, Lists s ctx start infos
  put : ∀ key bytes info, ∃ stored, (provider.put ctx key bytes info s).1 = .ok stored ∧
    Describes stored key bytes ∧ stored.contentType = info.contentType ∧ stored.metadata = info.metadata ∧
    stored.lastModified = some s.now
  delete : ∀ key, (provider.delete ctx key s).1 =
    if (standing key).isSome then .ok () else .error (.notFound key)

theorem shows_of_holds {s : Session Memory} {past : Notes String Stored} (h : Holds s.backend past)
    (live : s.refusal? ctx = none) : Shows s ctx fun key => past.stands (· == key) none where
  get key := by
    show get ctx key s = _
    rw [get_eq, Call.reading_of_live _ live, h.get? key]
    rfl
  has key := by
    show has ctx key s = _
    rw [has_eq, Call.reading_of_live _ live, Dict.contains, h.get? key]
  describes key bytes info standing := h.describes key (bytes, info) ((h.get? key).trans standing)
  lists start := ⟨_, lists_infosUnder live start h.describes⟩
  put key bytes info := by
    refine ⟨recorded key bytes info s.now, ?_, ⟨rfl, rfl, rfl⟩, rfl, rfl, rfl⟩
    show (put ctx key bytes info s).1 = _
    rw [put_eq, Call.under_of_live _ live]
  delete key := by
    show (delete ctx key s).1 = _
    rw [delete_eq, Call.under_of_live _ live, Dict.contains, h.get? key]
    cases past.stands (· == key) none <;> rfl

/-- **Listings are exact.** After every run of writes of a new store, with whatever time that passes and
whatever contexts that are cancelled in between, a get under a live context finds the bytes of the last
put of its key that succeeded with what this put answered, unless they were deleted since, and whether
something is there is told by the same. What is known about an object is its own key, its size and the
mark of its bytes. A listing is what the gets find under the keys that start with the text, all of it in
the order of the keys, up to the limit. The next put succeeds, and so does the next delete of what is
there. -/
theorem listings_exact (s : Session Memory) (new : s.backend = {}) (steps : List (Step Write))
    (ctx : Context) (live : (Step.run Write.call steps s).refusal? ctx = none) :
    Shows (Step.run Write.call steps s) ctx fun key => (told steps s).stands (· == key) none := by
  have start : Holds s.backend [] := by
    rw [new]
    exact .empty
  exact shows_of_holds (start.run steps) live

/-- Two images of which one is written again and the other deleted, and a text. -/
theorem listings_exact_rewritten :
    let ctx : Context := ⟨0, none⟩
    let steps : List (Step Write) := [.call ctx (.put "img/a" [1] { key := "a" }),
      .call ctx (.put "img/b" [2] { key := "b" }), .call ctx (.put "text" [3] { key := "" }),
      .call ctx (.delete "img/b"), .wait 7, .call ctx (.put "img/a" [4, 5] { key := "a" })]
    let s := Step.run Write.call steps { backend := {} }
    s.refusal? ctx = none ∧ ∃ infos, provider.list ctx "img/" 0 s = (.ok infos, s) ∧
      recorded "img/a" [4, 5] { key := "a" } 7 ∈ infos ∧
      ∀ info ∈ infos, info.key ≠ "img/b" ∧ info.key ≠ "text" := by
  intro ctx steps s
  have live : s.refusal? ctx = none := rfl
  have shows := listings_exact { backend := {} } rfl steps ctx live
  obtain ⟨infos, lists⟩ := shows.lists "img/"
  refine ⟨live, infos, lists.list 0, ?_, fun info mem => ⟨fun same => ?_, fun same => ?_⟩⟩
  · exact (lists.mem_iff _).2 ⟨by decide, [4, 5], shows.get "img/a"⟩
  · obtain ⟨-, bytes, found⟩ := (lists.mem_iff info).1 mem
    rw [same, shows.get "img/b"] at found
    cases found
  · obtain ⟨front, -⟩ := (lists.mem_iff info).1 mem
    rw [same] at front
    exact absurd front (by decide)

end Memory

end Depot.Blob
