import Depot.Proofs.KeyValue.Listing
import Depot.Proofs.KeyValue.Run

/-!
# A store that forgets nothing

A `Ledger` holds the last entry that was written under each key, with the moment from which on it
counts as absent. Nothing is ever purged from it: what it holds at a moment is worked out when it is
asked. The store in memory, which purges at every write, cannot be told from it
(`Memory.answers_as_ledger`).

The two agree on what is held now, and so on what is held at any later moment. Every read is a
function of that, and every write keeps the agreement.
-/

namespace Depot.KeyValue

abbrev Ledger := Dict Entry

namespace Ledger

/-- The entries that are there at a moment: those without a deadline and those before theirs. -/
def held (l : Ledger) (now : Time) : Dict Entry :=
  l.filter fun _ e => e.expiresAt.all fun deadline => now < deadline

/-- The deadline of an entry that is written now for a span. A span of zero means that there is none,
and so does a moment the clock cannot show. -/
def deadline (config : KeyValueConfig) (now span : Time) : Except Error (Option Time) :=
  if 0 < span ∧ config.ttl = false then .error .ttlNotSupported
  else if 0 < span ∧ now + span < Time.horizon then .ok (now + span)
  else .ok none

/-- The provider over a ledger: reads speak of what is held, writes put entries in and take them
out. -/
def provider (config : KeyValueConfig) : Provider Ledger where
  get ctx key := Call.reading ctx fun now l =>
    match (l.held now).get? key with
    | some e => .ok e.bytes
    | none => .error (.notFound key)
  set ctx key bytes span := Call.under ctx fun now l =>
    Call.changeIf (deadline config now span) (fun expiresAt => l.insert key ⟨bytes, expiresAt⟩) l
  delete ctx key := Call.under ctx fun now l =>
    if (l.held now).contains key then (.ok (), l.erase key) else (.error (.notFound key), l)
  has ctx key := Call.reading ctx fun now l => .ok ((l.held now).contains key)
  list ctx start limit := Call.reading ctx fun now l =>
    .ok (upTo limit ((l.held now).keysUnder start none))
  getBatch ctx keys := Call.reading ctx fun now l =>
    .ok (((l.held now).filter fun key _ => keys.contains key).map Entry.bytes)
  setBatch ctx items span := Call.under ctx fun now l =>
    Call.changeIf (deadline config now span)
      (fun expiresAt => items.entries.foldl (fun l item => l.insert item.1 ⟨item.2, expiresAt⟩) l) l
  deleteBatch ctx keys := Call.under ctx fun _ l => (.ok (), keys.foldl Dict.erase l)
  scan ctx start cursor limit := Call.reading ctx fun now l =>
    .ok (.first limit ((l.held now).keysUnder start cursor))
  count ctx start := Call.reading ctx fun now l =>
    .ok ((l.held now).keysUnder start none).length

variable {l l' : Ledger} {now later : Time}

/-- A store purges what a ledger does not count as held. -/
theorem entries_purge (m : Memory) (now : Time) : (m.purge now).entries = held m.entries now := by
  have same : (fun (_ : String) (e : Entry) => e.isLive now) =
      fun _ e => e.expiresAt.all fun deadline => now < deadline := by
    funext _ e
    rw [Entry.isLive]
    cases e.expiresAt <;> rfl
  rw [Memory.purge, held, same]

theorem deadline_eq_expiry (config : KeyValueConfig) (now span : Time) :
    deadline config now span = Memory.expiry config now span := by
  rw [deadline, Memory.expiry, Time.after?]
  rcases Nat.eq_zero_or_pos span with rfl | positive
  · rfl
  · rw [if_neg (Nat.pos_iff_ne_zero.1 positive)]
    cases config.ttl with
    | false => exact if_pos ⟨positive, rfl⟩
    | true =>
        rw [if_neg (by simp)]
        simp only [positive, true_and, if_true]
        split <;> rfl

theorem get?_held (l : Ledger) (now : Time) (key : String) :
    (l.held now).get? key =
      (l.get? key).filter fun e => e.expiresAt.all fun deadline => now < deadline :=
  Dict.get?_filter l (fun _ e => e.expiresAt.all fun deadline => now < deadline) key

theorem find?_eq_get?_held (m : Memory) (now : Time) (key : String) :
    m.find? now key = (held m.entries now).get? key := by
  rw [← entries_purge, Memory.purge, Dict.get?_filter, Memory.find?]
  cases m.entries.get? key with
  | none => rfl
  | some e => rw [Option.filter_some]

/-- What is held later depends on what is held now. -/
theorem held_held (l : Ledger) (le : now ≤ later) : held (l.held now) later = l.held later := by
  apply Dict.ext_get?
  intro key
  have found := Memory.find?_contents ⟨l⟩ le key
  rwa [find?_eq_get?_held, find?_eq_get?_held, Memory.contents, entries_purge] at found

/-- Entries put into ledgers that hold the same leave them so. -/
theorem held_insert (same : l.held now = l'.held now) (key : String) (e : Entry) :
    held (l.insert key e) now = held (l'.insert key e) now := by
  apply Dict.ext_get?
  intro other
  rw [get?_held, get?_held, Dict.get?_insert, Dict.get?_insert]
  split
  · rfl
  · rw [← get?_held, ← get?_held, same]

theorem held_foldl_insert {items : List (String × List UInt8)} (expiresAt : Option Time)
    (same : l.held now = l'.held now) :
    held (items.foldl (fun l item => l.insert item.1 ⟨item.2, expiresAt⟩) l) now =
      held (items.foldl (fun l item => l.insert item.1 ⟨item.2, expiresAt⟩) l') now := by
  induction items generalizing l l' with
  | nil => exact same
  | cons item items ih => exact ih (held_insert same item.1 _)

theorem held_erase (same : l.held now = l'.held now) (key : String) :
    held (l.erase key) now = held (l'.erase key) now := by
  apply Dict.ext_get?
  intro other
  rw [get?_held, get?_held, Dict.get?_erase, Dict.get?_erase]
  split
  · rfl
  · rw [← get?_held, ← get?_held, same]

theorem held_foldl_erase {keys : List String} (same : l.held now = l'.held now) :
    held (keys.foldl Dict.erase l) now = held (keys.foldl Dict.erase l') now := by
  induction keys generalizing l l' with
  | nil => exact same
  | cons key keys ih => exact ih (held_erase same key)

end Ledger

namespace Memory

variable {config : KeyValueConfig} {ctx : Context}

/-- A store and a ledger hold the same at a moment. -/
def Agrees (now : Time) (m : Memory) (l : Ledger) : Prop :=
  Ledger.held m.entries now = l.held now

/-- A store and a ledger that hold the same go on to do so while time passes. -/
theorem Agrees.later {now later : Time} {m : Memory} {l : Ledger} (le : now ≤ later)
    (h : Agrees now m l) : Agrees later m l := by
  rw [Agrees, ← Ledger.held_held m.entries le, ← Ledger.held_held l le]
  exact congrArg (Ledger.held · later) h

/-- A purge makes no difference. -/
theorem Agrees.purge {now : Time} {m : Memory} {l : Ledger} (h : Agrees now m l) :
    Agrees now (m.purge now) l := by
  rw [Agrees, Ledger.entries_purge, Ledger.held_held m.entries (Nat.le_refl now)]
  exact h

theorem entries_foldl_insert (items : List (String × List UInt8)) (expiresAt : Option Time)
    (m : Memory) :
    (items.foldl (fun m item => m.insert item.1 ⟨item.2, expiresAt⟩) m).entries =
      items.foldl (fun l item => l.insert item.1 ⟨item.2, expiresAt⟩) m.entries := by
  induction items generalizing m with
  | nil => rfl
  | cons item items ih => exact ih (m.insert item.1 ⟨item.2, expiresAt⟩)

theorem entries_foldl_erase (keys : List String) (m : Memory) :
    (keys.foldl erase m).entries = keys.foldl Dict.erase m.entries := by
  induction keys generalizing m with
  | nil => rfl
  | cons key keys ih => exact ih (m.erase key)

/-! ### Reads as functions of what is held -/

theorem get_eq (key : String) :
    get ctx key = Call.reading ctx fun now m =>
      match (Ledger.held m.entries now).get? key with
      | some e => .ok e.bytes
      | none => .error (.notFound key) := by
  apply Call.check_bind_eq_reading
  intro s
  rw [Call.bind_apply, Call.session_apply, ← Ledger.find?_eq_get?_held]
  dsimp only
  cases s.backend.find? s.now key <;> rfl

theorem has_eq (key : String) :
    has ctx key = Call.reading ctx fun now m =>
      .ok ((Ledger.held m.entries now).contains key) := by
  apply Call.check_bind_eq_reading
  intro s
  rw [Dict.contains, ← Ledger.find?_eq_get?_held]
  rfl

theorem list_eq (start : String) (limit : Nat) :
    list ctx start limit = Call.reading ctx fun now m =>
      .ok (upTo limit ((Ledger.held m.entries now).keysUnder start none)) := by
  apply Call.check_bind_eq_reading
  intro s
  rw [← Ledger.entries_purge, ← keysFrom_eq]
  rfl

theorem getBatch_eq (keys : List String) :
    getBatch ctx keys = Call.reading ctx fun now m =>
      .ok (((Ledger.held m.entries now).filter fun key _ => keys.contains key).map Entry.bytes) := by
  apply Call.check_bind_eq_reading
  intro s
  refine congrArg (fun entries => (Except.ok entries, s)) (Dict.ext_get? fun key => ?_)
  have found (key : String) : ((s.backend.find? s.now key).map fun e => (key, e.bytes)) =
      ((s.backend.find? s.now key).map Entry.bytes).map fun bytes => (key, bytes) := by
    rw [Option.map_map]
    rfl
  simp only [found]
  rw [Dict.get?_ofList_filterMap (fun key => (s.backend.find? s.now key).map Entry.bytes),
    Dict.get?_map, Dict.get?_filter, Ledger.find?_eq_get?_held]
  cases (Ledger.held s.backend.entries s.now).get? key <;> simp [Option.filter_some]

theorem scan_eq (start : String) (cursor : Option String) (limit : Nat) :
    scan ctx start cursor limit = Call.reading ctx fun now m =>
      .ok (.first limit ((Ledger.held m.entries now).keysUnder start cursor)) := by
  apply Call.check_bind_eq_reading
  intro s
  rw [← Page.cut_fetched, ← Ledger.entries_purge, ← keysFrom_eq]
  rfl

theorem count_eq (start : String) :
    count ctx start = Call.reading ctx fun now m =>
      .ok ((Ledger.held m.entries now).keysUnder start none).length := by
  apply Call.check_bind_eq_reading
  intro s
  have keys := keysFrom_eq s.backend s.now start none 0
  rw [Ledger.entries_purge] at keys
  exact congrArg (fun keys => (Except.ok keys.length, s)) keys

/-! ### The store and the ledger -/

/-- Reads speak of what is held. -/
theorem alike_read {α : Type} (f : Dict Entry → Except Error α) :
    Call.Alike Agrees (Call.reading ctx fun now m => f (Ledger.held m.entries now))
      (Call.reading ctx fun now l => f (Ledger.held l now)) :=
  Call.alike_reading fun _ _ _ agrees => congrArg f agrees.symm

/-- Entries are put into a store that was purged and into a ledger as it is. -/
theorem alike_put (span : Time) (change : Option Time → Memory → Memory)
    (note : Option Time → Ledger → Ledger)
    (h : ∀ {now m l} expiresAt, Agrees now m l → Agrees now (change expiresAt m) (note expiresAt l)) :
    Call.Alike Agrees
      (Call.under ctx fun now m =>
        Call.changeIf (expiry config now span) (fun expiresAt => change expiresAt (m.purge now)) m)
      (Call.under ctx fun now l =>
        Call.changeIf (Ledger.deadline config now span) (fun expiresAt => note expiresAt l) l) := by
  refine Call.alike_under fun now m l agrees => ?_
  rw [Ledger.deadline_eq_expiry]
  cases expiry config now span with
  | ok expiresAt => exact ⟨rfl, h expiresAt agrees.purge⟩
  | error e => exact ⟨rfl, agrees⟩

/-- The store answers as a ledger does, call by call. -/
theorem alike_ledger (config : KeyValueConfig) :
    (provider config).Alike Agrees (Ledger.provider config) where
  get ctx key := by
    show Call.Alike _ (get ctx key) _
    rw [get_eq]
    exact alike_read fun held =>
      match held.get? key with
      | some e => .ok e.bytes
      | none => .error (.notFound key)
  set ctx key bytes span := by
    show Call.Alike _ (set config ctx key bytes span) _
    rw [set_eq]
    exact alike_put span (fun expiresAt m => m.insert key ⟨bytes, expiresAt⟩)
      (fun expiresAt l => l.insert key ⟨bytes, expiresAt⟩)
      fun expiresAt agrees => Ledger.held_insert agrees key ⟨bytes, expiresAt⟩
  delete ctx key := by
    show Call.Alike _ (delete ctx key) _
    rw [delete_eq]
    refine Call.alike_under fun now m l agrees => ?_
    have here : (m.purge now).entries.contains key = (l.held now).contains key := by
      rw [Ledger.entries_purge]
      exact congrArg (Dict.contains · key) agrees
    dsimp only
    cases found : (l.held now).contains key with
    | true =>
        rw [here, found]
        exact ⟨rfl, Ledger.held_erase agrees.purge key⟩
    | false =>
        rw [erase_purge_of_absent (here.trans found), here, found]
        exact ⟨rfl, agrees.purge⟩
  has ctx key := by
    show Call.Alike _ (has ctx key) _
    rw [has_eq]
    exact alike_read fun held => .ok (held.contains key)
  list ctx start limit := by
    show Call.Alike _ (list ctx start limit) _
    rw [list_eq]
    exact alike_read fun held => .ok (upTo limit (held.keysUnder start none))
  getBatch ctx keys := by
    show Call.Alike _ (getBatch ctx keys) _
    rw [getBatch_eq]
    exact alike_read fun held => .ok ((held.filter fun key _ => keys.contains key).map Entry.bytes)
  setBatch ctx items span := by
    show Call.Alike _ (setBatch config ctx items span) _
    rw [setBatch_eq]
    refine alike_put span
      (fun expiresAt m => items.entries.foldl (fun m item => m.insert item.1 ⟨item.2, expiresAt⟩) m)
      (fun expiresAt l => items.entries.foldl (fun l item => l.insert item.1 ⟨item.2, expiresAt⟩) l)
      fun expiresAt agrees => ?_
    rw [Agrees, entries_foldl_insert]
    exact Ledger.held_foldl_insert expiresAt agrees
  deleteBatch ctx keys := by
    show Call.Alike _ (deleteBatch ctx keys) _
    rw [deleteBatch_eq]
    refine Call.alike_under fun now m l agrees => ⟨rfl, ?_⟩
    refine Agrees.purge ?_
    rw [Agrees, entries_foldl_erase]
    exact Ledger.held_foldl_erase agrees
  scan ctx start cursor limit := by
    show Call.Alike _ (scan ctx start cursor limit) _
    rw [scan_eq]
    exact alike_read fun held => .ok (Page.first limit (held.keysUnder start cursor))
  count ctx start := by
    show Call.Alike _ (count ctx start) _
    rw [count_eq]
    exact alike_read fun held => .ok (held.keysUnder start none).length

/-- What a provider answers about the keys that start with a text: they are those that are there, in
order, and a listing, a page and a count are made of them. -/
structure Lists (p : Provider Memory) (s : Session Memory) (ctx : Context) (start : String)
    (keys : List String) : Prop where
  rising : keys.Pairwise (· < ·)
  mem_iff : ∀ key, key ∈ keys ↔ start.toList <+: key.toList ∧ p.has ctx key s = (.ok true, s)
  list : ∀ limit, p.list ctx start limit s = (.ok (upTo limit keys), s)
  scan : ∀ cursor limit, p.scan ctx start cursor limit s =
    (.ok (.first limit (keys.filter fun key => cursor.all fun c => c < key)), s)
  count : p.count ctx start s = (.ok keys.length, s)

/-- The keys that a session holds, start with a text and are behind a cursor. -/
def listed (start : String) (cursor : Option String) (s : Session Memory) : List String :=
  (Ledger.held s.backend.entries s.now).keysUnder start cursor

theorem lists_listed (config : KeyValueConfig) {s : Session Memory} {ctx : Context} (start : String)
    (live : s.refusal? ctx = none) : Lists (provider config) s ctx start (listed start none s) where
  rising := Dict.pairwise_keysUnder _ start none
  mem_iff key := by
    show _ ↔ _ ∧ has ctx key s = _
    rw [has_eq, Call.reading_of_live _ live, listed, Dict.mem_keysUnder_iff, Dict.contains]
    simp
  list limit := by
    show list ctx start limit s = _
    rw [list_eq, Call.reading_of_live _ live]
    rfl
  scan cursor limit := by
    show scan ctx start cursor limit s = _
    rw [scan_eq, Call.reading_of_live _ live, listed, Dict.filter_keysUnder]
  count := by
    show count ctx start s = _
    rw [count_eq, Call.reading_of_live _ live]
    rfl

/-- A store without expiry takes no span but zero. -/
theorem expiry_of_plain {config : KeyValueConfig} (plain : config.ttl = false) (now : Time)
    {span : Time} (positive : 0 < span) : expiry config now span = .error .ttlNotSupported := by
  rw [expiry, if_neg (Nat.pos_iff_ne_zero.1 positive), plain]
  rfl

/-- **The store is a map with expiry.** In every run it answers as a ledger does that starts out from
the same entries and never purges. Its listings, pages and counts are those of the keys that are there
and start with the text, in order. A store without expiry refuses a span that is not zero and changes
nothing, whether one entry is written or many. -/
theorem answers_as_ledger (config : KeyValueConfig) :
    (∀ steps (s : Session Memory),
      outcomes (provider config) steps s =
        outcomes (Ledger.provider config) steps (s.withBackend s.backend.entries)) ∧
    (∀ (s : Session Memory) ctx start, s.refusal? ctx = none →
      ∃ keys, Lists (provider config) s ctx start keys) ∧
    (config.ttl = false → ∀ (s : Session Memory) ctx span, 0 < span → s.refusal? ctx = none →
      (∀ key bytes, (provider config).set ctx key bytes span s = (.error .ttlNotSupported, s)) ∧
      ∀ items, (provider config).setBatch ctx items span s = (.error .ttlNotSupported, s)) := by
  refine ⟨fun steps s => ?_, fun s ctx start live => ⟨_, lists_listed config start live⟩, ?_⟩
  · exact (alike_ledger config).outcomes Agrees.later steps rfl
  · intro plain s ctx span positive live
    have refused := expiry_of_plain plain s.now positive
    constructor
    · intro key bytes
      show set config ctx key bytes span s = _
      rw [set_eq, Call.under_of_live _ live, refused]
      rfl
    · intro items
      show setBatch config ctx items span s = _
      rw [setBatch_eq, Call.under_of_live _ live, refused]
      rfl

/-- A store without expiry, in which an entry from other days has expired. -/
theorem answers_as_ledger_expired :
    let entries : Dict Entry := .ofList [("a/1", ⟨[1], none⟩), ("a/2", ⟨[2], some 5⟩)]
    let s : Session Memory := ⟨⟨entries⟩, 5, [], [], []⟩
    let ctx : Context := { signal := 0 }
    let p := provider { ttl := false }
    let steps := [Step.call ctx (.delete "a/2"), .call ctx (.list "a/" 0)]
    s.refusal? ctx = none ∧
      outcomes p steps s = outcomes (Ledger.provider { ttl := false }) steps (s.withBackend entries) ∧
      (∃ keys, p.list ctx "a/" 0 s = (.ok keys, s) ∧ "a/1" ∈ keys ∧ "a/2" ∉ keys) ∧
      p.set ctx "a/3" [3] 1 s = (.error .ttlNotSupported, s) := by
  intro entries s ctx p steps
  have live : s.refusal? ctx = none := rfl
  obtain ⟨alike, listing, refusing⟩ := answers_as_ledger { ttl := false }
  obtain ⟨keys, lists⟩ := listing s ctx "a/" live
  refine ⟨live, alike steps s, ⟨keys, lists.list 0, ?_, ?_⟩,
    (refusing rfl s ctx 1 (by decide) live).1 _ _⟩
  · exact (lists.mem_iff "a/1").2 ⟨by decide, rfl⟩
  · intro found
    have there := ((lists.mem_iff "a/2").1 found).2
    cases there

end Memory

end Depot.KeyValue
