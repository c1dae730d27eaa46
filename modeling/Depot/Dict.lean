/-!
# Ordered dictionaries

A `Dict α` holds values under text keys, its entries listed by rising key. The order of keys is the
order of their code points, which is also the order of their UTF-8 bytes. The list alone determines
the dictionary, so two dictionaries with the same entries are equal (`Dict.ext`), and every listing
of a dictionary comes out in key order without sorting.

The operations on the bare list are kept apart in `Entries`, because a value tree holds its members
as a list of pairs.
-/

namespace Depot

universe u v

abbrev Entries (α : Type u) := List (String × α)

namespace Entries

variable {α : Type u} {β : Type v}

/-- Keys rise strictly along the list. -/
def Ordered (entries : Entries α) : Prop :=
  entries.Pairwise fun a b => a.1 < b.1

/-- Puts a value under a key, in place of the value that is there. -/
def insert (key : String) (value : α) : Entries α → Entries α
  | [] => [(key, value)]
  | (k, x) :: rest =>
    if key < k then (key, value) :: (k, x) :: rest
    else if key = k then (key, value) :: rest
    else (k, x) :: insert key value rest

def erase (key : String) (entries : Entries α) : Entries α :=
  entries.filter fun e => e.1 != key

/-- The entries put in one after the other; the last value of a key stays. -/
def arrange (entries : Entries α) : Entries α :=
  entries.foldl (fun sorted e => insert e.1 e.2 sorted) []

@[simp] theorem insert_nil (key : String) (value : α) : insert key value [] = [(key, value)] := rfl

theorem mem_insert {key : String} {value : α} {entries : Entries α} {e : String × α}
    (h : e ∈ insert key value entries) : e = (key, value) ∨ e ∈ entries := by
  induction entries with
  | nil => simpa using h
  | cons head rest ih =>
    obtain ⟨k, x⟩ := head
    rw [insert] at h
    split at h
    · simpa using h
    · split at h <;> grind

theorem Ordered.insert {entries : Entries α} (h : Ordered entries) (key : String) (value : α) :
    Ordered (insert key value entries) := by
  induction entries with
  | nil => simp [Ordered]
  | cons head rest ih =>
    obtain ⟨k, x⟩ := head
    have hrest := List.pairwise_cons.1 h
    rw [Entries.insert]
    split
    · next below =>
      refine List.pairwise_cons.2 ⟨fun e he => ?_, h⟩
      rcases List.mem_cons.1 he with rfl | he
      · exact below
      · exact String.lt_trans below (hrest.1 e he)
    · split
      · next same => subst same; exact List.pairwise_cons.2 ⟨hrest.1, hrest.2⟩
      · next notBelow notSame =>
        refine List.pairwise_cons.2 ⟨fun e he => ?_, ih hrest.2⟩
        rcases mem_insert he with rfl | he
        · rcases Std.lt_trichotomy key k with lt | eq | gt
          · exact absurd lt notBelow
          · exact absurd eq notSame
          · exact gt
        · exact hrest.1 e he

theorem Ordered.erase {entries : Entries α} (h : Ordered entries) (key : String) :
    Ordered (erase key entries) :=
  List.Pairwise.filter _ h

theorem ordered_foldl_insert (entries : Entries α) {sorted : Entries α} (h : Ordered sorted) :
    Ordered (entries.foldl (fun acc e => insert e.1 e.2 acc) sorted) := by
  induction entries generalizing sorted with
  | nil => exact h
  | cons e rest ih => exact ih (h.insert e.1 e.2)

theorem ordered_arrange (entries : Entries α) : Ordered (arrange entries) :=
  ordered_foldl_insert entries List.Pairwise.nil

theorem lookup_cons (key k : String) (x : α) (rest : Entries α) :
    List.lookup key ((k, x) :: rest) = if key = k then some x else List.lookup key rest := by
  by_cases h : key = k
  · simp [h]
  · have hb : (key == k) = false := by simpa using h
    simp [List.lookup_cons, h, hb]

theorem lookup_insert_self (key : String) (value : α) (entries : Entries α) :
    (insert key value entries).lookup key = some value := by
  induction entries with
  | nil => simp
  | cons head rest ih =>
    obtain ⟨k, x⟩ := head
    rw [insert]
    split
    · simp
    · split
      · simp
      · next notSame => simp [lookup_cons, notSame, ih]

theorem lookup_insert_of_ne {key other : String} (h : other ≠ key) (value : α) (entries : Entries α) :
    (insert key value entries).lookup other = entries.lookup other := by
  induction entries with
  | nil => simp [lookup_cons, h]
  | cons head rest ih =>
    obtain ⟨k, x⟩ := head
    rw [insert]
    split
    · simp [lookup_cons, h]
    · split
      · next same => subst same; simp [lookup_cons, h]
      · simp [lookup_cons, ih]

theorem lookup_erase_self (key : String) (entries : Entries α) :
    (erase key entries).lookup key = none := by
  induction entries with
  | nil => rfl
  | cons head rest ih =>
    obtain ⟨k, x⟩ := head
    rw [erase] at ih
    by_cases hk : k = key
    · simp [erase, hk, ih]
    · simp [erase, hk, lookup_cons, Ne.symm hk, ih]

theorem lookup_erase_of_ne {key other : String} (h : other ≠ key) (entries : Entries α) :
    (erase key entries).lookup other = entries.lookup other := by
  induction entries with
  | nil => rfl
  | cons head rest ih =>
    obtain ⟨k, x⟩ := head
    rw [erase] at ih
    by_cases hk : k = key
    · simp [erase, hk, lookup_cons, h, ih]
    · simp [erase, hk, lookup_cons, ih]

end Entries

/-- Values under text keys, listed by rising key. -/
structure Dict (α : Type u) where
  entries : Entries α := []
  ordered : entries.Ordered := by exact List.Pairwise.nil

namespace Dict

variable {α : Type u} {β : Type v}

theorem ext {d e : Dict α} (h : d.entries = e.entries) : d = e := by
  cases d; cases e; subst h; rfl

instance [DecidableEq α] : DecidableEq (Dict α) := fun d e =>
  decidable_of_iff (d.entries = e.entries) ⟨ext, fun h => h ▸ rfl⟩

def empty : Dict α := {}

instance : Inhabited (Dict α) := ⟨empty⟩

instance : EmptyCollection (Dict α) := ⟨empty⟩

def get? (d : Dict α) (key : String) : Option α :=
  d.entries.lookup key

def contains (d : Dict α) (key : String) : Bool :=
  (d.get? key).isSome

def insert (d : Dict α) (key : String) (value : α) : Dict α :=
  ⟨d.entries.insert key value, d.ordered.insert key value⟩

def erase (d : Dict α) (key : String) : Dict α :=
  ⟨Entries.erase key d.entries, d.ordered.erase key⟩

def ofList (entries : Entries α) : Dict α :=
  ⟨entries.arrange, Entries.ordered_arrange entries⟩

def keys (d : Dict α) : List String :=
  d.entries.map Prod.fst

def values (d : Dict α) : List α :=
  d.entries.map Prod.snd

def size (d : Dict α) : Nat :=
  d.entries.length

def isEmpty (d : Dict α) : Bool :=
  d.entries.isEmpty

def filter (d : Dict α) (keep : String → α → Bool) : Dict α :=
  ⟨d.entries.filter fun e => keep e.1 e.2, List.Pairwise.filter _ d.ordered⟩

def map (d : Dict α) (f : α → β) : Dict β :=
  ⟨d.entries.map fun e => (e.1, f e.2), by
    simpa [Entries.Ordered, List.pairwise_map] using d.ordered⟩

@[simp] theorem get?_empty (key : String) : (empty : Dict α).get? key = none := rfl

@[simp] theorem get?_insert_self (d : Dict α) (key : String) (value : α) :
    (d.insert key value).get? key = some value :=
  Entries.lookup_insert_self key value d.entries

theorem get?_insert_of_ne (d : Dict α) {key other : String} (h : other ≠ key) (value : α) :
    (d.insert key value).get? other = d.get? other :=
  Entries.lookup_insert_of_ne h value d.entries

theorem get?_insert (d : Dict α) (key other : String) (value : α) :
    (d.insert key value).get? other = if other = key then some value else d.get? other := by
  split
  · next h => subst h; exact get?_insert_self d other value
  · next h => exact get?_insert_of_ne d h value

@[simp] theorem get?_erase_self (d : Dict α) (key : String) : (d.erase key).get? key = none :=
  Entries.lookup_erase_self key d.entries

theorem get?_erase_of_ne (d : Dict α) {key other : String} (h : other ≠ key) :
    (d.erase key).get? other = d.get? other :=
  Entries.lookup_erase_of_ne h d.entries

end Dict

end Depot
