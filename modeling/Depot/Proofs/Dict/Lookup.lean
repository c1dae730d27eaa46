import Depot.Dict

/-!
# Dictionaries as functions of their keys

An ordered list has one entry a key, so what `get?` finds under a key is exactly the entry of that
key (`get?_eq_some_iff`), and a dictionary is determined by what it holds under every key
(`ext_get?`). With that, putting entries in one after the other can be read key by key:
`get?_foldl_insert` for a dictionary that is written over, `get?_ofList` for one that is made anew.
-/

namespace Depot

universe u v

namespace Entries

variable {α : Type u}

theorem lookup_eq_none_of_lt {key : String} {entries : Entries α}
    (h : ∀ e ∈ entries, key < e.1) : entries.lookup key = none := by
  induction entries with
  | nil => rfl
  | cons head rest ih =>
      obtain ⟨k, x⟩ := head
      have hk : key < k := h (k, x) (by simp)
      have hne : key ≠ k := fun eq => String.lt_irrefl _ (eq ▸ hk)
      rw [lookup_cons, if_neg hne, ih fun e he => h e (by simp [he])]

/-- Nothing is found under a key before the first one. -/
theorem Ordered.lookup_eq_none_of_lt {key k : String} {x : α} {rest : Entries α}
    (h : Ordered ((k, x) :: rest)) (lt : key < k) : List.lookup key ((k, x) :: rest) = none := by
  apply Entries.lookup_eq_none_of_lt
  intro e he
  rcases List.mem_cons.1 he with rfl | he
  · exact lt
  · exact String.lt_trans lt ((List.pairwise_cons.1 h).1 e he)

theorem mem_of_lookup {key : String} {value : α} {entries : Entries α}
    (h : entries.lookup key = some value) : (key, value) ∈ entries := by
  induction entries with
  | nil => simp at h
  | cons head rest ih =>
      obtain ⟨k, x⟩ := head
      rw [lookup_cons] at h
      split at h
      · next same =>
          subst same
          simp_all
      · exact List.mem_cons_of_mem _ (ih h)

theorem lookup_of_mem_of_nodup {key : String} {value : α} {entries : Entries α}
    (nodup : (entries.map Prod.fst).Nodup) (h : (key, value) ∈ entries) :
    entries.lookup key = some value := by
  induction entries with
  | nil => simp at h
  | cons head rest ih =>
      obtain ⟨k, x⟩ := head
      rw [List.map_cons, List.nodup_cons] at nodup
      rw [lookup_cons]
      rcases List.mem_cons.1 h with same | later
      · cases same
        simp
      · have : key ≠ k := by
          rintro rfl
          exact nodup.1 (List.mem_map.2 ⟨_, later, rfl⟩)
        rw [if_neg this, ih nodup.2 later]

theorem Ordered.nodup {entries : Entries α} (h : Ordered entries) :
    (entries.map Prod.fst).Nodup := by
  rw [List.Nodup, List.pairwise_map]
  refine List.Pairwise.imp (fun {a b} lt eq => ?_) h
  exact String.lt_irrefl b.1 (eq ▸ lt)

/-- Entries that are changed under their keys are found changed. -/
theorem lookup_map (f : String × α → β) (entries : Entries α) (key : String) :
    (entries.map fun e => (e.1, f e)).lookup key = (entries.lookup key).map fun v => f (key, v) := by
  induction entries with
  | nil => rfl
  | cons head rest ih =>
      obtain ⟨k, x⟩ := head
      rw [List.map_cons, lookup_cons, lookup_cons, ih]
      split
      · next same =>
          subst same
          rfl
      · rfl

/-- Ordered lists under whose keys the same is found are equal. -/
theorem Ordered.ext {as bs : Entries α} (ha : Ordered as) (hb : Ordered bs)
    (h : ∀ key, as.lookup key = bs.lookup key) : as = bs := by
  induction as generalizing bs with
  | nil =>
      cases bs with
      | nil => rfl
      | cons b bs =>
          obtain ⟨l, y⟩ := b
          have := h l
          simp at this
  | cons a as ih =>
      obtain ⟨k, x⟩ := a
      cases bs with
      | nil =>
          have := h k
          simp at this
      | cons b bs =>
          obtain ⟨l, y⟩ := b
          have same : k = l := by
            rcases Std.lt_trichotomy k l with lt | eq | gt
            · have := h k
              rw [hb.lookup_eq_none_of_lt lt] at this
              simp at this
            · exact eq
            · have := h l
              rw [ha.lookup_eq_none_of_lt gt] at this
              simp at this
          subst same
          have value : x = y := by
            have := h k
            simpa using this
          subst value
          have ha' := List.pairwise_cons.1 ha
          have hb' := List.pairwise_cons.1 hb
          have rest : as = bs := by
            apply ih ha'.2 hb'.2
            intro key
            by_cases hk : key = k
            · subst hk
              rw [Entries.lookup_eq_none_of_lt ha'.1, Entries.lookup_eq_none_of_lt hb'.1]
            · have := h key
              rwa [lookup_cons, lookup_cons, if_neg hk, if_neg hk] at this
          rw [rest]

end Entries

namespace Dict

variable {α : Type u} {β : Type v}

theorem get?_eq_some_iff {d : Dict α} {key : String} {value : α} :
    d.get? key = some value ↔ (key, value) ∈ d.entries :=
  ⟨Entries.mem_of_lookup, Entries.lookup_of_mem_of_nodup d.ordered.nodup⟩

theorem mem_keys_iff {d : Dict α} {key : String} : key ∈ d.keys ↔ (d.get? key).isSome := by
  rw [keys, List.mem_map, Option.isSome_iff_exists]
  constructor
  · rintro ⟨⟨k, a⟩, mem, rfl⟩
    exact ⟨a, get?_eq_some_iff.2 mem⟩
  · rintro ⟨a, held⟩
    exact ⟨(key, a), get?_eq_some_iff.1 held, rfl⟩

/-- A dictionary is what it holds under every key. -/
theorem ext_get? {d e : Dict α} (h : ∀ key, d.get? key = e.get? key) : d = e :=
  ext (d.ordered.ext e.ordered h)

/-- Putting back what is there changes nothing. -/
theorem insert_of_get? {d : Dict α} {key : String} {value : α} (h : d.get? key = some value) :
    d.insert key value = d := by
  apply ext_get?
  intro other
  rw [get?_insert]
  split
  · next same => rw [same, h]
  · rfl

theorem get?_erase (d : Dict α) (key other : String) :
    (d.erase key).get? other = if other = key then none else d.get? other := by
  split
  · next h =>
      subst h
      exact get?_erase_self d other
  · next h => exact get?_erase_of_ne d h

theorem get?_erase_eq_none {d : Dict α} {key : String} (absent : d.get? key = none) (other : String) :
    (d.erase other).get? key = none := by
  rw [get?_erase, absent, ite_self]

/-- Dropping what is not there changes nothing. -/
theorem erase_of_get? {d : Dict α} {key : String} (h : d.get? key = none) : d.erase key = d := by
  apply ext_get?
  intro other
  rw [get?_erase]
  split
  · next same => rw [same, h]
  · rfl

theorem get?_filter (d : Dict α) (keep : String → α → Bool) (key : String) :
    (d.filter keep).get? key = (d.get? key).filter (keep key) := by
  cases found : (d.filter keep).get? key with
  | some value =>
      have mem := List.mem_filter.1 (get?_eq_some_iff.1 found)
      rw [get?_eq_some_iff.2 mem.1, Option.filter_some, if_pos mem.2]
  | none =>
      cases held : d.get? key with
      | none => rfl
      | some value =>
          rw [Option.filter_some]
          split
          · next kept =>
              have mem : (key, value) ∈ (d.filter keep).entries :=
                List.mem_filter.2 ⟨get?_eq_some_iff.1 held, kept⟩
              rw [get?_eq_some_iff.2 mem] at found
              cases found
          · rfl

theorem filter_filter_self (d : Dict α) (keep : String → α → Bool) :
    (d.filter keep).filter keep = d.filter keep := by
  apply ext
  show (d.entries.filter fun e => keep e.1 e.2).filter (fun e => keep e.1 e.2) = _
  rw [List.filter_filter]
  simp only [Bool.and_self]
  rfl

/-- Values under different keys may be put in one way round or the other. -/
theorem insert_comm (d : Dict α) {key other : String} (ne : key ≠ other) (value otherValue : α) :
    (d.insert key value).insert other otherValue = (d.insert other otherValue).insert key value := by
  apply ext_get?
  intro k
  rw [get?_insert, get?_insert, get?_insert, get?_insert]
  by_cases first : k = key
  · subst first
    rw [if_neg ne, if_pos rfl, if_pos rfl]
  · rw [if_neg first, if_neg first]

/-- What is kept may be put in before or after the others are left out. -/
theorem filter_insert (d : Dict α) {keep : String → α → Bool} {key : String} {value : α}
    (kept : keep key value = true) :
    (d.insert key value).filter keep = (d.filter keep).insert key value := by
  apply ext_get?
  intro other
  rw [get?_filter, get?_insert, get?_insert, get?_filter]
  split
  · next same => rw [same, Option.filter_some, if_pos kept]
  · rfl

theorem filter_erase (d : Dict α) (keep : String → α → Bool) (key : String) :
    (d.erase key).filter keep = (d.filter keep).erase key := by
  apply ext_get?
  intro other
  rw [get?_filter, get?_erase, get?_erase, get?_filter]
  split <;> rfl

/-- Entries with distinct keys, each turned into a value and put in, stand under their keys; under
the other keys nothing changes. -/
theorem get?_foldl_insert (f : String → β → α) {entries : Entries β}
    (nodup : (entries.map Prod.fst).Nodup) (d : Dict α) (key : String) :
    (entries.foldl (fun d e => d.insert e.1 (f e.1 e.2)) d).get? key =
      match entries.lookup key with
      | some value => some (f key value)
      | none => d.get? key := by
  induction entries generalizing d with
  | nil => rfl
  | cons head rest ih =>
      obtain ⟨k, x⟩ := head
      rw [List.map_cons, List.nodup_cons] at nodup
      rw [List.foldl_cons, ih nodup.2, Entries.lookup_cons, get?_insert]
      by_cases hk : key = k
      · subst hk
        have absent : rest.lookup key = none := by
          cases found : rest.lookup key with
          | none => rfl
          | some y => exact absurd (List.mem_map_of_mem (Entries.mem_of_lookup found)) nodup.1
        simp [absent]
      · simp [hk]

/-- Entries are arranged by putting them in one after the other. -/
theorem ofList_eq_foldl (entries : Entries α) :
    ofList entries = entries.foldl (fun d e => d.insert e.1 e.2) empty := by
  have folded (es : Entries α) (d : Dict α) :
      es.foldl (fun sorted e => Entries.insert e.1 e.2 sorted) d.entries =
        (es.foldl (fun d e => d.insert e.1 e.2) d).entries := by
    induction es generalizing d with
    | nil => rfl
    | cons e es ih => exact ih (d.insert e.1 e.2)
  exact ext (folded entries empty)

/-- A dictionary of entries with distinct keys holds these entries. -/
theorem get?_ofList {entries : Entries α} (nodup : (entries.map Prod.fst).Nodup) (key : String) :
    (ofList entries).get? key = entries.lookup key := by
  rw [ofList_eq_foldl, get?_foldl_insert (fun _ value => value) nodup]
  cases entries.lookup key <;> rfl

/-- A key that no entry has is not in the dictionary of the entries. -/
theorem get?_ofList_of_ne {entries : Entries α} {key : String} (h : ∀ e ∈ entries, e.1 ≠ key) :
    (ofList entries).get? key = none := by
  have folded (d : Dict α) :
      (entries.foldl (fun d e => d.insert e.1 e.2) d).get? key = d.get? key := by
    induction entries generalizing d with
    | nil => rfl
    | cons e rest ih =>
        rw [List.forall_mem_cons] at h
        rw [List.foldl_cons, ih h.2, get?_insert_of_ne d (Ne.symm h.1)]
  rw [ofList_eq_foldl, folded, get?_empty]

/-- A dictionary of what a function finds under some keys. -/
theorem get?_ofList_filterMap (find? : String → Option α) (keys : List String) (key : String) :
    (ofList (keys.filterMap fun key => (find? key).map fun a => (key, a))).get? key =
      if key ∈ keys then find? key else none := by
  have folded (keys : List String) (d : Dict α) :
      ((keys.filterMap fun key => (find? key).map fun a => (key, a)).foldl
        (fun d e => d.insert e.1 e.2) d).get? key =
        if key ∈ keys ∧ (find? key).isSome then find? key else d.get? key := by
    induction keys generalizing d with
    | nil => simp
    | cons k keys ih =>
        rw [List.filterMap_cons]
        cases found : find? k with
        | none =>
            rw [Option.map_none]
            dsimp only
            rw [ih]
            by_cases same : key = k
            · simp [same, found]
            · simp [same]
        | some a =>
            rw [Option.map_some]
            dsimp only
            rw [List.foldl_cons, ih, get?_insert]
            by_cases same : key = k
            · simp [same, found]
            · simp [same]
  rw [ofList_eq_foldl, folded, get?_empty]
  cases find? key <;> simp

theorem get?_map (d : Dict α) (f : α → β) (key : String) :
    (d.map f).get? key = (d.get? key).map f :=
  Entries.lookup_map (fun e => f e.2) d.entries key

end Dict

end Depot
