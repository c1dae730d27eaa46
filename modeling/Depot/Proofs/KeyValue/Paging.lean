import Depot.Proofs.KeyValue.Ledger

/-!
# Paging through a store that changes

A walk asks for one page after the other, each behind the cursor of the one before, while anything may
be done to the store in between (`walk`). The cursor is the last key that was shown, whether it is
still there or not. So whatever has been shown is not behind the cursor, and what is behind it is
still to come: the walk repeats nothing and passes over nothing that stays
(`Memory.walk_shows_each_once`).

What asking for one page comes to is said once (`Memory.walk_cons`); each property of a walk follows
by induction over the pages, for walks from any cursor on.
-/

namespace Depot.KeyValue

/-- A page shows all of a list, or the first keys up to the cursor, which is the last of them. -/
theorem Page.first_cases {limit : Nat} (positive : 0 < limit) (keys : List String) :
    keys.length ≤ limit ∧ first limit keys = ⟨keys, none⟩ ∨
    ∃ front c rest, (front ++ [c]).length ≤ limit ∧ keys = (front ++ [c]) ++ rest ∧
      first limit keys = ⟨front ++ [c], some c⟩ := by
  have cut : upTo limit keys = keys.take limit := if_neg (Nat.pos_iff_ne_zero.1 positive)
  rw [first, cut]
  rcases Nat.lt_or_ge limit keys.length with long | short
  · have shows : keys.take limit ≠ [] := by
      rw [Ne, List.take_eq_nil_iff]
      rintro (rfl | rfl)
      · exact Nat.lt_irrefl 0 positive
      · exact Nat.not_lt_zero limit long
    have shown := List.dropLast_concat_getLast shows
    refine .inr ⟨(keys.take limit).dropLast, (keys.take limit).getLast shows, keys.drop limit,
      ?_, ?_, ?_⟩
    · rw [shown]
      exact List.length_take_le limit keys
    · rw [shown, List.take_append_drop]
    · rw [if_pos ⟨positive, long⟩, shown, List.getLast?_eq_some_getLast shows]
  · exact .inl ⟨short, by rw [if_neg (by omega), List.take_of_length_le short]⟩

/-! ### Walks -/

/-- A page that was shown, with the session in which it was asked for. -/
structure Visit (σ : Type) where
  session : Session σ
  keys : List String

/-- How a walk over pages comes to its end. -/
inductive Ending
  /-- With a page that no other follows. -/
  | complete
  | failed (e : Error)
  /-- Nobody asks for another page. -/
  | left
deriving DecidableEq

/-- A walk over pages. -/
structure Walk (σ : Type) where
  visits : List (Visit σ) := []
  ending : Ending

section

variable {σ : Type}

/-- The keys of all pages. -/
def Walk.keys (w : Walk σ) : List String := w.visits.flatMap Visit.keys

def Walk.cons (visit : Visit σ) (w : Walk σ) : Walk σ := { w with visits := visit :: w.visits }

@[simp] theorem Walk.keys_cons (visit : Visit σ) (w : Walk σ) :
    (w.cons visit).keys = visit.keys ++ w.keys := List.flatMap_cons

/-- Asks for one page after the other, each behind the cursor of the one before. Before a page is asked
for, anything may be done to the store. -/
def walk (p : Provider σ) (ctx : Context) (start : String) (limit : Nat) :
    (between : List (List Step)) → Option String → Session σ → Walk σ
  | [], _, _ => { ending := .left }
  | steps :: between, cursor, s =>
    let t := after p steps s
    match p.scan ctx start cursor limit t with
    | (.error e, _) => { ending := .failed e }
    | (.ok ⟨keys, none⟩, _) => { visits := [⟨t, keys⟩], ending := .complete }
    | (.ok ⟨keys, some c⟩, u) => (walk p ctx start limit between (some c) u).cons ⟨t, keys⟩

end

namespace Memory

variable {config : KeyValueConfig} {ctx : Context} {start : String} {limit : Nat}

theorem pairwise_listed (start : String) (cursor : Option String) (s : Session Memory) :
    (listed start cursor s).Pairwise (· < ·) :=
  Dict.pairwise_keysUnder _ start cursor

theorem mem_listed_iff {start key : String} {cursor : Option String} {s : Session Memory} :
    key ∈ listed start cursor s ↔ key ∈ listed start none s ∧ ∀ c ∈ cursor, c < key := by
  rw [listed, listed, Dict.mem_keysUnder_iff, Dict.mem_keysUnder_iff]
  simp [and_assoc, and_comm]

theorem filter_listed (start : String) (cursor : Option String) (s : Session Memory) :
    ((listed start none s).filter fun key => cursor.all fun c => c < key) = listed start cursor s :=
  Dict.filter_keysUnder _ start cursor

/-- What asking for one page comes to: the context is dead, or all keys are shown, or the first of
them, the last of which is the next cursor. -/
theorem walk_cons (config : KeyValueConfig) (ctx : Context) (start : String) (positive : 0 < limit)
    (steps : List Step) (between : List (List Step)) (cursor : Option String) (s : Session Memory) :
    let p := provider config
    let t := after p steps s
    (∃ e, t.refusal? ctx = some e ∧
      walk p ctx start limit (steps :: between) cursor s = { ending := .failed e }) ∨
    ((listed start cursor t).length ≤ limit ∧
      walk p ctx start limit (steps :: between) cursor s =
        { visits := [⟨t, listed start cursor t⟩], ending := .complete }) ∨
    ∃ front c rest, (front ++ [c]).length ≤ limit ∧ listed start cursor t = (front ++ [c]) ++ rest ∧
      walk p ctx start limit (steps :: between) cursor s =
        (walk p ctx start limit between (some c) t).cons ⟨t, front ++ [c]⟩ := by
  intro p t
  cases refused : t.refusal? ctx with
  | some e =>
      have scanned : scan ctx start cursor limit t = (.error e, t) := by
        rw [scan_eq, Call.reading_of_refusal _ refused]
      replace scanned : p.scan ctx start cursor limit t = (.error e, t) := scanned
      refine .inl ⟨e, rfl, ?_⟩
      simp only [walk, t, scanned]
  | none =>
      have scanned : p.scan ctx start cursor limit t = _ :=
        (lists_listed config start refused).scan cursor limit
      rw [filter_listed] at scanned
      rcases Page.first_cases positive (listed start cursor t) with
        ⟨short, page⟩ | ⟨front, c, rest, short, split, page⟩
      · rw [page] at scanned
        refine .inr (.inl ⟨short, ?_⟩)
        simp only [walk, t, scanned]
      · rw [page] at scanned
        refine .inr (.inr ⟨front, c, rest, short, split, ?_⟩)
        simp only [walk, t, scanned]

/-- A key of a listing is a cursor for what comes after it. -/
theorem listed_some {start c : String} {cursor : Option String} {s : Session Memory}
    (mem : c ∈ listed start cursor s) :
    listed start (some c) s = (listed start cursor s).filter fun key => c < key := by
  have next := (mem_listed_iff.1 mem).2
  rw [← filter_listed, ← filter_listed start cursor, List.filter_filter]
  apply List.filter_congr
  intro key _
  rw [Option.all_some]
  cases beyond : decide (c < key) with
  | false => rfl
  | true =>
      cases cursor with
      | none => rfl
      | some d => exact (decide_eq_true (String.lt_trans (next d rfl) (of_decide_eq_true beyond))).symm

/-- A page goes up to its last key, and what it leaves of a listing is behind that one. -/
theorem listed_behind_page {start : String} {cursor : Option String} {s : Session Memory}
    {front rest : List String} {c : String} (split : listed start cursor s = (front ++ [c]) ++ rest) :
    (∀ key ∈ front ++ [c], key ≤ c) ∧ listed start (some c) s = rest := by
  have ordered := pairwise_listed start cursor s
  rw [split] at ordered
  obtain ⟨shown, _, across⟩ := List.pairwise_append.1 ordered
  have below (key : String) (mem : key ∈ front ++ [c]) : key ≤ c := by
    rcases List.mem_append.1 mem with mem | mem
    · exact Std.le_of_lt ((List.pairwise_append.1 shown).2.2 key mem c (List.mem_singleton.2 rfl))
    · exact Std.le_of_eq (List.mem_singleton.1 mem)
  refine ⟨below, ?_⟩
  have last : c ∈ listed start cursor s := by simp [split]
  rw [listed_some last, split, List.filter_append,
    List.filter_eq_nil_iff.2, List.filter_eq_self.2, List.nil_append]
  · exact fun key mem => decide_eq_true (across c (by simp) key mem)
  · exact fun key mem beyond => Std.not_lt.2 (below key mem) (of_decide_eq_true beyond)

variable (between : List (List Step)) (cursor : Option String) (s : Session Memory)

/-- The keys of a walk rise, and all of them are behind the cursor it starts from. -/
theorem rising_walk (positive : 0 < limit) :
    (walk (provider config) ctx start limit between cursor s).keys.Pairwise (· < ·) ∧
      ∀ key ∈ (walk (provider config) ctx start limit between cursor s).keys,
        ∀ c ∈ cursor, c < key := by
  induction between generalizing cursor s with
  | nil => simp [walk, Walk.keys]
  | cons steps between ih =>
      have ordered := pairwise_listed start cursor (after (provider config) steps s)
      have behind (key : String) (mem : key ∈ listed start cursor (after (provider config) steps s)) :
          ∀ c ∈ cursor, c < key := (Dict.mem_keysUnder_iff.1 mem).2.1
      rcases walk_cons config ctx start positive steps between cursor s with
        ⟨e, _, ended⟩ | ⟨_, ended⟩ | ⟨front, c, rest, _, split, goes⟩
      · rw [ended]
        simp [Walk.keys]
      · rw [ended, Walk.keys, List.flatMap_singleton]
        exact ⟨ordered, behind⟩
      · have below := (listed_behind_page split).1
        obtain ⟨rising, beyond⟩ := ih (some c) (after (provider config) steps s)
        rw [goes, Walk.keys_cons]
        rw [split] at ordered behind
        constructor
        · refine List.pairwise_append.2 ⟨(List.pairwise_append.1 ordered).1, rising, ?_⟩
          intro a shown b later
          exact Std.lt_of_le_of_lt (below a shown) (beyond b later c rfl)
        · intro key mem d isCursor
          have next := behind c (by simp) d isCursor
          rcases List.mem_append.1 mem with shown | later
          · exact behind key (List.mem_append_left rest shown) d isCursor
          · exact String.lt_trans next (beyond key later c rfl)

/-- A page holds no more keys than it may, all of them listed when it is asked for. -/
theorem visits_walk (positive : 0 < limit) :
    ∀ visit ∈ (walk (provider config) ctx start limit between cursor s).visits,
      visit.keys.length ≤ limit ∧ ∀ key ∈ visit.keys, key ∈ listed start none visit.session := by
  induction between generalizing cursor s with
  | nil => simp [walk]
  | cons steps between ih =>
      rcases walk_cons config ctx start positive steps between cursor s with
        ⟨e, _, ended⟩ | ⟨short, ended⟩ | ⟨front, c, rest, short, split, goes⟩
      · rw [ended]
        simp
      · rw [ended]
        intro visit mem
        rw [List.mem_singleton.1 mem]
        exact ⟨short, fun key shown => (mem_listed_iff.1 shown).1⟩
      · rw [goes]
        intro visit mem
        rcases List.mem_cons.1 mem with rfl | mem
        · refine ⟨short, fun key shown => ?_⟩
          have mem := List.mem_append_left rest shown
          rw [← split] at mem
          exact (mem_listed_iff.1 mem).1
        · exact ih _ _ visit mem

/-- A walk to the end shows every key behind its cursor that is there whenever a page is asked for. -/
theorem mem_keys_walk (positive : 0 < limit)
    (complete : (walk (provider config) ctx start limit between cursor s).ending = .complete)
    {key : String} (behind : ∀ c ∈ cursor, c < key)
    (there : ∀ visit ∈ (walk (provider config) ctx start limit between cursor s).visits,
      key ∈ listed start none visit.session) :
    key ∈ (walk (provider config) ctx start limit between cursor s).keys := by
  induction between generalizing cursor s with
  | nil => simp [walk] at complete
  | cons steps between ih =>
      rcases walk_cons config ctx start positive steps between cursor s with
        ⟨e, _, ended⟩ | ⟨_, ended⟩ | ⟨front, c, rest, _, split, goes⟩
      · rw [ended] at complete
        cases complete
      · rw [ended] at there ⊢
        have mem := mem_listed_iff.2 ⟨there _ (List.mem_singleton.2 rfl), behind⟩
        simpa [Walk.keys] using mem
      · rw [goes] at there complete ⊢
        rw [Walk.keys_cons, List.mem_append]
        have mem := mem_listed_iff.2 ⟨there _ List.mem_cons_self, behind⟩
        rcases List.mem_append.1 (split ▸ mem) with shown | left
        · exact .inl shown
        · rw [← (listed_behind_page split).2, mem_listed_iff] at left
          exact .inr (ih _ _ complete left.2 fun visit later =>
            there visit (List.mem_cons_of_mem _ later))

/-- If the listing is the same whenever a page is asked for, a walk to the end shows all of it that is
behind the cursor, and it comes to its end unless the context dies. -/
theorem keys_walk_of_steady (positive : 0 < limit) {keys : List String}
    (steady : ∀ visit ∈ (walk (provider config) ctx start limit between cursor s).visits,
      listed start none visit.session = keys) :
    ((walk (provider config) ctx start limit between cursor s).ending = .complete →
      (walk (provider config) ctx start limit between cursor s).keys =
        keys.filter fun key => cursor.all fun c => c < key) ∧
    ((keys.filter fun key => cursor.all fun c => c < key).length < between.length →
      (walk (provider config) ctx start limit between cursor s).ending ≠ .left) := by
  induction between generalizing cursor s with
  | nil => simp [walk]
  | cons steps between ih =>
      rcases walk_cons config ctx start positive steps between cursor s with
        ⟨e, _, ended⟩ | ⟨_, ended⟩ | ⟨front, c, rest, _, split, goes⟩
      · rw [ended]
        exact ⟨nofun, nofun⟩
      · rw [ended] at steady ⊢
        have now := steady _ (List.mem_singleton.2 rfl)
        rw [← filter_listed, now]
        simp [Walk.keys]
      · rw [goes] at steady ⊢
        have now : listed start none (after (provider config) steps s) = keys :=
          steady _ List.mem_cons_self
        have left := (listed_behind_page split).2
        rw [← filter_listed, now] at split left
        obtain ⟨shown, ends⟩ := ih (some c) _ fun visit later =>
          steady visit (List.mem_cons_of_mem _ later)
        rw [left] at shown ends
        rw [Walk.keys_cons, split]
        constructor
        · intro complete
          rw [shown complete]
        · intro enough
          apply ends
          simp only [List.length_append, List.length_cons] at enough
          omega

/-! ### Reads between the pages -/

theorem session_call {op : Operation} (read : op.isWrite = false) (ctx : Context)
    (s : Session Memory) : (op.call (provider config) ctx s).2 = s := by
  have keeps {α : Type} {call : Call Memory α} {f : Time → Memory → Except Error α}
      (answer : α → Answer) (asks : call = Call.reading ctx f) : ((answer <$> call) s).2 = s := by
    rw [Call.map_apply, asks]
    exact Call.session_reading f s
  cases op with
  | get key => exact keeps .bytes (get_eq key)
  | has key => exact keeps .truth (has_eq key)
  | list start limit => exact keeps .keys (list_eq start limit)
  | getBatch keys => exact keeps .entries (getBatch_eq keys)
  | scan start cursor limit => exact keeps .page (scan_eq start cursor limit)
  | count start => exact keeps .count (count_eq start)
  | _ => cases read

theorem after_reads (config : KeyValueConfig) {steps : List Step}
    (reads : ∀ step ∈ steps, step.isRead = true) (s : Session Memory) :
    after (provider config) steps s = s := by
  induction steps with
  | nil => rfl
  | cons step steps ih =>
      have here := reads step List.mem_cons_self
      rw [after_cons]
      cases step with
      | call ctx op =>
          rw [Step.isRead, Bool.not_eq_true'] at here
          rw [Step.after, Step.perform, session_call here]
          exact ih fun later mem => reads later (List.mem_cons_of_mem _ mem)
      | _ => cases here

/-- With nothing but reads between the pages, every page is asked for in the same session. -/
theorem walk_of_reads (positive : 0 < limit) (live : s.refusal? ctx = none)
    (reads : ∀ steps ∈ between, ∀ step ∈ steps, step.isRead = true) :
    (∀ e, (walk (provider config) ctx start limit between cursor s).ending ≠ .failed e) ∧
      ∀ visit ∈ (walk (provider config) ctx start limit between cursor s).visits,
        visit.session = s := by
  induction between generalizing cursor with
  | nil => simp [walk]
  | cons steps between ih =>
      have same := after_reads config (reads steps List.mem_cons_self) s
      have turn := walk_cons config ctx start positive steps between cursor s
      dsimp only at turn
      rw [same] at turn
      rcases turn with ⟨e, dead, _⟩ | ⟨_, ended⟩ | ⟨front, c, rest, _, _, goes⟩
      · rw [live] at dead
        cases dead
      · rw [ended]
        simp
      · obtain ⟨unfailing, sessions⟩ :=
          ih (some c) fun steps mem => reads steps (List.mem_cons_of_mem _ mem)
        rw [goes]
        refine ⟨unfailing, fun visit mem => ?_⟩
        rcases List.mem_cons.1 mem with rfl | mem
        · rfl
        · exact sessions visit mem

/-- What a store answers is there is listed. -/
theorem mem_listed_of_has {s : Session Memory} {key : String} (front : start.toList <+: key.toList)
    (there : ((provider config).has ctx key s).1 = .ok true) : key ∈ listed start none s := by
  replace there : (has ctx key s).1 = .ok true := there
  rw [has_eq] at there
  exact Dict.mem_keysUnder_iff.2 ⟨front, nofun, Except.ok.inj (Call.reading_eq_ok there).2⟩

theorem listed_of_list {s : Session Memory} {keys : List String}
    (answer : ((provider config).list ctx start 0 s).1 = .ok keys) : listed start none s = keys := by
  replace answer : (list ctx start 0 s).1 = .ok keys := answer
  rw [list_eq] at answer
  exact Except.ok.inj (Call.reading_eq_ok answer).2

/-- **Paging neither skips nor repeats.** A walk over the pages of any state, with anything done to the
store in between, shows rising keys, in pages no longer than the limit, all of them starting with the
text. If it reaches its end, it shows every key exactly once that is there whenever a page is asked
for. As long as the listing stays the same, the pages together are the listing, and more page calls
than it has keys reach the end unless one fails; with nothing but reads in between none does. -/
theorem walk_shows_each_once (config : KeyValueConfig) (ctx : Context) (start : String) {limit : Nat}
    (positive : 0 < limit) (between : List (List Step)) (s : Session Memory) :
    let p := provider config
    let w := walk p ctx start limit between none s
    w.keys.Pairwise (· < ·) ∧
    (∀ visit ∈ w.visits,
      visit.keys.length ≤ limit ∧ ∀ key ∈ visit.keys, start.toList <+: key.toList) ∧
    (w.ending = .complete → ∀ key, start.toList <+: key.toList →
      (∀ visit ∈ w.visits, (p.has ctx key visit.session).1 = .ok true) → w.keys.count key = 1) ∧
    (∀ keys, (∀ visit ∈ w.visits, (p.list ctx start 0 visit.session).1 = .ok keys) →
      (w.ending = .complete → w.keys = keys) ∧
      (keys.length < between.length → w.ending ≠ .left)) ∧
    (s.refusal? ctx = none → (∀ steps ∈ between, ∀ step ∈ steps, step.isRead = true) →
      ∃ keys, (p.list ctx start 0 s).1 = .ok keys ∧
        (keys.length < between.length → w.ending = .complete ∧ w.keys = keys)) := by
  intro p w
  have rising : w.keys.Pairwise (· < ·) := (rising_walk between none s positive).1
  have all (keys : List String) :
      (keys.filter fun key => (none : Option String).all fun c => c < key) = keys :=
    List.filter_eq_self.2 fun _ _ => rfl
  have steady (keys : List String)
      (same : ∀ visit ∈ w.visits, (p.list ctx start 0 visit.session).1 = .ok keys) :
      (w.ending = .complete → w.keys = keys) ∧ (keys.length < between.length → w.ending ≠ .left) := by
    have shown := keys_walk_of_steady between none s positive fun visit mem =>
      listed_of_list (same visit mem)
    rwa [all] at shown
  refine ⟨rising, ?_, ?_, steady, ?_⟩
  · intro visit mem
    obtain ⟨short, shown⟩ := visits_walk between none s positive visit mem
    exact ⟨short, fun key mem => (Dict.mem_keysUnder_iff.1 (shown key mem)).1⟩
  · intro complete key front there
    have mem : key ∈ w.keys := mem_keys_walk between none s positive complete nofun fun visit mem =>
      mem_listed_of_has front (there visit mem)
    have nodup : w.keys.Nodup := by
      refine List.Pairwise.imp (fun {a b} lt same => ?_) rising
      exact String.lt_irrefl b (same ▸ lt)
    rw [nodup.count, if_pos mem]
  · intro live reads
    obtain ⟨unfailing, sessions⟩ :
        (∀ e, w.ending ≠ .failed e) ∧ ∀ visit ∈ w.visits, visit.session = s :=
      walk_of_reads between none s positive live reads
    have list : (p.list ctx start 0 s).1 = .ok (listed start none s) :=
      congrArg Prod.fst ((lists_listed config start live).list 0)
    refine ⟨listed start none s, list, fun enough => ?_⟩
    obtain ⟨shown, ends⟩ := steady (listed start none s) fun visit mem => by
      rw [sessions visit mem]
      exact list
    have complete : w.ending = .complete := by
      cases ended : w.ending with
      | complete => rfl
      | failed e => exact absurd ended (unfailing e)
      | left => exact absurd ended (ends enough)
    exact ⟨complete, shown complete⟩

/-- Between the pages of a walk the cursor is deleted, one key behind it expires and others come. -/
theorem walk_shows_each_once_meanwhile :
    let ctx : Context := { signal := 0 }
    let p := provider {}
    let s : Session Memory := ⟨⟨.ofList [("k/1", ⟨[], none⟩), ("k/2", ⟨[], none⟩),
      ("k/3", ⟨[], some 5⟩), ("k/4", ⟨[], none⟩)]⟩, 0, [], [], []⟩
    let between := [[], [.call ctx (.delete "k/2"), .wait 5, .call ctx (.set "k/0" [] 0),
      .call ctx (.set "k/5" [] 0)], []]
    let w := walk p ctx "k/" 2 between none s
    0 < 2 ∧ w.ending = .complete ∧ w.keys = ["k/1", "k/2", "k/4", "k/5"] ∧
      (∀ visit ∈ w.visits, (p.has ctx "k/4" visit.session).1 = .ok true) ∧
      w.keys.count "k/4" = 1 := by
  intro ctx p s between w
  have positive : 0 < 2 := by decide
  have complete : w.ending = .complete := by decide +kernel
  have keys : w.keys = ["k/1", "k/2", "k/4", "k/5"] := by decide +kernel
  have front : "k/".toList <+: "k/4".toList := by decide
  have there : ∀ visit ∈ w.visits, (p.has ctx "k/4" visit.session).1 = .ok true := by
    have found : (w.visits.all fun visit =>
        (p.has ctx "k/4" visit.session).1.toOption == some true) = true := by decide +kernel
    intro visit mem
    have answer := List.all_eq_true.1 found visit mem
    cases result : (p.has ctx "k/4" visit.session).1 with
    | error e => simp [result, Except.toOption] at answer
    | ok b => simpa [result, Except.toOption] using answer
  have shown := walk_shows_each_once {} ctx "k/" positive between s
  exact ⟨positive, complete, keys, there, shown.2.2.1 complete "k/4" front there⟩

end Memory

end Depot.KeyValue
