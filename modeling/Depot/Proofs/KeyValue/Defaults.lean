import Depot.Proofs.Batches

/-!
# What the store does by itself and what it could leave open

A backend that offers only what is required of it pages through a whole listing, counts one, and
deletes keys one by one. The store in memory does these three by itself: its walk begins at the cursor
and ends with the first key behind the page, and it purges once. Under a live context nobody can tell
the difference (`Memory.own_as_default`), whether the cursor is a key of the store or not, and wherever
it lies.
-/

namespace Depot.KeyValue

/-! ### Pages by default -/

theorem isBehind_eq (cursor : Option String) :
    isBehind cursor = fun key => cursor.all fun c => c < key := by
  cases cursor <;> rfl

theorem Page.cut_eq_first (limit : Nat) (keys : List String) : Page.cut limit keys = .first limit keys := by
  rw [cut, first, upTo]
  rcases Nat.eq_zero_or_pos limit with rfl | positive
  · rfl
  · have nonzero : limit ≠ 0 := Nat.pos_iff_ne_zero.1 positive
    rw [if_neg nonzero]
    rcases Nat.lt_or_ge limit keys.length with long | short
    · rw [if_neg (by omega), if_pos ⟨positive, long⟩]
    · rw [if_pos (.inr short), if_neg (by omega), List.take_of_length_le short]

section

variable {σ : Type} {ctx : Context}

theorem checkEach_of_live {α : Type} {s : Session σ} (live : s.refusal? ctx = none) (items : List α) :
    checkEach ctx items s = (.ok (), s) := by
  induction items with
  | nil => rfl
  | cons _ rest ih => rw [checkEach, Call.check_bind_of_live live, ih]

namespace Required

variable {r : Required σ} {s : Session σ}

/-- A page by default is cut from the listing behind the cursor. -/
theorem scan_of_list {start : String} {keys : List String} (live : s.refusal? ctx = none)
    (lists : r.list ctx start 0 s = (.ok keys, s)) (cursor : Option String) (limit : Nat) :
    r.scan ctx start cursor limit s =
      (.ok (.first limit (keys.filter fun key => cursor.all fun c => c < key)), s) := by
  rw [scan, Call.bind_apply, lists]
  dsimp only
  rw [Call.bind_apply, checkEach_of_live live, Page.cut_eq_first, isBehind_eq]
  rfl

theorem count_of_list {start : String} {keys : List String}
    (lists : r.list ctx start 0 s = (.ok keys, s)) : r.count ctx start s = (.ok keys.length, s) := by
  rw [count, Call.bind_apply, lists]
  rfl

/-! ### Deleting by default -/

/-- A failure is passed over if something was not found. -/
theorem deleteBatch_cons (key : String) (rest : List String) :
    r.deleteBatch ctx (key :: rest) =
      (do
        Call.check ctx
        (r.delete ctx key).lenient
        r.deleteBatch ctx rest) := by
  rw [deleteBatch]
  refine bind_congr fun _ => funext fun t => ?_
  rw [Call.bind_apply, Call.attempt_apply, Call.bind_apply, Call.lenient]
  cases (r.delete ctx key t).1 with
  | ok _ => rfl
  | error e =>
      rw [Error.overlook]
      dsimp only
      cases e.isNotFound <;> rfl

/-- Where each deletion checks the context anyway, the check before it makes no difference. -/
theorem deleteBatch_eq_forM {f : String → Time → σ → Except Error Unit × σ}
    (checks : ∀ key, r.delete ctx key = Call.under ctx (f key)) (keys : List String) :
    r.deleteBatch ctx keys = keys.forM fun key => (r.delete ctx key).lenient := by
  induction keys with
  | nil => rfl
  | cons key rest ih =>
      show _ = (r.delete ctx key).lenient >>= fun _ => rest.forM _
      rw [deleteBatch_cons, ih, checks, Call.lenient_under]
      funext t
      cases refused : t.refusal? ctx with
      | none => exact Call.check_bind_of_live refused _
      | some e =>
          rw [Call.check_bind_of_refusal refused, Call.bind_apply, Call.under_of_refusal _ refused]

end Required

end

/-! ### The store in memory -/

namespace Memory

/-- One provider answers as another one does where it pages, counts and deletes many keys. What they
hold afterwards is the same, though one of them may have purged more than the other. -/
structure PagesCountsDeletesAs (p q : Provider Memory) (ctx : Context) (s : Session Memory) : Prop where
  scan : ∀ start cursor limit, ∃ page,
    p.scan ctx start cursor limit s = (.ok page, s) ∧ q.scan ctx start cursor limit s = (.ok page, s)
  count : ∀ start, ∃ n, p.count ctx start s = (.ok n, s) ∧ q.count ctx start s = (.ok n, s)
  deleteBatch : ∀ keys, ∃ m n,
    p.deleteBatch ctx keys s = (.ok (), s.withBackend m) ∧
    q.deleteBatch ctx keys s = (.ok (), s.withBackend n) ∧ contents s.now m = contents s.now n

/-- **What the store does by itself is what it could leave open.** Whatever the store holds, entries that
have expired included, and under whatever live context: a page, read from the cursor on with one key
more than it holds, is the page cut from the listing of all keys, with the same cursor for the next one.
A count is the length of that listing. A batch of keys, deleted at once, leaves the same entries as the
keys deleted one by one, where those that are not there are passed over. -/
theorem own_as_default (config : KeyValueConfig) {ctx : Context} {s : Session Memory}
    (live : s.refusal? ctx = none) :
    PagesCountsDeletesAs (provider config) (required config).provider ctx s where
  scan start cursor limit := by
    have lists := lists_listed config start live
    exact ⟨_, lists.scan cursor limit, Required.scan_of_list live (lists.list 0) cursor limit⟩
  count start := by
    have lists := lists_listed config start live
    exact ⟨_, lists.count, Required.count_of_list (lists.list 0)⟩
  deleteBatch keys := by
    obtain ⟨b, singly, atOnce, _⟩ := (batchesInTurn config ctx).deletes keys s live
    refine ⟨contents s.now b, b, atOnce, ?_, purge_purge b s.now⟩
    have checks (key : String) : (required config).delete ctx key = _ := delete_eq key
    have inTurn := Required.deleteBatch_eq_forM checks keys
    exact (congrFun inTurn s).trans singly

/-- A cursor before all keys of the listing, with an entry in between that has expired. -/
theorem own_as_default_expired :
    let entries : Dict Entry := .ofList [("a/1", ⟨[1], some 5⟩), ("a/2", ⟨[2], none⟩),
      ("a/3", ⟨[3], some 6⟩), ("b", ⟨[4], none⟩)]
    let s : Session Memory := ⟨⟨entries⟩, 5, [], [], []⟩
    let ctx : Context := { signal := 0 }
    let default := (required {}).provider
    s.refusal? ctx = none ∧
      default.scan ctx "a/" (some "a") 1 s = (.ok ⟨["a/2"], some "a/2"⟩, s) ∧
      default.count ctx "a/" s = (.ok 2, s) ∧
      ∃ n, default.deleteBatch ctx ["a/1", "b"] s = (.ok (), s.withBackend n) ∧
        (contents 5 n).entries.keys = ["a/2", "a/3"] := by
  intro entries s ctx default
  have live : s.refusal? ctx = none := rfl
  have same := own_as_default {} live
  refine ⟨live, ?_, ?_, ?_⟩
  · obtain ⟨page, own, byDefault⟩ := same.scan "a/" (some "a") 1
    rw [byDefault, ← own]
    rfl
  · obtain ⟨n, own, byDefault⟩ := same.count "a/"
    rw [byDefault, ← own]
    rfl
  · obtain ⟨m, n, own, byDefault, left⟩ := same.deleteBatch ["a/1", "b"]
    refine ⟨n, byDefault, ?_⟩
    rw [← left]
    have deleted : s.withBackend m = ((provider {}).deleteBatch ctx ["a/1", "b"] s).2 := by rw [own]
    have held : m = ((provider {}).deleteBatch ctx ["a/1", "b"] s).2.backend :=
      congrArg Session.backend deleted
    rw [held]
    rfl

end Memory

end Depot.KeyValue
