import Depot.Proofs.Filter.Support
import Depot.Proofs.Record.Keeping
import Depot.Vector.Memory
import Depot.Vector.RecordIndex

/-!
# Searches with a clause that is not offered

A filter is translated before any vector is looked at. If it has a clause of a kind that the index does
not offer, wherever in it, there is no translation, and a search with it answers with nothing but the
error that names the kind (`no_clause_dropped`).
-/

namespace Depot

/-- The call answers with an error in every session, and leaves the backend alone. -/
def Call.IsRefused {σ α : Type} (call : Call σ α) : Prop :=
  ∀ s, (∃ e, (call s).1 = .error e) ∧ (call s).2.backend = s.backend

namespace Call

variable {σ α β : Type} {ctx : Context} {s : Session σ}

/-- A call that checks its context and then fails whatever the session is. -/
theorem check_bind_fail (ctx : Context) (e : Error) (s : Session σ) :
    (check ctx >>= fun _ => (fail e : Call σ α)) s = (.error ((s.refusal? ctx).getD e), s) := by
  cases refused : s.refusal? ctx with
  | some e' => exact check_bind_of_refusal refused _
  | none => exact check_bind_of_live refused _

/-- A call without answers fails. -/
theorem Prepares.isRefused {call : Call σ α} (h : call.Prepares fun _ => False) : call.IsRefused := by
  intro s
  refine ⟨?_, h.backend s⟩
  cases result : (call s).1 with
  | error e => exact ⟨e, rfl⟩
  | ok a => exact (h.answer s a result).elim

/-- What a call without answers is followed by is no matter. -/
theorem Prepares.isRefused_bind {call : Call σ α} (h : call.Prepares fun _ => False)
    (next : α → Call σ β) : (call >>= next).IsRefused :=
  (h.bind fun _ none => none.elim).isRefused

end Call

namespace Vector.Memory

variable {settings : Settings} {f : Filter} {e : Error}

/-- Without a translation of the filter nothing is searched. -/
theorem compile_bind_of_error {α : Type} (untranslated : settings.config.filter.compile f = .error e)
    (next : Test → Call Memory α) : (Access.compile settings f >>= next) = Call.fail e := by
  rw [Access.compile, untranslated]
  rfl

theorem search_of_error (untranslated : settings.config.filter.compile f = .error e) (ctx : Context)
    (q : Components) (k : Nat) (s : Session Memory) :
    search settings ctx q k (some f) s = (.error ((s.refusal? ctx).getD e), s) := by
  rw [← Call.check_bind_fail, ← compile_bind_of_error untranslated]
  rfl

theorem filter_of_error (untranslated : settings.config.filter.compile f = .error e) (ctx : Context)
    (n : Nat) (s : Session Memory) :
    filter settings ctx f n s =
      (.error ((s.refusal? ctx).getD
        (if settings.config.filter.metadataFilter then e else .filterNotSupported)), s) := by
  rw [← Call.check_bind_fail, filter, Access.filter]
  cases settings.config.filter.metadataFilter with
  | true => rw [compile_bind_of_error untranslated]; rfl
  | false => rfl

theorem prepares_search (untranslated : settings.config.filter.compile f = .error e) (ctx : Context)
    (q : Components) (k : Nat) : (search settings ctx q k (some f)).Prepares fun _ => False where
  backend s := by rw [search_of_error untranslated]
  answer s a answered := by
    rw [search_of_error untranslated] at answered
    cases answered

theorem prepares_filter (untranslated : settings.config.filter.compile f = .error e) (ctx : Context)
    (n : Nat) : (filter settings ctx f n).Prepares fun _ => False where
  backend s := by rw [filter_of_error untranslated]
  answer s a answered := by
    rw [filter_of_error untranslated] at answered
    cases answered

end Vector.Memory

/-! ### Indexes of records -/

namespace RecordIndex

variable {ρ : Type} {settings : Vector.Settings} {f : Filter} {e : Error}
  {index : RecordIndex ρ Vector.Memory}

/-- What is checked before a search makes no answer where the provider has none. -/
theorem prepares_searchHits (inMemory : index.provider = Vector.Memory.provider settings)
    (untranslated : settings.config.filter.compile f = .error e) (ctx : Context) (q : Components)
    (k : Nat) : (index.searchHits ctx q k (some f)).Prepares fun _ => False := by
  refine (Call.prepares_check ctx).bind fun _ _ => ?_
  refine (Call.prepares_lift fun _ _ => trivial).bind fun _ _ => ?_
  refine (Call.prepares_lift fun _ _ => trivial).bind fun _ _ => ?_
  rw [inMemory]
  exact Vector.Memory.prepares_search untranslated ctx q k

/-- A query is a search with a filter. -/
theorem queryHits_eq (inMemory : index.provider = Vector.Memory.provider settings) (ctx : Context)
    (q : Components) (k : Nat) : index.queryHits ctx q k f = index.searchHits ctx q k (some f) := by
  rw [queryHits, searchHits, inMemory]
  rfl

theorem prepares_filterHits (inMemory : index.provider = Vector.Memory.provider settings)
    (untranslated : settings.config.filter.compile f = .error e) (ctx : Context) (n : Nat) :
    (index.filterHits ctx f n).Prepares fun _ => False := by
  refine (Call.prepares_check ctx).bind fun _ _ => ?_
  refine (Call.prepares_lift fun _ _ => trivial).bind fun _ _ => ?_
  rw [inMemory]
  exact Vector.Memory.prepares_filter untranslated ctx n

end RecordIndex

/-- **No clause is dropped.** Whatever the visitor, a filter is translated if all its clauses are of kinds
that the visitor knows, and otherwise the translation fails and names the kind of the first clause that is
not, in the order in which clauses are translated. The same goes for the tests of an index and the kinds
that it offers. With a clause of a kind that it does not offer, in any place of the filter, an index
answers a search, a query and a filtering with this error and nothing else, whatever it holds, unless the
context is dead or the index does not filter without a query at all; and so do indexes of records over
it, in both views. -/
theorem no_clause_dropped :
    (∀ {α : Type} (visitor : Visitor α) (f : Filter),
      Filter.Settled visitor.supports f.nodes (f.accept visitor)) ∧
    (∀ (support : FilterSupport) (f : Filter),
      Filter.Settled support.allows f.nodes (support.compile f)) ∧
    ∀ (settings : Vector.Settings) (f : Filter),
      (∃ g ∈ f.nodes, settings.config.filter.allows g.operator = false) →
      ∃ e, settings.config.filter.compile f = .error e ∧
        (∀ ctx q k s,
          Vector.Memory.search settings ctx q k (some f) s = (.error ((s.refusal? ctx).getD e), s) ∧
          Vector.Memory.query settings ctx q k f s = (.error ((s.refusal? ctx).getD e), s)) ∧
        (∀ ctx n s, Vector.Memory.filter settings ctx f n s =
          (.error ((s.refusal? ctx).getD
            (if settings.config.filter.metadataFilter then e else .filterNotSupported)), s)) ∧
        ∀ {ρ : Type} (index : RecordIndex ρ Vector.Memory),
          index.provider = Vector.Memory.provider settings →
          (∀ ctx q k, (index.search ctx q k (some f)).IsRefused ∧ (index.query ctx q k f).IsRefused ∧
            (index.searchAtoms ctx q k (some f)).IsRefused ∧ (index.queryAtoms ctx q k f).IsRefused) ∧
          ∀ ctx n, (index.filter ctx f n).IsRefused ∧ (index.filterAtoms ctx f n).IsRefused := by
  refine ⟨fun visitor f => Filter.settled_accept visitor f,
    fun support f => support.settled_compile f, ?index⟩
  intro settings f unoffered
  obtain ⟨e, untranslated⟩ : ∃ e, settings.config.filter.compile f = .error e := by
    obtain ⟨g, mem, lacks⟩ := unoffered
    have settled := settings.config.filter.settled_compile f
    cases result : settings.config.filter.compile f with
    | error e => exact ⟨e, rfl⟩
    | ok test =>
        rw [result] at settled
        cases settled with
        | done offers => exact absurd (offers g mem) (by simp [lacks])
  refine ⟨e, untranslated, ?search, Vector.Memory.filter_of_error untranslated, ?records⟩
  case search =>
    intro ctx q k s
    have refused := Vector.Memory.search_of_error untranslated ctx q k s
    exact ⟨refused, refused⟩
  case records =>
    intro ρ index inMemory
    constructor
    · intro ctx q k
      have hits := RecordIndex.prepares_searchHits inMemory untranslated ctx q k
      have same := RecordIndex.queryHits_eq (f := f) inMemory ctx q k
      refine ⟨hits.isRefused_bind _, ?_, hits.isRefused_bind _, ?_⟩
      · rw [RecordIndex.query, same]
        exact hits.isRefused_bind _
      · rw [RecordIndex.queryAtoms, same]
        exact hits.isRefused_bind _
    · intro ctx n
      have hits := RecordIndex.prepares_filterHits inMemory untranslated ctx n
      exact ⟨hits.isRefused_bind _, hits.isRefused_bind _⟩

/-- Of the kinds that the index does not offer, the one of the innermost clauses is named, and of these
the first. -/
theorem no_clause_dropped_nested :
    let settings : Vector.Settings :=
      { config := { filter := { operators := some [.eq, .and] } }, codec := .messagePack }
    let f : Filter :=
      .and [.eq "genre" (.string "jazz"), .not (.and [.like "title" "x%", .present "note"])]
    let held := (Vector.Memory.initial settings).insert ⟨"a", [.one], [0x80]⟩
    let s : Session Vector.Memory := ⟨held, 0, [], [], []⟩
    (∃ g ∈ f.nodes, settings.config.filter.allows g.operator = false) ∧
      Vector.Memory.search settings ⟨0, none⟩ [.one] 0 (some f) s =
        (.error (.operatorNotSupported "like"), s) := by
  intro settings f held s
  have unoffered : ∃ g ∈ f.nodes, settings.config.filter.allows g.operator = false :=
    ⟨.like "title" "x%", by simp [f, Filter.nodes, Filter.nodesOfAll], rfl⟩
  obtain ⟨e, untranslated, searched, _⟩ := no_clause_dropped.2.2 settings f unoffered
  obtain rfl : Error.operatorNotSupported "like" = e := Except.error.inj untranslated
  exact ⟨unoffered, (searched ⟨0, none⟩ [.one] 0 s).1⟩

end Depot
