import Depot.Proofs.Record.Edits

/-!
# Where the fields of an atom sit

The partitions of an atom are filled independently of one another, so a name may sit in several of them at
once, among them such as are not for its field. An atom is put together exactly if all its names are
declared and each field sits in a partition of its own, or may be unset and sits nowhere
(`Atom.Found`). Otherwise that fails, and always with `decode`.

Where a field is found in a partition of its own, nothing looks at the others. So a value that sits in a
wrong partition under the same name does not show and is not reported either: the law that names sit in
their own partitions only (`Atom.WellPlaced`) is kept by the atoms that are put together exactly if
no field sits both in a partition of its own and in another one (`Atom.toValue_placed`).
-/

namespace Depot

/-- The partitions of the field: those for its kind and nullability. -/
def FieldSpec.Owns (f : FieldSpec) (nullable : Bool) (p : Atom.Partition) : Prop :=
  p.kind = f.kind ∧ nullable = f.nullable

namespace Atom

/-- A partition has an entry under the name, which may be that there is no value. -/
def Sits (a : Atom) (name : String) (nullable : Bool) (p : Partition) : Prop :=
  (a.held? name nullable p).isSome

/-- A field sits in a partition of its own. -/
def SitsWell (a : Atom) (f : FieldSpec) : Prop :=
  ∃ nullable p, f.Owns nullable p ∧ a.Sits f.name nullable p

/-- No partition has an entry under the name. -/
def SitsNowhere (a : Atom) (name : String) : Prop :=
  ∀ nullable p, ¬ a.Sits name nullable p

/-- Every name in a partition is that of a declared field which owns the partition, and every field that
may not be unset is there. -/
structure WellPlaced (a : Atom) (spec : Spec) : Prop where
  own : ∀ name nullable p, a.Sits name nullable p →
    ∃ f ∈ spec.fields, f.name = name ∧ f.Owns nullable p
  present : ∀ f ∈ spec.fields, f.nullable = false → ∃ nullable p, a.Sits f.name nullable p

/-- Every name in a partition is declared, and every field sits in a partition of its own, or may be
unset and sits in none at all. -/
structure Found (a : Atom) (spec : Spec) : Prop where
  declared : ∀ name nullable p, a.Sits name nullable p → spec.declares name = true
  found : ∀ f ∈ spec.fields, a.SitsWell f ∨ f.nullable = true ∧ a.SitsNowhere f.name

/-- A field that sits in a partition of its own sits in no other one as well. -/
def Strayless (a : Atom) (spec : Spec) : Prop :=
  ∀ f ∈ spec.fields, a.SitsWell f → ∀ nullable p, a.Sits f.name nullable p → f.Owns nullable p

variable {a b : Atom} {f : FieldSpec} {name : String} {spec : Spec} {v : Value}

/-! ### Names and partitions -/

theorem Partition.exists_iff {P : Partition → Prop} : (∃ p, P p) ↔
    P .ints ∨ P .uints ∨ P .floats ∨ P .strings ∨ P .bools ∨ P .bytes ∨ P .composites := by
  constructor
  · rintro ⟨p, holds⟩
    cases p <;> simp [holds]
  · rintro (h | h | h | h | h | h | h) <;> exact ⟨_, h⟩

theorem mem_fieldNames_iff : name ∈ a.fieldNames ↔ ∃ nullable p, a.Sits name nullable p := by
  simp only [fieldNames, List.mem_mergeSort, partitions, List.flatMap_cons, List.flatMap_nil,
    List.append_nil, List.mem_append, Dict.mem_keys_iff, Bool.exists_bool, Partition.exists_iff, Sits,
    held?, Option.isSome_map, or_assoc]

theorem partitionOf?_eq_none_iff : a.partitionOf? name = none ↔ name ∉ a.fieldNames := by
  rw [partitionOf?, Option.map_eq_none_iff, List.find?_eq_none, fieldNames, List.mem_mergeSort,
    List.mem_flatMap]
  simp only [List.contains_iff_mem]
  constructor
  · rintro apart ⟨p, mem, held⟩
    exact apart p mem held
  · intro apart p mem held
    exact apart ⟨p, mem, held⟩

/-- A field is looked up in the partitions that it owns. -/
theorem isSome_lookup?_iff : (a.lookup? f).isSome ↔ a.SitsWell f := by
  constructor
  · intro found
    by_cases integer : f.kind = .integer
    · rw [lookup?_of_integer integer] at found
      split at found
      · next there =>
          rcases there with ints | uints
          · exact ⟨f.nullable, .ints, ⟨integer.symm, rfl⟩, ints⟩
          · exact ⟨f.nullable, .uints, ⟨integer.symm, rfl⟩, uints⟩
      · cases found
    · obtain ⟨p, kind⟩ := FieldKind.exists_partition f.kind
      rw [lookup?_of_kind kind integer] at found
      exact ⟨f.nullable, p, ⟨kind, rfl⟩, found⟩
  · rintro ⟨nullable, p, ⟨kind, rfl⟩, sits⟩
    exact isSome_lookup? kind sits

/-- What a field shows is told by the partitions that it owns. -/
theorem lookup?_congr
    (same : ∀ nullable p, f.Owns nullable p → b.held? f.name nullable p = a.held? f.name nullable p) :
    b.lookup? f = a.lookup? f := by
  by_cases integer : f.kind = .integer
  · have ints := same f.nullable .ints ⟨integer.symm, rfl⟩
    have uints := same f.nullable .uints ⟨integer.symm, rfl⟩
    rw [lookup?_of_integer integer, lookup?_of_integer integer, half, half, half, half, ints, uints]
  · obtain ⟨p, kind⟩ := FieldKind.exists_partition f.kind
    rw [lookup?_of_kind kind integer, lookup?_of_kind kind integer]
    exact same f.nullable p ⟨kind, rfl⟩

/-! ### Values of fields -/

/-- What a field maps to, null if it is not there. -/
def shown (a : Atom) (f : FieldSpec) : Value := (a.lookup? f).getD .null

theorem fieldValue_eq_ok_iff : a.fieldValue f = .ok v ↔
    (a.SitsWell f ∨ f.nullable = true ∧ a.SitsNowhere f.name) ∧ v = a.shown f := by
  rw [← isSome_lookup?_iff, fieldValue, shown]
  cases a.lookup? f with
  | some w => simp [eq_comm (a := v)]
  | none =>
      have nowhere : a.partitionOf? f.name = none ↔ a.SitsNowhere f.name := by
        rw [partitionOf?_eq_none_iff, mem_fieldNames_iff, SitsNowhere]
        simp only [not_exists]
      rw [← nowhere]
      cases a.partitionOf? f.name with
      | none => cases f.nullable <;> simp [eq_comm (a := v)]
      | some partition => simp

theorem fieldValue_eq_error {e : Error} (failed : a.fieldValue f = .error e) :
    ∃ detail, e = .decode .value detail := by
  rw [fieldValue] at failed
  split at failed
  · cases failed
  · split at failed
    · split at failed
      · cases failed
      · cases failed
        exact ⟨_, rfl⟩
    · cases failed
      exact ⟨_, rfl⟩

/-! ### Putting an atom together -/

theorem toValue_eq_ok_iff : a.toValue spec = .ok v ↔ a.Found spec ∧ v = spec.recordOf a.shown := by
  have unknown : a.fieldNames.find? (fun name => !spec.declares name) = none ↔
      ∀ name nullable p, a.Sits name nullable p → spec.declares name = true := by
    rw [List.find?_eq_none]
    simp only [mem_fieldNames_iff, Bool.not_eq_true', Bool.not_eq_false]
    constructor
    · intro known name nullable p sits
      exact known name ⟨nullable, p, sits⟩
    · rintro known name ⟨nullable, p, sits⟩
      exact known name nullable p sits
  rw [toValue]
  constructor
  · intro made
    split at made
    · cases made
    · next known =>
        rw [Fallible.bind_eq_ok_iff] at made
        obtain ⟨members, walked, made⟩ := made
        have found : ∀ f ∈ spec.fields, ∃ v, a.fieldValue f = .ok v := by
          intro f mem
          obtain ⟨member, one⟩ := Fallible.exists_mapM_iff.1 ⟨members, walked⟩ f mem
          obtain ⟨v, valued, _⟩ := Fallible.bind_eq_ok_iff.1 one
          exact ⟨v, valued⟩
        have valued : ∀ f ∈ spec.fields, a.fieldValue f = .ok (a.shown f) := by
          intro f mem
          obtain ⟨v, valued⟩ := found f mem
          rw [valued, (fieldValue_eq_ok_iff.1 valued).2]
        rw [mapM_fieldValue valued] at walked
        cases walked
        cases made
        exact ⟨⟨unknown.1 known, fun f mem => (fieldValue_eq_ok_iff.1 (valued f mem)).1⟩, rfl⟩
  · rintro ⟨⟨declared, found⟩, rfl⟩
    rw [unknown.2 declared]
    dsimp only
    rw [mapM_fieldValue fun f mem => fieldValue_eq_ok_iff.2 ⟨found f mem, rfl⟩]
    rfl

theorem toValue_eq_error {e : Error} (failed : a.toValue spec = .error e) :
    ∃ detail, e = .decode .value detail := by
  rw [toValue] at failed
  split at failed
  · cases failed
    exact ⟨_, rfl⟩
  · rw [Fallible.bind_eq_error_iff] at failed
    rcases failed with walked | ⟨_, _, done⟩
    · obtain ⟨f, _, one⟩ := Fallible.exists_of_mapM_eq_error walked
      rcases Fallible.bind_eq_error_iff.1 one with valued | ⟨_, _, paired⟩
      · exact fieldValue_eq_error valued
      · cases paired
    · cases done

/-! ### The law of placement -/

/-- Names sit in their own partitions only if they are all declared, each field is found or unset, and
none sits in a wrong partition beside its own. -/
theorem wellPlaced_iff : a.WellPlaced spec ↔ a.Found spec ∧ a.Strayless spec := by
  constructor
  · rintro ⟨own, present⟩
    have owned : ∀ f ∈ spec.fields, ∀ nullable p, a.Sits f.name nullable p → f.Owns nullable p := by
      intro f mem nullable p sits
      obtain ⟨g, also, named, owns⟩ := own f.name nullable p sits
      obtain rfl : g = f := List.inj_on_of_nodup_map spec.names_nodup also mem named
      exact owns
    refine ⟨⟨fun name nullable p sits => ?_, fun f mem => ?_⟩, fun f mem _ => owned f mem⟩
    · obtain ⟨f, mem, rfl, _⟩ := own name nullable p sits
      exact Spec.declares_iff.2 (List.mem_map_of_mem mem)
    · by_cases there : ∃ nullable p, a.Sits f.name nullable p
      · obtain ⟨nullable, p, sits⟩ := there
        exact .inl ⟨nullable, p, owned f mem nullable p sits, sits⟩
      · refine .inr ⟨?_, fun nullable p sits => there ⟨nullable, p, sits⟩⟩
        cases required : f.nullable with
        | true => rfl
        | false => exact absurd (present f mem required) there
  · rintro ⟨⟨declared, found⟩, strayless⟩
    constructor
    case own =>
      intro name nullable p sits
      obtain ⟨f, mem, rfl⟩ := List.mem_map.1 (Spec.declares_iff.1 (declared name nullable p sits))
      rcases found f mem with well | ⟨_, nowhere⟩
      · exact ⟨f, mem, rfl, strayless f mem well nullable p sits⟩
      · exact absurd sits (nowhere nullable p)
    case present =>
      intro f mem required
      rcases found f mem with ⟨nullable, p, _, sits⟩ | ⟨unset, _⟩
      · exact ⟨nullable, p, sits⟩
      · cases required.symm.trans unset

/-- Which atoms are put together, and to what, whatever the spec and however the partitions were filled.
An atom is put together exactly if all its names are declared and each field sits in a partition of its
own, or may be unset and sits nowhere; otherwise that fails with `decode`. An atom whose names sit in
their own partitions only, with all fields that may not be unset, is always put together. The
other way round this holds exactly if no field sits in a partition of its own and in another one as well:
such a field shows what its own partitions hold, and what the others hold under its name changes nothing. -/
theorem toValue_placed (spec : Spec) (a : Atom) :
    (∀ v, a.toValue spec = .ok v ↔ a.Found spec ∧ v = spec.recordOf a.shown) ∧
      (¬ a.Found spec → ∃ detail, a.toValue spec = .error (.decode .value detail)) ∧
      (a.WellPlaced spec ↔ (∃ v, a.toValue spec = .ok v) ∧ a.Strayless spec) ∧
      ∀ b : Atom, a.Found spec → b.Found spec →
        (∀ f ∈ spec.fields, ∀ nullable p, f.Owns nullable p →
          b.held? f.name nullable p = a.held? f.name nullable p) →
        b.toValue spec = a.toValue spec := by
  have accepted : (∃ v, a.toValue spec = .ok v) ↔ a.Found spec := by simp [toValue_eq_ok_iff]
  refine ⟨fun v => toValue_eq_ok_iff, fun lost => ?_, ?_, fun b found also same => ?_⟩
  · cases made : a.toValue spec with
    | ok v => exact absurd (accepted.1 ⟨v, made⟩) lost
    | error e =>
        obtain ⟨detail, rfl⟩ := toValue_eq_error made
        exact ⟨detail, rfl⟩
  · rw [accepted, wellPlaced_iff]
  · have shown : ∀ f ∈ spec.fields, b.shown f = a.shown f := fun f mem => by
      rw [Atom.shown, Atom.shown, lookup?_congr (same f mem)]
    have whole : spec.recordOf b.shown = spec.recordOf a.shown := by
      rw [Spec.recordOf, Spec.recordOf,
        List.map_congr_left fun f mem => congrArg (Prod.mk f.name) (shown f mem)]
    rw [toValue_eq_ok_iff.2 ⟨found, rfl⟩, toValue_eq_ok_iff.2 ⟨also, rfl⟩, whole]

end Atom

/-! ### A counter whose hits sit in the texts -/

namespace Counters

open Atom

/-- A counter with its hits among the texts alone. -/
def astray : Atom := ((ofType "Counter").setString "id" "c").setString "hits" "many"

/-- A counter with five hits, and with others among the texts. -/
def doubled : Atom := five.setString "hits" "many"

variable {a : Atom}

/-- A counter has no fields but these two. -/
theorem declared_of_names (names : a.partitions.flatMap Prod.snd ⊆ ["hits", "id"])
    (name : String) (nullable : Bool) (p : Partition) (sits : a.Sits name nullable p) :
    spec.declares name = true := by
  have mem := mem_fieldNames_iff.2 ⟨nullable, p, sits⟩
  rw [fieldNames, List.mem_mergeSort] at mem
  have known := names mem
  rw [List.mem_cons, List.mem_singleton] at known
  rcases known with rfl | rfl <;> rfl

theorem found (names : a.partitions.flatMap Prod.snd ⊆ ["hits", "id"])
    (id : a.Sits "id" false .strings) (hits : a.Sits "hits" false .ints) : a.Found spec where
  declared := declared_of_names names
  found := by
    rw [show spec.fields = [keyField, hitsField] from rfl, List.forall_mem_cons,
      List.forall_mem_singleton]
    exact ⟨.inl ⟨false, .strings, ⟨rfl, rfl⟩, id⟩, .inl ⟨false, .ints, ⟨rfl, rfl⟩, hits⟩⟩

theorem found_five : five.Found spec := found (by decide) rfl rfl

theorem found_doubled : doubled.Found spec := found (by decide) rfl rfl

theorem not_found_astray : ¬ astray.Found spec := by
  rintro ⟨_, found⟩
  rcases found hitsField (by simp [spec]) with ⟨nullable, p, ⟨kind, required⟩, sits⟩ | ⟨unset, _⟩
  · subst required
    cases p with
    | ints | uints => cases sits
    | _ => cases kind
  · cases unset

end Counters

theorem Atom.toValue_placed_counters :
    Counters.five.Found Counters.spec ∧ Counters.doubled.Found Counters.spec ∧
      ¬ Counters.astray.Found Counters.spec ∧
      Counters.doubled.toValue Counters.spec = Counters.five.toValue Counters.spec ∧
      ∃ detail, Counters.astray.toValue Counters.spec = .error (.decode .value detail) := by
  refine ⟨Counters.found_five, Counters.found_doubled, Counters.not_found_astray, ?_,
    (toValue_placed Counters.spec Counters.astray).2.1 Counters.not_found_astray⟩
  refine (toValue_placed Counters.spec Counters.five).2.2.2 _ Counters.found_five
    Counters.found_doubled fun f mem nullable p owns => ?_
  -- The text among the hits is in a partition that neither field owns.
  rw [show Counters.spec.fields = [Counters.keyField, Counters.hitsField] from rfl, List.mem_cons,
    List.mem_singleton] at mem
  obtain ⟨kind, rfl⟩ := owns
  rcases mem with rfl | rfl <;> cases p <;> first | rfl | cases kind

/-- A counter is put together although a text sits under the name of its hits: the number sits there as
well, in its own partition, so the text is ignored. -/
theorem Atom.text_hidden_by_number :
    Counters.doubled.Sits "hits" false .strings ∧ ¬ Counters.doubled.WellPlaced Counters.spec ∧
      Counters.doubled.toValue Counters.spec = .ok (Counters.counter (.integer 5)) := by
  refine ⟨rfl, fun well => ?_, toValue_eq_ok_iff.2 ⟨Counters.found_doubled, ?_⟩⟩
  · have owns := (wellPlaced_iff.1 well).2 Counters.hitsField (by simp [Counters.spec])
      ⟨false, .ints, ⟨rfl, rfl⟩, rfl⟩ false .strings rfl
    cases owns.1
  · rw [Counters.recordOf_spec]
    rfl

end Depot
