import Depot.MessagePack.Reader

/-!
# Reading ahead

A reader of MessagePack does not look beyond what it reads: what it finds at the front of some bytes
it finds there whatever follows (`Streams`). So no value can be found in the bytes of another one that
ends early, which is how data that was cut off is recognised.

A reader is put together from others along its binds, and so is the proof that it streams.
-/

namespace Depot.MessagePack

/-- What a reader finds at the front of its input, it finds there whatever follows. -/
def Streams {α : Type} (read? : List UInt8 → Option (α × List UInt8)) : Prop :=
  ∀ bytes a rest, read? bytes = some (a, rest) →
    ∀ more, read? (bytes ++ more) = some (a, rest ++ more)

variable {α β : Type}

theorem Streams.bind {read? : List UInt8 → Option (α × List UInt8)}
    {next? : α → List UInt8 → Option (β × List UInt8)} (h : Streams read?)
    (rest : ∀ a, Streams (next? a)) :
    Streams fun bytes => (read? bytes).bind fun (a, rest) => next? a rest := by
  intro bytes b behind found more
  obtain ⟨⟨a, between⟩, first, second⟩ := Option.bind_eq_some_iff.1 found
  simp only [h bytes a between first more, Option.bind_some]
  exact rest a between b behind second more

theorem streams_some (a : α) : Streams fun bytes => some (a, bytes) := by
  intro bytes b rest found more
  cases found
  rfl

theorem streams_none : Streams fun _ => (none : Option (α × List UInt8)) := by
  intro _ _ _ found
  cases found

theorem Streams.map {read? : List UInt8 → Option (α × List UInt8)} (h : Streams read?) (f : α → β) :
    Streams fun bytes => (read? bytes).map fun (a, rest) => (f a, rest) := by
  intro bytes b behind found more
  obtain ⟨⟨a, rest⟩, first, same⟩ := Option.map_eq_some_iff.1 found
  cases same
  simp only [h bytes a behind first more, Option.map_some]

theorem streams_take? (n : Nat) : Streams (take? n) := by
  intro bytes front rest found more
  rw [take?] at found ⊢
  split at found
  · next whole =>
      cases found
      have enough : n ≤ bytes.length := by
        rw [List.length_take] at whole
        omega
      rw [List.take_append_of_le_length enough, List.drop_append_of_le_length enough, if_pos whole]
  · cases found

theorem streams_takeNat? (width : Nat) : Streams (takeNat? width) :=
  (streams_take? width).map ofBigEndian

theorem streams_takeInt? (width : Nat) : Streams (takeInt? width) :=
  (streams_takeNat? width).map fun n =>
    if n < 2 ^ (8 * width - 1) then (n : Int) else n - 2 ^ (8 * width)

theorem streams_readScalar? (form : Form) : Streams (readScalar? form) := by
  cases form with
  | value v => exact streams_some v
  | nat width => exact (streams_takeNat? width).map fun n => Value.ofUInt64 (.ofNat n)
  | int width => exact (streams_takeInt? width).map fun i => Value.integer (.ofInt i)
  | float32 => exact (streams_takeNat? 4).map fun n => Value.float (Binary32.widen ⟨.ofNat n⟩)
  | float64 => exact (streams_takeNat? 8).map fun n => Value.float ⟨.ofNat n⟩
  | string size => exact (streams_take? size).map textValue
  | sizedString width =>
      exact (streams_takeNat? width).bind fun size => (streams_take? size).bind fun front =>
        streams_some (textValue front)
  | sizedBinary width =>
      exact (streams_takeNat? width).bind fun size => (streams_take? size).bind fun front =>
        streams_some (Value.bytes front)
  | _ => exact streams_none

theorem streams_containerSize? (form : Form) : Streams (containerSize? form) := by
  cases form with
  | array count => exact streams_some count
  | map count => exact streams_some count
  | sizedArray width => exact streams_takeNat? width
  | sizedMap width => exact streams_takeNat? width
  | _ => exact streams_none

theorem streams_decode? (bytes : List UInt8) :
    Streams fun rest => (Text.Utf8.decode? bytes).bind fun s => some (s, rest) := by
  cases Text.Utf8.decode? bytes with
  | none => exact streams_none
  | some s => exact streams_some s

/-- A reader whose first byte chooses the one for the rest. -/
theorem streams_of_cons {read? : List UInt8 → Option (α × List UInt8)} (nil : read? [] = none)
    (cons : ∀ b, Streams fun bytes => read? (b :: bytes)) : Streams read? := by
  intro bytes a rest found more
  cases bytes with
  | nil =>
      rw [nil] at found
      cases found
  | cons b bytes => exact cons b bytes a rest found more

theorem streams_readKey? : Streams readKey? := by
  refine streams_of_cons rfl fun b => ?_
  simp only [readKey?]
  cases Form.ofByte b with
  | string size => exact (streams_take? size).bind streams_decode?
  | sizedString width | sizedBinary width =>
      exact (streams_takeNat? width).bind fun size => (streams_take? size).bind streams_decode?
  | _ => exact streams_none

theorem streams_readItems? {readOne? : List UInt8 → Option (Value × List UInt8)}
    (h : Streams readOne?) : ∀ count, Streams (readItems? readOne? count)
  | 0 => streams_some []
  | count + 1 =>
      h.bind fun v => (streams_readItems? h count).bind fun items => streams_some (v :: items)

theorem streams_readMembers? {readOne? : List UInt8 → Option (Value × List UInt8)}
    (h : Streams readOne?) : ∀ count, Streams (readMembers? readOne? count)
  | 0 => streams_some []
  | count + 1 =>
      streams_readKey?.bind fun k => h.bind fun v =>
        (streams_readMembers? h count).bind fun members => streams_some ((k, v) :: members)

theorem streams_readValue? : ∀ nesting, Streams (readValue? nesting)
  | 0 => streams_of_cons rfl fun b => streams_readScalar? (Form.ofByte b)
  | nesting + 1 => by
      have below := streams_readValue? nesting
      refine streams_of_cons rfl fun b => ?_
      simp only [readValue?]
      cases Form.ofByte b with
      | array _ | sizedArray _ =>
          exact (streams_containerSize? _).bind fun count =>
            (streams_readItems? below count).bind fun items => streams_some (Value.array items)
      | map _ | sizedMap _ =>
          exact (streams_containerSize? _).bind fun count =>
            (streams_readMembers? below count).bind fun members => streams_some (Value.map members)
      | _ => exact streams_readScalar? _

end Depot.MessagePack
