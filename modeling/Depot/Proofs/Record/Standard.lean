import Depot.Proofs.Json.RoundTrip
import Depot.Proofs.MessagePack.RoundTrip
import Depot.Proofs.Record.Written

/-!
# The standard codecs

Records are usually kept in JSON or in MessagePack. What a record is written as comes back from either
of them as it is, as long as the format carries it (`StandardCodec.decode_encode`): it has to be within the
limits of the format, and JSON also has to read the text of every float in it as that float, which it does
not of all floats (`Json.Keeps`).
-/

namespace Depot

/-- The two codecs in which records are usually kept. -/
inductive StandardCodec
  | json
  | messagePack

namespace StandardCodec

def codec : StandardCodec → Codec
  | json => .json
  | messagePack => .messagePack

/-- The value is within the limits of the format; in JSON its floats are read back from their texts. -/
def Carries : StandardCodec → Value → Prop
  | json, v => v.nesting ≤ 127 ∧ Json.KeepsFloats v
  | messagePack, v => v.nesting < 1024 ∧ v.Short

/-- A written value that a codec carries comes back from it as it is. -/
theorem decode_encode (c : StandardCodec) {v : Value} (written : v.IsWritten) (within : c.Carries v) :
    ∃ bytes, c.codec.encode v = .ok bytes ∧ c.codec.decode bytes = .ok v := by
  cases c with
  | json =>
      obtain ⟨flat, kept⟩ := within
      have same := Value.canonical_of_plain v written.plain
      have reread := kept.reread?_canonical
      have read := Json.read?_write written.plain flat
      rw [same] at reread
      rw [reread] at read
      have arranged := Value.arrange_of_ordered _ written.ordered
      have same : v.interchange .base64 = v := by rw [Value.interchange_eq_canonical, same]
      refine ⟨_, rfl, ?_⟩
      simp [codec, Codec.json, Json.encode, same, Text.Utf8.decode?_encode, Json.decode?, read, arranged]
  | messagePack =>
      obtain ⟨flat, short⟩ := within
      have read := MessagePack.decode?_write_append written.ordered short (Nat.le_of_lt_succ flat) []
      rw [List.append_nil, Value.narrow_of_plain v written.plain] at read
      refine ⟨_, rfl, ?_⟩
      simp [codec, Codec.messagePack, read]

end StandardCodec

end Depot
