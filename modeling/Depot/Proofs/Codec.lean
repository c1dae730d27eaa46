import Depot.Codec
import Depot.Proofs.Session.Quiet

/-!
# Errors of codecs

A codec runs before the commit of a write, and none of the given ones fails with an error that
belongs to a hook. What they cannot read they fail to decode, and with no other error.
-/

namespace Depot.Codec

/-- A codec fails as a codec: its errors do not claim that the operation was done. -/
def Honest (codec : Codec) : Prop :=
  ∀ v, Early (codec.encode v)

theorem honest_json : json.Honest :=
  fun _ => .ok _

theorem honest_messagePack : messagePack.Honest :=
  fun _ => .ok _

theorem honest_plainText : plainText.Honest := by
  intro v
  cases text : v.asString? with
  | some s =>
      have encoded : plainText.encode v = .ok (Text.Utf8.encode s) := by simp only [plainText, text]
      rw [encoded]
      exact .ok _
  | none =>
      have refused : plainText.encode v =
          .error (.encode .plainText ("cannot encode " ++ v.kindName)) := by
        simp only [plainText, text]
      rw [refused]
      exact .error rfl

/-- What the codec cannot read it fails to decode, and with no other error. -/
def FailsToDecode (codec : Codec) : Prop :=
  ∀ bytes e, codec.decode bytes = .error e → ∃ format detail, e = .decode format detail

theorem failsToDecode_json : json.FailsToDecode := by
  intro bytes e failed
  simp only [json] at failed
  split at failed <;> cases failed
  exact ⟨_, _, rfl⟩

theorem failsToDecode_messagePack : messagePack.FailsToDecode := by
  intro bytes e failed
  simp only [messagePack] at failed
  split at failed <;> cases failed
  exact ⟨_, _, rfl⟩

theorem failsToDecode_plainText : plainText.FailsToDecode := by
  intro bytes e failed
  simp only [plainText] at failed
  split at failed <;> cases failed
  exact ⟨_, _, rfl⟩

end Depot.Codec
