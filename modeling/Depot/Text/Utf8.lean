/-!
# Text as bytes

The UTF-8 bytes of a text, and the text of bytes that are well formed. Every text has one sequence
of bytes, and reading it gives the text back (`decode?_encode`).
-/

namespace Depot.Text.Utf8

def encode (s : String) : List UInt8 :=
  s.toUTF8.data.toList

def decode? (bytes : List UInt8) : Option String :=
  String.fromUTF8? ⟨bytes.toArray⟩

@[simp] theorem decode?_encode (s : String) : decode? (encode s) = some s := by
  have h : (⟨(encode s).toArray⟩ : ByteArray) = s.toByteArray := by
    simp [encode, String.toUTF8]
  rw [decode?, h, String.fromUTF8?]
  have v : s.toByteArray.IsValidUTF8 := s.isValidUTF8
  simp [String.fromUTF8, v]

end Depot.Text.Utf8
