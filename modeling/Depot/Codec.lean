import Depot.Error
import Depot.Json.Reader
import Depot.Json.Writer
import Depot.MessagePack.Reader
import Depot.MessagePack.Writer

/-!
# Codecs

A codec turns a value into bytes and back and names the format of those bytes. Three are given:
JSON, in which bytes become base64 text; MessagePack, which keeps bytes; and plain text, which holds
a single text and nothing else.
-/

namespace Depot

/-- A way to keep values as bytes. -/
structure Codec where
  format : Format
  encode : Value → Except Error (List UInt8)
  decode : List UInt8 → Except Error Value

namespace Codec

def json : Codec where
  format := .json
  encode v := .ok (Text.Utf8.encode (String.ofList (Json.encode v)))
  decode bytes :=
    match (Text.Utf8.decode? bytes).bind fun s => Json.decode? s.toList with
    | some v => .ok v
    | none => .error (.decode .json "malformed JSON text")

def messagePack : Codec where
  format := .messagePack
  encode v := .ok (MessagePack.write v)
  decode bytes :=
    match MessagePack.decode? bytes with
    | some v => .ok v
    | none => .error (.decode .messagePack "malformed MessagePack data")

def plainText : Codec where
  format := .plainText
  encode v :=
    match v.asString? with
    | some s => .ok (Text.Utf8.encode s)
    | none => .error (.encode .plainText ("cannot encode " ++ v.kindName))
  decode bytes :=
    match Text.Utf8.decode? bytes with
    | some s => .ok (.string s)
    | none => .error (.decode .plainText "not utf-8")

end Codec

end Depot
