/-!
# Formats of stored bytes

A format is a media type. A codec names the one it writes, buckets take it as the default content
type of an object, and a failure to read or write carries it.
-/

namespace Depot

/-- The format of stored bytes, as a media type. -/
structure Format where
  mediaType : String
deriving DecidableEq, Inhabited

namespace Format

def json : Format := ⟨"application/json"⟩

def messagePack : Format := ⟨"application/msgpack"⟩

def octetStream : Format := ⟨"application/octet-stream"⟩

/-- A value or atom in memory that no codec has seen: named by failures to turn a record into a
value or back. -/
def value : Format := ⟨"application/x-stowage-value"⟩

def plainText : Format := ⟨"text/plain"⟩

def isJson (f : Format) : Bool := f == json

end Format

end Depot
