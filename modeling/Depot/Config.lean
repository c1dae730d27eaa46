import Depot.Filter.Predicate
import Depot.Json.Outline
import Depot.Vector.Metric

/-!
# Settings of the stores in memory

What a store in memory offers can be turned off piece by piece, and the settings can be read from
JSON text. Settings are an object whose members may be missing, in any order and among others, but
none of them twice; or an array of their values in order, which may end early. What is missing has
its default. The other members of an object are passed over: they need the form of JSON and no more.

A choice among names is written as the name, or as an object with the name as its only member and
null as the value.
-/

namespace Depot

structure KeyValueConfig where
  /-- Whether keys may be written with an expiry. -/
  ttl : Bool := true
deriving DecidableEq

structure IndexConfig where
  metric : Metric := .euclidean
  /-- The length of all vectors; the first one fixes it if nothing is said. -/
  dimension : Option Nat := none
  filter : FilterSupport := {}

namespace Config

/-- The texts from the values of named settings on, none for one that is missing. -/
def settings? (names : List String) (text : List Char) : Option (List (Option (List Char))) := do
  match ← Json.outline? text with
  | .members members =>
    names.mapM fun name =>
      match members.filter fun m => m.1 == name with
      | [] => some none
      | [(_, value)] => some (some value)
      | _ => none
  | .items items =>
    if items.length ≤ names.length then
      some (items.map some ++ List.replicate (names.length - items.length) none)
    else none
  | .scalar => none

/-- The name that a choice among names is written as. -/
def choice? : Value → Option String
  | .string name => some name
  | .map [(name, .null)] => some name
  | _ => none

def metric? (v : Value) : Option Metric := do
  let name ← choice? v
  Metric.all.find? fun m => m.name == name

def operator? (v : Value) : Option Operator := do
  Operator.ofName? (← choice? v)

def size? : Value → Option (Option Nat)
  | .null => some none
  | v => v.asUInt64?.map fun u => some u.toNat

def operators? : Value → Option (Option (List Operator))
  | .null => some none
  | .array items => (items.mapM operator?).map some
  | _ => none

/-- A setting that is read, or its default. -/
def orDefault {α : Type} (read? : List Char → Option α) (default : α) :
    Option (List Char) → Option α
  | none => some default
  | some text => read? text

/-- A setting of which the value as a whole is read. -/
def whole {α : Type} (read? : Value → Option α) (text : List Char) : Option α := do
  read? (← Json.front? text)

def keyValue? (text : List Char) : Option KeyValueConfig := do
  match ← settings? ["ttl"] text with
  | [ttl] => return { ttl := ← orDefault (whole Value.asBool?) true ttl }
  | _ => none

def filterSupport? (text : List Char) : Option FilterSupport := do
  match ← settings? ["metadata_filter", "operators"] text with
  | [metadataFilter, operators] =>
    return {
      metadataFilter := ← orDefault (whole Value.asBool?) true metadataFilter
      operators := ← orDefault (whole operators?) none operators }
  | _ => none

def index? (text : List Char) : Option IndexConfig := do
  match ← settings? ["metric", "dimension", "filter"] text with
  | [metric, dimension, filter] =>
    return {
      metric := ← orDefault (whole metric?) .euclidean metric
      dimension := ← orDefault (whole size?) none dimension
      filter := ← orDefault filterSupport? {} filter }
  | _ => none

/-- The settings that a JSON text holds. -/
def parse? {α : Type} (read? : List Char → Option α) (text : String) : Option α :=
  if Json.isForm text.toList then read? text.toList else none

end Config

end Depot
