import Depot.Error
import Depot.Number.Binary32

/-!
# Distances between vectors

Every metric is a distance: the lower, the closer. Components are binary32 numbers and so is the
distance; sums are added up in the order of the components.
-/

namespace Depot

abbrev Components := List Binary32

/-- How far two vectors are from each other. -/
inductive Metric
  /-- The length of the difference. -/
  | euclidean
  /-- One less the cosine of the angle; one if a vector has no length. -/
  | cosine
  /-- The inner product, negated. -/
  | innerProduct
deriving DecidableEq

/-- The metric where nothing is said. -/
instance : Inhabited Metric := ⟨.euclidean⟩

namespace Metric

def all : List Metric := [euclidean, cosine, innerProduct]

def name : Metric → String
  | euclidean => "euclidean"
  | cosine => "cosine"
  | innerProduct => "inner_product"

def parse? (text : String) : Option Metric :=
  match String.ofList (text.toList.map Char.toLower) with
  | "euclidean" | "l2" => some euclidean
  | "cosine" => some cosine
  | "inner_product" | "dot" | "dot_product" => some innerProduct
  | _ => none

def dot (a b : Components) : Binary32 :=
  Binary32.sum (List.zipWith Binary32.mul a b)

def norm (a : Components) : Binary32 :=
  (Binary32.sum (a.map fun x => x.mul x)).sqrt

/-- The length of the difference of two vectors. -/
def gap (a b : Components) : Binary32 :=
  (Binary32.sum (List.zipWith (fun x y => let d := x.sub y; d.mul d) a b)).sqrt

/-- The distance between two vectors, which have to be of one length. -/
def distance (metric : Metric) (a b : Components) : Except Error Binary32 :=
  if a.length = b.length then
    .ok <| match metric with
      | euclidean => gap a b
      | cosine =>
        let (na, nb) := (norm a, norm b)
        if na.isZero || nb.isZero then .one else .sub .one (.div (dot a b) (.mul na nb))
      | innerProduct => (dot a b).neg
  else .error (.dimensionMismatch a.length b.length)

end Metric

/-- A vector has components, and all of them are finite. -/
def Components.validate (v : Components) : Except Error Unit :=
  if v.isEmpty then .error (.invalidVector "vector is empty")
  else
    match v.findIdx? fun x => !x.isFinite with
    | some i => .error (.invalidVector ("component " ++ toString i ++ " is not finite"))
    | none => .ok ()

end Depot
