import Depot.Text.Hex

/-!
# The XXH3 checksum

The 64-bit XXH3 hash with seed zero and the standard secret. Inputs are taken in one of six ways by
their length: empty, up to 3, 8, 16, 128 and 240 bytes, and longer. Long inputs are read in stripes
of sixty-four bytes, sixteen of them to a block, into eight accumulators that are scrambled after
every block.
-/

namespace Depot.Xxh3

def secret : Array UInt8 :=
  #[
    0xb8, 0xfe, 0x6c, 0x39, 0x23, 0xa4, 0x4b, 0xbe, 0x7c, 0x01, 0x81, 0x2c,
    0xf7, 0x21, 0xad, 0x1c, 0xde, 0xd4, 0x6d, 0xe9, 0x83, 0x90, 0x97, 0xdb,
    0x72, 0x40, 0xa4, 0xa4, 0xb7, 0xb3, 0x67, 0x1f, 0xcb, 0x79, 0xe6, 0x4e,
    0xcc, 0xc0, 0xe5, 0x78, 0x82, 0x5a, 0xd0, 0x7d, 0xcc, 0xff, 0x72, 0x21,
    0xb8, 0x08, 0x46, 0x74, 0xf7, 0x43, 0x24, 0x8e, 0xe0, 0x35, 0x90, 0xe6,
    0x81, 0x3a, 0x26, 0x4c, 0x3c, 0x28, 0x52, 0xbb, 0x91, 0xc3, 0x00, 0xcb,
    0x88, 0xd0, 0x65, 0x8b, 0x1b, 0x53, 0x2e, 0xa3, 0x71, 0x64, 0x48, 0x97,
    0xa2, 0x0d, 0xf9, 0x4e, 0x38, 0x19, 0xef, 0x46, 0xa9, 0xde, 0xac, 0xd8,
    0xa8, 0xfa, 0x76, 0x3f, 0xe3, 0x9c, 0x34, 0x3f, 0xf9, 0xdc, 0xbb, 0xc7,
    0xc7, 0x0b, 0x4f, 0x1d, 0x8a, 0x51, 0xe0, 0x4b, 0xcd, 0xb4, 0x59, 0x31,
    0xc8, 0x9f, 0x7e, 0xc9, 0xd9, 0x78, 0x73, 0x64, 0xea, 0xc5, 0xac, 0x83,
    0x34, 0xd3, 0xeb, 0xc3, 0xc5, 0x81, 0xa0, 0xff, 0xfa, 0x13, 0x63, 0xeb,
    0x17, 0x0d, 0xdd, 0x51, 0xb7, 0xf0, 0xda, 0x49, 0xd3, 0x16, 0x55, 0x26,
    0x29, 0xd4, 0x68, 0x9e, 0x2b, 0x16, 0xbe, 0x58, 0x7d, 0x47, 0xa1, 0xfc,
    0x8f, 0xf8, 0xb8, 0xd1, 0x7a, 0xd0, 0x31, 0xce, 0x45, 0xcb, 0x3a, 0x8f,
    0x95, 0x16, 0x04, 0x28, 0xaf, 0xd7, 0xfb, 0xca, 0xbb, 0x4b, 0x40, 0x7e]

def prime32A : UInt64 := 0x9e3779b1
def prime32B : UInt64 := 0x85ebca77
def prime32C : UInt64 := 0xc2b2ae3d
def prime64A : UInt64 := 0x9e3779b185ebca87
def prime64B : UInt64 := 0xc2b2ae3d27d4eb4f
def prime64C : UInt64 := 0x165667b19e3779f9
def prime64D : UInt64 := 0x85ebca77c2b2ae63
def prime64E : UInt64 := 0x27d4eb2f165667c5
def mixPrimeA : UInt64 := 0x165667919e3779f9
def mixPrimeB : UInt64 := 0x9fb21c651e98df25

/-- A byte of the input, zero outside of it. -/
def byteAt (data : Array UInt8) (i : Nat) : UInt64 :=
  (data.getD i 0).toUInt64

/-- Four bytes, the lowest first. -/
def word32 (data : Array UInt8) (i : Nat) : UInt64 :=
  byteAt data i ||| byteAt data (i + 1) <<< 8 ||| byteAt data (i + 2) <<< 16 |||
    byteAt data (i + 3) <<< 24

/-- Eight bytes, the lowest first. -/
def word64 (data : Array UInt8) (i : Nat) : UInt64 :=
  word32 data i ||| word32 data (i + 4) <<< 32

def rotateLeft (x : UInt64) (n : UInt64) : UInt64 :=
  x <<< n ||| x >>> (64 - n)

def swapBytes (x : UInt64) : UInt64 :=
  (List.range 8).foldl (fun (acc : UInt64) i => acc <<< 8 ||| (x >>> UInt64.ofNat (8 * i) &&& 0xff)) 0

/-- The two halves of a product of 128 bits, combined by exclusive or. -/
def foldedProduct (x y : UInt64) : UInt64 :=
  let product := x.toNat * y.toNat
  .ofNat (product % 2 ^ 64) ^^^ .ofNat (product / 2 ^ 64)

def avalancheShort (h : UInt64) : UInt64 :=
  let h := (h ^^^ h >>> 33) * prime64B
  let h := (h ^^^ h >>> 29) * prime64C
  h ^^^ h >>> 32

def avalanche (h : UInt64) : UInt64 :=
  let h := (h ^^^ h >>> 37) * mixPrimeA
  h ^^^ h >>> 32

/-- Sixteen bytes of the input, mixed with as many of the secret. -/
def mix16 (data : Array UInt8) (i k : Nat) : UInt64 :=
  foldedProduct (word64 data i ^^^ word64 secret k) (word64 data (i + 8) ^^^ word64 secret (k + 8))

/-- The sum of the mixed sixteen bytes at pairs of an input and a secret offset. -/
def mixAll (data : Array UInt8) (start : UInt64) (offsets : List (Nat × Nat)) : UInt64 :=
  offsets.foldl (fun acc o => acc + mix16 data o.1 o.2) start

def hashEmpty : UInt64 :=
  avalancheShort (word64 secret 56 ^^^ word64 secret 64)

def hashTo3 (data : Array UInt8) : UInt64 :=
  let n := data.size
  let combined := byteAt data 0 <<< 16 ||| byteAt data (n / 2) <<< 24 ||| byteAt data (n - 1) |||
    UInt64.ofNat n <<< 8
  avalancheShort (combined ^^^ (word32 secret 0 ^^^ word32 secret 4))

def hashTo8 (data : Array UInt8) : UInt64 :=
  let n := data.size
  let input := word32 data (n - 4) + word32 data 0 <<< 32
  let h := input ^^^ (word64 secret 8 ^^^ word64 secret 16)
  let h := (h ^^^ rotateLeft h 49 ^^^ rotateLeft h 24) * mixPrimeB
  let h := (h ^^^ (h >>> 35 + .ofNat n)) * mixPrimeB
  h ^^^ h >>> 28

def hashTo16 (data : Array UInt8) : UInt64 :=
  let n := data.size
  let low := word64 data 0 ^^^ (word64 secret 24 ^^^ word64 secret 32)
  let high := word64 data (n - 8) ^^^ (word64 secret 40 ^^^ word64 secret 48)
  avalanche (.ofNat n + swapBytes low + high + foldedProduct low high)

/-- Sixteen bytes at a time from both ends, toward the middle. -/
def hashTo128 (data : Array UInt8) : UInt64 :=
  let n := data.size
  let rounds := (n - 1) / 32 + 1
  avalanche (mixAll data (.ofNat n * prime64A)
    ((List.range rounds).flatMap fun i => [(16 * i, 32 * i), (n - 16 * (i + 1), 32 * i + 16)]))

/-- Sixteen bytes at a time, the first eight of them mixed before the rest and the end. -/
def hashTo240 (data : Array UInt8) : UInt64 :=
  let n := data.size
  let first := mixAll data (.ofNat n * prime64A) ((List.range 8).map fun i => (16 * i, 16 * i))
  let rest := (List.range (n / 16 - 8)).map fun i => (16 * (i + 8), 16 * i + 3)
  avalanche (mixAll data (avalanche first) (rest ++ [(n - 16, 136 - 17)]))

/-- Adds a stripe of sixty-four bytes at `i` to the accumulators: every lane takes its own keyed
product and the plain word of its neighbour. -/
def accumulate (data : Array UInt8) (i k : Nat) (lanes : List UInt64) : List UInt64 :=
  lanes.zipIdx.map fun ((lane : UInt64), (j : Nat)) =>
    let keyed : UInt64 := word64 data (i + 8 * j) ^^^ word64 secret (k + 8 * j)
    lane + word64 data (i + 8 * (j ^^^ 1)) + (keyed &&& (0xffffffff : UInt64)) * (keyed >>> 32)

/-- Adds `count` stripes that follow one another. -/
def accumulateStripes (data : Array UInt8) (start count : Nat) (lanes : List UInt64) : List UInt64 :=
  (List.range count).foldl (fun lanes n => accumulate data (start + 64 * n) (8 * n) lanes) lanes

def scramble (lanes : List UInt64) : List UInt64 :=
  lanes.zipIdx.map fun (lane, j) =>
    (lane ^^^ lane >>> 47 ^^^ word64 secret (128 + 8 * j)) * prime32A

/-- Combines the accumulators, two by two. -/
def merge (lanes : List UInt64) (start : UInt64) : UInt64 :=
  let lane (j : Nat) : UInt64 := lanes.getD j 0
  avalanche ((List.range 4).foldl (fun acc j =>
    acc + foldedProduct (lane (2 * j) ^^^ word64 secret (11 + 16 * j))
      (lane (2 * j + 1) ^^^ word64 secret (19 + 16 * j))) start)

def hashLong (data : Array UInt8) : UInt64 :=
  let n := data.size
  let blocks := (n - 1) / 1024
  let lanes := [prime32C, prime64A, prime64B, prime64C, prime64D, prime32B, prime64E, prime32A]
  let lanes := (List.range blocks).foldl
    (fun lanes b => scramble (accumulateStripes data (1024 * b) 16 lanes)) lanes
  let lanes := accumulateStripes data (1024 * blocks) ((n - 1 - 1024 * blocks) / 64) lanes
  let lanes := accumulate data (n - 64) (192 - 64 - 7) lanes
  merge lanes (.ofNat n * prime64A)

def hash64 (bytes : List UInt8) : UInt64 :=
  let data := bytes.toArray
  let n := data.size
  if n = 0 then hashEmpty
  else if n ≤ 3 then hashTo3 data
  else if n ≤ 8 then hashTo8 data
  else if n ≤ 16 then hashTo16 data
  else if n ≤ 128 then hashTo128 data
  else if n ≤ 240 then hashTo240 data
  else hashLong data

end Depot.Xxh3
