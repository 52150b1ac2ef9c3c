import BlockSeal.Pow.Function

/-! # The memory walk

The default proof-of-work function: the digest of a seal hash and a nonce is led from page to page
of the dataset, each page being mixed into it.

* `generate`: a dataset, whole pages of BLAKE3 output. It cannot be made if it is longer than any
  byte string in memory.
* `step`, `compute`: one visit, and the whole walk.
-/

set_option autoImplicit false

namespace BlockSeal

structure MemoryWalk where
  /-- How much material a dataset has, in bytes. -/
  materialLength : UInt64
  accesses : UInt64

namespace MemoryWalk

def pageLength : Nat := 32

/-- The walk with at least one page and one visit. -/
def ofSizes (materialLength accesses : UInt64) : MemoryWalk where
  materialLength := max materialLength 32
  accesses := max accesses 1

def standard : MemoryWalk := ofSizes 65536 64

/-- What the material of a dataset is drawn from. -/
def materialSeed (epoch : UInt64) (seed : Hash) : Bytes :=
  "slotseal:dataset:v1|".toList.flatMap String.utf8EncodeChar
    ++ seed.toList ++ littleEndian 8 epoch.toNat

/-- No byte string in memory is longer than this. -/
def longestMaterial : Nat := 9223372036854775807

/-- How many bytes the whole pages of the material have. -/
def wholeLength (w : MemoryWalk) : Nat :=
  w.materialLength.toNat - w.materialLength.toNat % pageLength

/-- The material of a dataset: whole pages of BLAKE3 output, unless memory cannot hold as many. -/
def generate (w : MemoryWalk) (epoch : UInt64) (seed : Hash) : Option Bytes :=
  if w.wholeLength ≤ longestMaterial then
    some (Blake3.extended (materialSeed epoch seed) w.wholeLength)
  else none

/-- The page at the given number; a page that is not all there is empty. -/
def page (material : Bytes) (index : Nat) : Bytes :=
  let bytes := (material.drop (index * pageLength)).take pageLength
  if bytes.length = pageLength then bytes else []

/-- How many pages the walk chooses from. -/
def pageCount (material : Bytes) : Nat := max (material.length / pageLength) 1

/-- The number of the page that `mix` leads to. -/
def pageIndex (pages : Nat) (mix : Hash) : Nat := littleEndianNat (mix.toList.take 8) % pages

/-- One visit: the page that `mix` leads to is mixed in. -/
def step (material : Bytes) (pages : Nat) (mix : Hash) : Hash :=
  Blake3.hash (mix.toList ++ page material (pageIndex pages mix))

def start (sealHash : Hash) (nonce : UInt64) : Hash :=
  Blake3.hash (sealHash.toList ++ littleEndian 8 nonce.toNat)

/-- The mix digest at the end of the walk, and the result. -/
def compute (w : MemoryWalk) (material : Bytes) (sealHash : Hash) (nonce : UInt64) : Hash × Hash :=
  let pages := pageCount material
  let mix := Nat.repeat (step material pages) w.accesses.toNat (start sealHash nonce)
  (mix, Blake3.hash (sealHash.toList ++ littleEndian 8 nonce.toNat ++ mix.toList))

/-- The walk as a proof-of-work function. It breaks down over datasets only. -/
def toPowFunction (w : MemoryWalk) : PowFunction where
  generate := w.generate
  compute := fun material sealHash nonce => some (w.compute material sealHash nonce)

end MemoryWalk

end BlockSeal
