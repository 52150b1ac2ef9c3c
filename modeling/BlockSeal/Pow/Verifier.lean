import BlockSeal.Pow.Function
import BlockSeal.Pow.Target
import BlockSeal.Recency

/-! # Checking proof-of-work seals

`PowVerifier` checks that a header's nonce leads to a result below the target, and keeps the
material of the datasets that it needed last.

* `dataset`: the material for a height, from the cache or newly made. Every making is written down
  in `generated`.
* `compute`, `verify`: the function at a header, and the check of its seal.
-/

set_option autoImplicit false

namespace BlockSeal

/-- A proof-of-work function with a cache of its datasets. -/
structure PowVerifier where
  pow : PowFunction
  /-- The material by dataset number, most recently used first. -/
  datasets : Recency UInt64 Bytes
  /-- How many blocks share a dataset. -/
  epochLength : UInt64
  /-- The number and the seed of every dataset that was asked of the function, in order. -/
  generated : List (UInt64 × Hash) := []

namespace PowVerifier

def create (pow : PowFunction) (capacity epochLength : UInt64) : Except Error PowVerifier :=
  if epochLength = 0 then .error (.invalidConfig (.tooSmall "dataset_epoch_length"))
  else (Recency.create "dataset" capacity).map fun datasets =>
    { pow := pow, datasets := datasets, epochLength := epochLength }

def epochOf (v : PowVerifier) (number : UInt64) : UInt64 := datasetEpoch number v.epochLength

def seedHashFor (v : PowVerifier) (number : UInt64) : Hash := seedHash (v.epochOf number)

/-- Asks the function for a dataset, and writes down what it was asked for. -/
def askFor (pow : PowFunction) (epoch : UInt64) (seed : Hash) (asked : List (UInt64 × Hash)) :
    Option Bytes × List (UInt64 × Hash) :=
  (pow.generate epoch seed, asked ++ [(epoch, seed)])

/-- The material of the dataset for the block at height `number`, if it can be made. -/
def dataset (v : PowVerifier) (number : UInt64) : Option Bytes × PowVerifier :=
  let (material, datasets, generated) := v.datasets.getOrMakeWith (v.epochOf number)
    (fun epoch => askFor v.pow epoch (seedHash epoch)) v.generated
  (material, { v with datasets := datasets, generated := generated })

/-- The mix digest and the result for a header and a nonce. -/
def compute (v : PowVerifier) (header : Header) (nonce : UInt64) :
    Option (Hash × Hash) × PowVerifier :=
  match v.dataset header.number with
  | (none, v) => (none, v)
  | (some material, v) => (v.pow.compute material header.sealHash nonce, v)

def nonceWord (nonce : Nonce) : UInt64 := UInt64.ofNat (bigEndianNat nonce.toList)

/-- Whether the header carries the computed mix digest and the result meets the target. -/
def judge (header : Header) (target : Hash) (outcome : Hash × Hash) : Except Failure Unit :=
  if outcome.1 ≠ header.mixDigest then .error (.refused .invalidMixDigest)
  else if !meetsTarget outcome.2 target then .error (.refused .invalidPow)
  else .ok ()

def verify (v : PowVerifier) (header : Header) : Except Failure Unit × PowVerifier :=
  match targetFor header.difficulty with
  | .error e => (.error (.refused e), v)
  | .ok target =>
    match v.compute header (nonceWord header.nonce) with
    | (none, v) => (.error .crashed, v)
    | (some outcome, v) => (judge header target outcome, v)

end PowVerifier

end BlockSeal
