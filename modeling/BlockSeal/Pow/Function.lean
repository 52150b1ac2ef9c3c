import BlockSeal.Header

/-! # Proof-of-work functions

* `PowFunction`: what a proof-of-work function has to offer. It may break down over a dataset, and
  over a header and a nonce.
* `seedHash`, `datasetEpoch`: which dataset belongs to a height.
-/

set_option autoImplicit false

namespace BlockSeal

/-- A proof-of-work function over datasets. -/
structure PowFunction where
  /-- The material of a dataset, from the dataset's number and seed, unless it breaks down. -/
  generate : UInt64 → Hash → Option Bytes
  /-- The mix digest and the result for a seal hash and a nonce, unless it breaks down. -/
  compute : Bytes → Hash → UInt64 → Option (Hash × Hash)

/-! ## Datasets -/

/-- The seed of a dataset: the digest of zero, taken as often as the dataset's number says. -/
def seedHash (epoch : UInt64) : Hash :=
  Nat.repeat (fun seed => Blake3.hash seed.toList) epoch.toNat Octets.zero

/-- The number of the dataset for the block at height `number`. -/
def datasetEpoch (number length : UInt64) : UInt64 := number / max length 1

end BlockSeal
