import BlockSeal.Digest.Blake3
import BlockSeal.Rlp

/-! # Block headers

* `Header`: the thirteen fields of a header.
* `Header.encode`, `Header.decode`: its wire form, a list of thirteen items.
* `Header.encodeUnsealed`: the first eleven fields alone, without what the sealer writes last.
* `Header.hash`, `Header.sealHash`: the digests of these two byte strings.

The byte strings under the digests have names of their own, so that what a digest commits to can
be said without a word about collisions.
-/

set_option autoImplicit false

namespace BlockSeal

/-- A 32-byte digest. -/
abbrev Hash := Octets 32
/-- An account address. -/
abbrev Address := Octets 20
/-- A proof-of-work nonce. -/
abbrev Nonce := Octets 8
/-- The compressed form of a signature. -/
abbrev SignatureBytes := Octets 96

structure Header where
  parentHash : Hash := Octets.zero
  coinbase : Address := Octets.zero
  stateRoot : Hash := Octets.zero
  txHash : Hash := Octets.zero
  receiptHash : Hash := Octets.zero
  difficulty : UInt64 := 0
  number : UInt64 := 0
  gasLimit : UInt64 := 0
  gasUsed : UInt64 := 0
  time : UInt64 := 0
  extra : Bytes := []
  mixDigest : Hash := Octets.zero
  nonce : Nonce := Octets.zero
deriving DecidableEq, Inhabited

namespace Header

/-! ## Wire form and digests -/

/-- The items of the fields that a sealer commits to. -/
def unsealedItems (h : Header) : List Bytes := [
  Rlp.encodeString h.parentHash.toList,
  Rlp.encodeString h.coinbase.toList,
  Rlp.encodeString h.stateRoot.toList,
  Rlp.encodeString h.txHash.toList,
  Rlp.encodeString h.receiptHash.toList,
  Rlp.encodeWord h.difficulty,
  Rlp.encodeWord h.number,
  Rlp.encodeWord h.gasLimit,
  Rlp.encodeWord h.gasUsed,
  Rlp.encodeWord h.time,
  Rlp.encodeString h.extra]

/-- The header without its mix digest and its nonce, as a list of eleven items. -/
def encodeUnsealed (h : Header) : Bytes := Rlp.encodeList h.unsealedItems

def encode (h : Header) : Bytes :=
  Rlp.encodeList
    (h.unsealedItems ++ [Rlp.encodeString h.mixDigest.toList, Rlp.encodeString h.nonce.toList])

def hash (h : Header) : Hash := Blake3.hash h.encode

def sealHash (h : Header) : Hash := Blake3.hash h.encodeUnsealed

/-- The header that a list of thirteen items holds. Bytes after the list are read as further
items, and a fixed-width field may be an item of either kind. -/
def decode (bytes : Bytes) : Except Rlp.DecodeError Header := do
  match ← Rlp.listItems bytes with
  | [parentHash, coinbase, stateRoot, txHash, receiptHash, difficulty, number, gasLimit, gasUsed,
      time, extra, mixDigest, nonce] =>
    return {
      parentHash := ← Rlp.octets 32 parentHash
      coinbase := ← Rlp.octets 20 coinbase
      stateRoot := ← Rlp.octets 32 stateRoot
      txHash := ← Rlp.octets 32 txHash
      receiptHash := ← Rlp.octets 32 receiptHash
      difficulty := ← Rlp.word difficulty
      number := ← Rlp.word number
      gasLimit := ← Rlp.word gasLimit
      gasUsed := ← Rlp.word gasUsed
      time := ← Rlp.word time
      extra := ← Rlp.string extra
      mixDigest := ← Rlp.octets 32 mixDigest
      nonce := ← Rlp.octets 8 nonce }
  | _ => throw .listLength

end Header

/-! ## Blocks -/

/-- A candidate block: a header and the transactions under it. -/
structure Block where
  header : Header := {}
  transactions : List Bytes := []
deriving DecidableEq, Inhabited

namespace Block

/-- The block with another header on the same transactions. -/
def withSeal (b : Block) (header : Header) : Block := { b with header := header }

def number (b : Block) : UInt64 := b.header.number

end Block

end BlockSeal
