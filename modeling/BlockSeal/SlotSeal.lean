import BlockSeal.Error

/-! # Slot seals

In slot mode a header's `extra` field holds the slot, the epoch and the turn that the block was
made for, and once the block is sealed also the signature.

* `SlotSeal.encode`, `SlotSeal.decode`: the metadata as a list of three or four items.
* `SlotSeal.preimage`, `SlotSeal.preSealHash`: what the signature is made over: the header as it
  was before the signature went into it.
* `SlotSeal.applied`: the header with a signature in it.
-/

set_option autoImplicit false

namespace BlockSeal

structure SlotSeal where
  slot : UInt64
  epoch : UInt64
  turn : UInt64
  signature : Option SignatureBytes := none
deriving DecidableEq

/-- The part of a signature that the mix digest repeats. -/
def SignatureBytes.commitment (s : SignatureBytes) : Hash := s.take 32

namespace SlotSeal

def unsealed (s : SlotSeal) : SlotSeal := { s with signature := none }

def withSignature (s : SlotSeal) (signature : SignatureBytes) : SlotSeal :=
  { s with signature := some signature }

def isSealed (s : SlotSeal) : Bool := s.signature.isSome

/-! ## Bytes -/

/-- The metadata as a list of three items, with the signature as a fourth. -/
def encode (s : SlotSeal) : Bytes :=
  Rlp.encodeList
    ([Rlp.encodeWord s.slot, Rlp.encodeWord s.epoch, Rlp.encodeWord s.turn]
      ++ s.signature.toList.map fun signature => Rlp.encodeString signature.toList)

/-- A refusal of the item coding as a fault of the seal. -/
def undecodable {α : Type} : Except Rlp.DecodeError α → Except Error α
  | .ok a => .ok a
  | .error e => .error (.malformedSeal (.undecodable e))

/-- The metadata in three number items, with a signature that has been read already. -/
def ofItems (slot epoch turn : Bytes) (signature : Option SignatureBytes) :
    Except Error SlotSeal := do
  return {
    slot := ← undecodable (Rlp.word slot)
    epoch := ← undecodable (Rlp.word epoch)
    turn := ← undecodable (Rlp.word turn)
    signature := signature }

/-- The metadata that `extra` holds. It must be one list and nothing else. -/
def decode (extra : Bytes) : Except Error SlotSeal := do
  if !Rlp.isList extra then throw (.malformedSeal .notAList)
  let extent ← undecodable (Rlp.extent extra)
  if extent.total ≠ extra.length then throw (.malformedSeal .trailingBytes)
  match ← undecodable (Rlp.listItems extra) with
  | [slot, epoch, turn] => ofItems slot epoch turn none
  | [slot, epoch, turn, signature] =>
    match Rlp.octets 96 signature with
    | .error _ => throw (.malformedSeal .signatureWidth)
    | .ok signature => ofItems slot epoch turn (some signature)
  | items => throw (.malformedSeal (.itemCount items.length))

/-! ## The signed message -/

/-- The bytes that a signature commits to: the header without mix digest and nonce, and, if it is
sealed, with its metadata written without the signature. -/
def preimage (header : Header) (s : SlotSeal) : Bytes :=
  if s.isSealed then { header with extra := s.unsealed.encode }.encodeUnsealed
  else header.encodeUnsealed

def preSealHash (header : Header) (s : SlotSeal) : Hash := Blake3.hash (s.preimage header)

/-- The header with the signature in its metadata and the commitment to it in its mix digest. -/
def applied (header : Header) (s : SlotSeal) (signature : SignatureBytes) : Header :=
  { header with
    extra := (s.unsealed.withSignature signature).encode
    mixDigest := SignatureBytes.commitment signature }

end SlotSeal

end BlockSeal
