import BlockSeal.Config
import BlockSeal.Pow.Verifier
import BlockSeal.SlotVerifier
import BlockSeal.Work

/-! # Verification in all modes

`SealVerifier` is the one entry point for seals, chosen by the configuration.

* `verify`: whether a header's seal is accepted.
* `sealHash`: what a sealer of the header commits to.
* `workPackage`, `applySubmission`: a header as work, and a solution as a sealed header.
-/

set_option autoImplicit false

namespace BlockSeal

/-- The verifier of one mode. -/
inductive SealVerifier
  | pow (v : PowVerifier)
  | slot (v : SlotVerifier)
  | fake (fail : Option UInt64)
  | fullFake

namespace SealVerifier

def ofConfig (c : Config) (function : PowFunction) : Except Error SealVerifier :=
  match c.mode with
  | .pow => (PowVerifier.create function c.datasetCacheCapacity c.datasetEpochLength).map pow
  | .slot =>
    (EpochStore.create c.validatorSetSize c.slotDuration c.epochCacheCapacity).map fun store =>
      slot { store := store, tolerance := c.slotTolerance }
  | .fake => .ok (fake c.fakeFail)
  | .fullFake => .ok fullFake

def verify (v : SealVerifier) (header : Header) : Except Failure Unit × SealVerifier :=
  match v with
  | pow v => let (result, v) := v.verify header; (result, pow v)
  | slot v => let (result, v) := v.verify header; (Failure.lift result, slot v)
  | fake fail =>
    (if fail = some header.number then .error (.refused .invalidPow) else .ok (), fake fail)
  | fullFake => (.ok (), fullFake)

/-- The bytes under the digest that a sealer commits to. -/
def sealPreimage (v : SealVerifier) (header : Header) : Bytes :=
  match v with
  | slot _ =>
    match SlotSeal.decode header.extra with
    | .ok s => s.preimage header
    | .error _ => header.encodeUnsealed
  | _ => header.encodeUnsealed

def sealHash (v : SealVerifier) (header : Header) : Hash := Blake3.hash (v.sealPreimage header)

def store? : SealVerifier → Option EpochStore
  | slot v => some v.store
  | _ => none

/-- The verifier with other epochs; only slot mode has any. -/
def withStore (store : EpochStore) : SealVerifier → SealVerifier
  | slot v => slot { v with store := store }
  | v => v

/-! ## Work -/

/-- The secondary hash and the payload of the work for a header. -/
def workContents (v : SealVerifier) (header : Header) : Except Error (Hash × Bytes) :=
  match v with
  | slot _ => .ok (header.receiptHash, header.encode)
  | pow v => (targetFor header.difficulty).map fun target => (v.seedHashFor header.number, target.toList)
  | _ => (targetFor (max header.difficulty 1)).map fun target => (seedHash 0, target.toList)

def workPackage (v : SealVerifier) (header : Header) : Except Error WorkPackage :=
  (v.workContents header).map fun (secondary, payload) =>
    { sealHash := v.sealHash header, secondary := secondary, payload := payload
      number := header.number }

/-- The header with a worker's solution in it. -/
def applySubmission (v : SealVerifier) (header : Header) (s : Submission) : Except Error Header :=
  match v with
  | slot _ =>
    match s.signature with
    | none => .error (.malformedSeal .signatureRequired)
    | some signature =>
      (SlotSeal.decode header.extra).map fun metadata =>
        { metadata.applied header signature with nonce := s.nonce }
  | _ => .ok { header with nonce := s.nonce, mixDigest := s.mixDigest }

end SealVerifier

end BlockSeal
