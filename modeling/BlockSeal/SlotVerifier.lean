import BlockSeal.Epoch.Store
import BlockSeal.SlotSeal

/-! # Checking slot seals

`SlotVerifier` accepts a header when it carries the signature of the validator whose slot the
header claims, close enough to that slot's time.

* `checkTurn`: the declared numbers agree with one another.
* `inspect`: all checks of a header against the epoch that it declares.
* `verify`: finds the epoch and inspects the header.
* `prepare`: writes the metadata of the slot that the header's time falls into.
-/

set_option autoImplicit false

namespace BlockSeal

/-- The known epochs, and how far a clock may be off. -/
structure SlotVerifier where
  store : EpochStore
  /-- In seconds. -/
  tolerance : UInt64

namespace SlotVerifier

/-! ## Checks -/

/-- Refuses a seal whose slot, epoch and turn do not agree. -/
def checkTurn (size : UInt64) (s : SlotSeal) : Except Error Unit :=
  let start := s.epoch.mulCapped size
  if size ≤ s.turn then .error (.turnOutOfRange s.turn size.toNat)
  else if s.slot < start then .error (.turnOutOfRange s.slot size.toNat)
  else if size ≤ s.slot - start then .error (.turnOutOfRange (s.slot - start) size.toNat)
  else if s.slot - start ≠ s.turn then
    .error (.malformedSeal (.turnMismatch s.turn s.slot s.epoch))
  else .ok ()

/-- Whether `time` is in the window or within the tolerance of it. -/
def timely (tolerance : UInt64) (w : Window) (time : UInt64) : Bool :=
  w.start ≤ time.addCapped tolerance && time < w.stop.addCapped tolerance

/-- Checks a header with the seal `s` and the signature `bytes` against an epoch. -/
def inspect (tolerance : UInt64) (header : Header) (s : SlotSeal) (bytes : SignatureBytes)
    (info : EpochInfo) : Except Error Unit :=
  let window := info.slotWindow s.turn
  if s.epoch ≠ info.epoch ∨ !timely tolerance window header.time then
    .error (.staleOrFutureSlot s.slot header.time window.start window.stop)
  else match info.validator s.turn with
    | none => .error (.turnOutOfRange s.turn info.validators.length)
    | some signer =>
      if header.mixDigest ≠ SignatureBytes.commitment bytes then
        .error (.malformedSeal .uncommitted)
      else match Signature.ofBytes bytes.toList with
        | .error e => .error e
        | .ok signature =>
          let sealHash := s.preSealHash header
          if signature.verify signer sealHash.toList then .ok ()
          else .error (.invalidSignature signer sealHash header.hash)

/-- The seal of a header with its signature, if its numbers agree. -/
def readSeal (size : UInt64) (header : Header) : Except Error (SlotSeal × SignatureBytes) :=
  match SlotSeal.decode header.extra with
  | .error e => .error e
  | .ok s =>
    match s.signature with
    | none => .error (.malformedSeal .unsigned)
    | some bytes =>
      match checkTurn size s with
      | .error e => .error e
      | .ok () => .ok (s, bytes)

/-- The epoch that a seal is checked against: the declared one, or the one that covers `time`. -/
def epochFor (store : EpochStore) (epoch time : UInt64) : Except Error EpochInfo × EpochStore :=
  match store.peek epoch with
  | some info => (.ok info, store)
  | none => store.resolve time

def verify (v : SlotVerifier) (header : Header) : Except Error Unit × SlotVerifier :=
  match readSeal v.store.validatorSetSize header with
  | .error e => (.error e, v)
  | .ok (s, bytes) =>
    match epochFor v.store s.epoch header.time with
    | (.error e, store) => (.error e, { v with store := store })
    | (.ok info, store) => (inspect v.tolerance header s bytes info, { v with store := store })

/-! ## Preparation -/

/-- The metadata of the slot that the header's time falls into, and the header with it. -/
def prepare (v : SlotVerifier) (header : Header) :
    Except Error (SlotSeal × Header) × SlotVerifier :=
  match v.store.resolve header.time with
  | (.error e, store) => (.error e, { v with store := store })
  | (.ok info, store) =>
    match info.turnAt header.time with
    | none => (.error (.epochNotFound header.time), { v with store := store })
    | some turn =>
      let slot := (info.epoch.mulCapped store.validatorSetSize).addCapped turn
      let s : SlotSeal := { slot := slot, epoch := info.epoch, turn := turn }
      (.ok (s, { header with extra := s.encode }), { v with store := store })

end SlotVerifier

end BlockSeal
