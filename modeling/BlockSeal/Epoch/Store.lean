import BlockSeal.Epoch.Info
import BlockSeal.Recency

/-! # The store of epochs

`EpochStore` holds the epochs that are known, at most as many as its capacity, and forgets the one
that was used longest ago.

* `insert`: takes in an epoch that has the right shape and overlaps no stored one.
* `resolve`: the epoch that covers a time; it counts as used.
* `peek`, `get`, `hasCoverage`, `contains`: the other ways to look.

An operation that can change the store answers the store after it beside its result.
-/

set_option autoImplicit false

namespace BlockSeal

structure EpochStore where
  /-- How many validators every epoch has. -/
  validatorSetSize : UInt64
  /-- How long every slot is, in seconds. -/
  slotDuration : UInt64
  /-- The epochs by number, most recently used first. -/
  epochs : Recency UInt64 EpochInfo

namespace EpochStore

def create (validatorSetSize slotDuration capacity : UInt64) : Except Error EpochStore :=
  if validatorSetSize = 0 then .error (.invalidConfig (.tooSmall "validator_set_size"))
  else if slotDuration = 0 then .error (.invalidConfig (.tooSmall "slot_duration"))
  else (Recency.create "epochSet" capacity).map fun epochs =>
    { validatorSetSize := validatorSetSize, slotDuration := slotDuration, epochs := epochs }

def epochWidth (s : EpochStore) : UInt64 := s.slotDuration.mulCapped s.validatorSetSize

def size (s : EpochStore) : Nat := s.epochs.size

/-! ## Insertion -/

/-- Whether `info` starts before the end of an earlier epoch, or a later epoch before the end of
`info`, when every epoch from one to the other takes `width` seconds. -/
def overlaps (width : UInt64) (info : EpochInfo) (other : UInt64) (stored : EpochInfo) : Bool :=
  if other < info.epoch then
    info.epochStart < stored.epochStart.addCapped ((info.epoch - other).mulCapped width)
  else
    stored.epochStart < info.epochStart.addCapped ((other - info.epoch).mulCapped width)

/-- Whether `info` is new beside the stored epochs. The first stored epoch that is the same, or
that overlaps, decides. -/
def admits (width : UInt64) (epoch : UInt64) (info : EpochInfo) :
    List (UInt64 × EpochInfo) → Except Error Bool
  | [] => .ok true
  | (other, stored) :: rest =>
    if other = epoch then
      if stored = info then .ok false else admits width epoch info rest
    else if overlaps width info other stored then
      .error (.invalidState (.overlappingEpoch epoch info.epochStart other))
    else admits width epoch info rest

/-- Refuses an epoch whose shape is not that of the store's epochs. -/
def checkShape (s : EpochStore) (epoch : UInt64) (info : EpochInfo) : Except Error Unit :=
  if info.epoch ≠ epoch then .error (.invalidState (.misfiledEpoch info.epoch epoch))
  else if info.validators.length ≠ s.validatorSetSize.toNat then
    .error (.invalidState (.validatorCount epoch info.validators.length s.validatorSetSize))
  else if info.slotDuration ≠ s.slotDuration then
    .error (.invalidState (.slotDuration epoch info.slotDuration s.slotDuration))
  else .ok ()

/-- Stores `info` under the number `epoch`. An epoch that is stored already is left where it is. -/
def insert (s : EpochStore) (epoch : UInt64) (info : EpochInfo) : Except Error Unit × EpochStore :=
  match s.checkShape epoch info with
  | .error e => (.error e, s)
  | .ok () =>
    match s.epochs.putIf epoch info (admits s.epochWidth epoch info) with
    | (.error e, epochs) => (.error e, { s with epochs := epochs })
    | (.ok _, epochs) => (.ok (), { s with epochs := epochs })

/-! ## Lookup -/

def hasCoverage (s : EpochStore) (time : UInt64) : Bool :=
  (s.epochs.find? fun _ info => info.covers time).isSome

/-- The epoch with the given number, which counts as used. -/
def get (s : EpochStore) (epoch : UInt64) : Option EpochInfo × EpochStore :=
  let (info, epochs) := s.epochs.get epoch
  (info, { s with epochs := epochs })

/-- The epoch that covers `time`, which counts as used. -/
def resolve (s : EpochStore) (time : UInt64) : Except Error EpochInfo × EpochStore :=
  match s.epochs.find? fun _ info => info.covers time with
  | none => (.error (.epochNotFound time), s)
  | some (epoch, _) =>
    match s.get epoch with
    | (none, s) => (.error (.epochNotFound time), s)
    | (some info, s) => (.ok info, s)

def peek (s : EpochStore) (epoch : UInt64) : Option EpochInfo := s.epochs.peek epoch

def contains (s : EpochStore) (epoch : UInt64) : Bool := s.epochs.contains epoch

end EpochStore

end BlockSeal
