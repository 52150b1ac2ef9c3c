import BlockSeal.Error
import BlockSeal.Json.Shape
import BlockSeal.Keys
import BlockSeal.Word

/-! # Epochs

* `EpochInfo`: who seals in an epoch, when it starts, and how long its slots are.
* `EpochInfo.window`, `EpochInfo.slotWindow`: the times of the epoch and of one of its slots, each
  from its start up to but not including its end.
* `EpochInfo.turnAt`: the position of the slot that a time falls into.
-/

set_option autoImplicit false

namespace BlockSeal

/-- The times from `start` up to but not including `stop`. -/
structure Window where
  start : UInt64
  stop : UInt64
deriving DecidableEq

def Window.contains (w : Window) (time : UInt64) : Bool := w.start ≤ time && time < w.stop

/-- The validators of one epoch and its times. -/
structure EpochInfo where
  epoch : UInt64
  /-- The keys of the validators, in the order of their turns. -/
  validators : List PublicKey
  /-- In seconds. -/
  epochStart : UInt64
  /-- In seconds. -/
  slotDuration : UInt64
deriving DecidableEq

namespace EpochInfo

/-! ## Times -/

/-- The same epoch, starting after all epochs before it when epoch zero starts at `genesis` and
every epoch has `count` slots. -/
def startingFrom (info : EpochInfo) (genesis count : UInt64) : EpochInfo :=
  { info with
    epochStart := genesis.addCapped (info.epoch.mulCapped (info.slotDuration.mulCapped count)) }

def width (info : EpochInfo) : UInt64 :=
  info.slotDuration.mulCapped (UInt64.capped info.validators.length)

def window (info : EpochInfo) : Window := ⟨info.epochStart, info.epochStart.addCapped info.width⟩

def covers (info : EpochInfo) (time : UInt64) : Bool := info.window.contains time

def slotWindow (info : EpochInfo) (turn : UInt64) : Window :=
  let start := info.epochStart.addCapped (turn.mulCapped info.slotDuration)
  ⟨start, start.addCapped info.slotDuration⟩

/-- The position of the slot that `time` falls into, if the epoch covers it. -/
def turnAt (info : EpochInfo) (time : UInt64) : Option UInt64 :=
  if info.covers time then some ((time - info.epochStart) / max info.slotDuration 1) else none

/-- The validator whose turn it is at position `turn`. -/
def validator (info : EpochInfo) (turn : UInt64) : Option PublicKey :=
  info.validators[turn.toNat]?

/-! ## As a document -/

/-- The names of the fields in a document, in the order of their positions. -/
def fieldNames : List String := ["epoch", "validators", "epochStart", "slotDuration"]

def toJson (info : EpochInfo) : Json := .ofMembers (fieldNames.zip [
  .ofWord info.epoch, .array (info.validators.map PublicKey.toJson), .ofWord info.epochStart,
  .ofWord info.slotDuration])

def ofJson? (j : Json) : Option EpochInfo := do
  match ← j.fields? fieldNames with
  | [some epoch, some validators, some epochStart, some slotDuration] =>
    return {
      epoch := ← epoch.word?
      validators := ← validators.items? PublicKey.ofJson?
      epochStart := ← epochStart.word?
      slotDuration := ← slotDuration.word? }
  | _ => none

end EpochInfo

end BlockSeal
