import BlockSeal.Error
import BlockSeal.Json.Shape

/-! # Engine configuration

* `Config`: the settings of an engine with their defaults. Durations are whole seconds.
* `Config.validate`: refuses settings that no engine can run with, the first bad field first.
* `Config.ofText`, `Config.text`: a configuration as a JSON document. Settings that the document
  does not give take their defaults.
-/

set_option autoImplicit false

namespace BlockSeal

/-- Blocks that share one dataset of the proof-of-work function, by default. -/
def datasetEpochLength : UInt64 := 30000

/-- The settings of an engine. -/
structure Config where
  mode : Mode := .pow
  /-- The height that is refused in fake mode. -/
  fakeFail : Option UInt64 := none
  remoteEnabled : Bool := true
  requestQueueCapacity : UInt64 := 16
  /-- Issued works this many blocks behind the candidate are forgotten. -/
  staleThreshold : UInt64 := 7
  hashrateWindow : UInt64 := 10
  maxRemoteWorkers : UInt64 := 1024
  validatorSetSize : UInt64 := 32
  slotDuration : UInt64 := 6
  /-- How far a clock may be off around a slot's window. -/
  slotTolerance : UInt64 := 2
  epochCacheCapacity : UInt64 := 12
  datasetCacheCapacity : UInt64 := 3
  datasetEpochLength : UInt64 := datasetEpochLength
deriving DecidableEq, Inhabited

namespace Config

/-! ## Validity -/

/-- The settings that must not be zero, in the order in which they are looked at. -/
def positiveFields (c : Config) : List (String × UInt64) := [
  ("request_queue_capacity", c.requestQueueCapacity),
  ("hashrate_window", c.hashrateWindow),
  ("validator_set_size", c.validatorSetSize),
  ("slot_duration", c.slotDuration),
  ("epoch_cache_capacity", c.epochCacheCapacity),
  ("dataset_cache_capacity", c.datasetCacheCapacity),
  ("dataset_epoch_length", c.datasetEpochLength)]

def validate (c : Config) : Except Error Unit :=
  match c.positiveFields.find? fun field => field.2 = 0 with
  | some (field, _) => .error (.invalidConfig (.tooSmall field))
  | none =>
    if c.mode ≠ .fake ∧ c.fakeFail.isSome then .error (.invalidConfig .strayFakeFail) else .ok ()

end Config

/-! ## As a document -/

def Mode.toJson (m : Mode) : Json := .ofString m.name

/-- The mode that a document is: its name, or an object whose one member is the name, with
nothing in it. -/
def Mode.ofJson? : Json → Option Mode
  | .string (some s) => Mode.ofName? s
  | .object [(some s, .null)] => Mode.ofName? s
  | _ => none

namespace Config

/-- The names of the settings in a document, in the order of their positions. -/
def fieldNames : List String := [
  "mode", "fake_fail", "remote_enabled", "request_queue_capacity", "stale_threshold",
  "hashrate_window", "max_remote_workers", "validator_set_size", "slot_duration",
  "slot_tolerance", "epoch_cache_capacity", "dataset_cache_capacity", "dataset_epoch_length"]

def optionalWord : Option UInt64 → Json
  | none => .null
  | some w => .ofWord w

def toJson (c : Config) : Json := .ofMembers (fieldNames.zip [
  c.mode.toJson, optionalWord c.fakeFail, .bool c.remoteEnabled, .ofWord c.requestQueueCapacity,
  .ofWord c.staleThreshold, .ofWord c.hashrateWindow, .ofWord c.maxRemoteWorkers,
  .ofWord c.validatorSetSize, .ofWord c.slotDuration, .ofWord c.slotTolerance,
  .ofWord c.epochCacheCapacity, .ofWord c.datasetCacheCapacity, .ofWord c.datasetEpochLength])

/-- The setting that a document gives, or else its default. -/
def orDefault {α : Type} (value? : Json → Option α) (default : α) : Option Json → Option α
  | none => some default
  | some j => value? j

def ofJson? (j : Json) : Option Config := do
  let base : Config := {}
  match ← j.fields? fieldNames with
  | [mode, fakeFail, remoteEnabled, requestQueueCapacity, staleThreshold, hashrateWindow,
      maxRemoteWorkers, validatorSetSize, slotDuration, slotTolerance, epochCacheCapacity,
      datasetCacheCapacity, datasetEpochLength] =>
    return {
      mode := ← orDefault Mode.ofJson? base.mode mode
      fakeFail := ← orDefault (Json.optional? Json.word?) base.fakeFail fakeFail
      remoteEnabled := ← orDefault Json.bool? base.remoteEnabled remoteEnabled
      requestQueueCapacity := ← orDefault Json.word? base.requestQueueCapacity requestQueueCapacity
      staleThreshold := ← orDefault Json.word? base.staleThreshold staleThreshold
      hashrateWindow := ← orDefault Json.word? base.hashrateWindow hashrateWindow
      maxRemoteWorkers := ← orDefault Json.word? base.maxRemoteWorkers maxRemoteWorkers
      validatorSetSize := ← orDefault Json.word? base.validatorSetSize validatorSetSize
      slotDuration := ← orDefault Json.word? base.slotDuration slotDuration
      slotTolerance := ← orDefault Json.word? base.slotTolerance slotTolerance
      epochCacheCapacity := ← orDefault Json.word? base.epochCacheCapacity epochCacheCapacity
      datasetCacheCapacity := ← orDefault Json.word? base.datasetCacheCapacity datasetCacheCapacity
      datasetEpochLength := ← orDefault Json.word? base.datasetEpochLength datasetEpochLength }
  | _ => none

/-- The configuration that a text spells, valid or not. -/
def ofText? (s : String) : Option Config := (Json.read? s).bind ofJson?

/-- The valid configuration that a text spells. -/
def ofText (s : String) : Except Error Config := do
  match ofText? s with
  | none => throw (.invalidConfig .unreadable)
  | some c =>
    c.validate
    return c

def text (c : Config) : String := c.toJson.text

end Config

end BlockSeal
