import BlockSeal.Chain
import BlockSeal.Coordinator

/-! # The sealing engine

`Engine` verifies seals and hands candidate blocks to remote workers, as its configuration says.

* `fresh`, `create`: an engine as it starts, if the configuration is valid.
* `prepare`: a header made ready for sealing on a known parent.
* `pushBlock`: a block handed to the workers.
* `verifySeal`, `sealHash`, `insertEpoch`, `epochFor`, `waitForEpoch`: verification and the epochs
  that it needs.
-/

set_option autoImplicit false

namespace BlockSeal

/-- An engine: its configuration, and the coordinator with everything the configuration led to. -/
structure Engine where
  config : Config
  coordinator : Coordinator

namespace Engine

/-- An engine as it starts, with the verifier that its configuration led to. -/
def fresh (config : Config) (verifier : SealVerifier) (notices : Option (Queue WorkPackage))
    (sinks : List (SinkName × Queue Block)) (now : UInt64) : Engine where
  config := config
  coordinator := { sealer := {
    verifier := verifier
    hashRate := { maxWorkers := config.maxRemoteWorkers, window := config.hashrateWindow }
    staleThreshold := config.staleThreshold
    now := now
    notices := notices
    sinks := sinks } }

/-- An engine with the given function, work announcements, sinks and time. -/
def create (config : Config) (function : PowFunction) (notices : Option (Queue WorkPackage))
    (sinks : List (SinkName × Queue Block)) (now : UInt64) : Except Error Engine := do
  config.validate
  let verifier ← SealVerifier.ofConfig config function
  return fresh config verifier notices sinks now

theorem create_eq_ok_iff {config : Config} {function : PowFunction}
    {notices : Option (Queue WorkPackage)} {sinks : List (SinkName × Queue Block)} {now : UInt64}
    {e : Engine} : create config function notices sinks now = .ok e ↔
      config.validate = .ok () ∧ ∃ verifier, SealVerifier.ofConfig config function = .ok verifier ∧
        e = fresh config verifier notices sinks now := by
  unfold create
  cases config.validate with
  | error fault => simp [bind, Except.bind]
  | ok u =>
    cases SealVerifier.ofConfig config function with
    | error fault => simp [bind, Except.bind]
    | ok verifier => simp [bind, Except.bind, pure, Except.pure, eq_comm]

/-! ## Parts -/

def verifier (e : Engine) : SealVerifier := e.coordinator.sealer.verifier

def withVerifier (e : Engine) (v : SealVerifier) : Engine :=
  { e with coordinator.sealer.verifier := v }

def withClock (e : Engine) (now : UInt64) : Engine := { e with coordinator.sealer.now := now }

/-- The coordinator, if remote sealing is enabled. -/
def remote (e : Engine) : Except Error Coordinator :=
  if e.config.remoteEnabled then .ok e.coordinator else .error (.notSupported .remoteSealing)

/-- The engine after an operation of its coordinator, and the result of the operation. -/
def withRemote {α : Type} (e : Engine) (f : Coordinator → Except Error α × Coordinator) :
    Except Error α × Engine :=
  match e.remote with
  | .error err => (.error err, e)
  | .ok c =>
    let (result, c) := f c
    (result, { e with coordinator := c })

def store (e : Engine) : Except Error EpochStore :=
  match e.verifier.store? with
  | some s => .ok s
  | none => .error (.invalidState (.noEpochData e.config.mode))

/-! ## Blocks -/

/-- The header made ready for sealing: its parent must be known, and in slot mode it gets the
metadata of the slot that its time falls into. -/
def prepare (e : Engine) (chain : Chain) (header : Header) : Except Error Header × Engine :=
  if header.number = 0 ∨ (chain.header? header.parentHash (header.number - 1)).isNone then
    (.error .unknownAncestor, e)
  else match e.verifier with
    | .slot v =>
      match v.prepare header with
      | (.error err, v) => (.error err, e.withVerifier (.slot v))
      | (.ok (_, header), v) => (.ok header, e.withVerifier (.slot v))
    | _ => (.ok header, e)

/-- Hands a block to the workers; its sealed form goes to `sink`. -/
def pushBlock (e : Engine) (block : Block) (sink : SinkName) : Except Error WorkPackage × Engine :=
  e.withRemote fun c => c.pushWork block sink

def verifySeal (e : Engine) (header : Header) : Except Failure Unit × Engine :=
  let (result, v) := e.verifier.verify header
  (result, e.withVerifier v)

/-- The digest that a sealer of the header commits to. -/
def sealHash (e : Engine) (header : Header) : Hash := e.verifier.sealHash header

/-! ## Epochs -/

def withStore {α : Type} (e : Engine) (f : EpochStore → Except Error α × EpochStore) :
    Except Error α × Engine :=
  match e.store with
  | .error err => (.error err, e)
  | .ok s =>
    let (result, s) := f s
    (result, e.withVerifier (e.verifier.withStore s))

def insertEpoch (e : Engine) (epoch : UInt64) (info : EpochInfo) : Except Error Unit × Engine :=
  e.withStore fun s => s.insert epoch info

def isEpochPresent (e : Engine) (time : UInt64) : Bool :=
  match e.store with
  | .ok s => s.hasCoverage time
  | .error _ => false

def epochFor (e : Engine) (time : UInt64) : Except Error EpochInfo × Engine :=
  e.withStore fun s => s.resolve time

/-- Looks for the epoch that covers `time` until it is found, at most `more` times after the first
try. -/
def resolveRetrying (time : UInt64) : (more : Nat) → EpochStore → Except Error EpochInfo × EpochStore
  | 0, s => s.resolve time
  | more + 1, s =>
    match s.resolve time with
    | (.ok info, s) => (.ok info, s)
    | (.error _, s) => resolveRetrying time more s

/-- The epoch that covers `time`, looked for `attempts` times, and once at least. -/
def waitForEpoch (e : Engine) (time : UInt64) (attempts : Nat) : Except Error EpochInfo × Engine :=
  e.withStore (resolveRetrying time (attempts - 1))

/-! ## Rates and shutdown -/

def setLocalHashRate (e : Engine) (rate : UInt64) : Engine :=
  { e with coordinator.sealer.hashRate := e.coordinator.sealer.hashRate.setLocal rate }

/-- The local hash rate and the workers' rates that still count. -/
def hashRate (e : Engine) : UInt64 := e.coordinator.hashRate

/-- Stops the coordinator, if remote sealing is enabled. -/
def close (e : Engine) : Engine :=
  if e.config.remoteEnabled then { e with coordinator := e.coordinator.close } else e

end Engine

end BlockSeal
