import BlockSeal.Chain
import BlockSeal.Error
import BlockSeal.Receipt

/-! # Sources of validators

* `ValidatorSet m`: what a source of eligible signers answers, each answer being an action of the
  monad `m`, in which a source may keep books of its own.
* `KeyValueStore`, `StateDb`: the storage that is handed to a source. A source that fails leaves
  it as it was.
* `ValidatorSet.fixed`: a list of validators that never changes.
-/

set_option autoImplicit false

namespace BlockSeal

/-! ## Storage -/

structure KeyValueStore where
  entries : List (Bytes × Bytes) := []
  readOnly : Bool := false

namespace KeyValueStore

def get (s : KeyValueStore) (key : Bytes) : Option Bytes :=
  (s.entries.find? fun e => e.1 = key).map (·.2)

def put (s : KeyValueStore) (key value : Bytes) : Except Error KeyValueStore :=
  if s.readOnly then .error (.invalidState .readOnlyStore)
  else .ok { s with entries := (key, value) :: s.entries.filter fun e => e.1 ≠ key }

end KeyValueStore

/-- The storage of accounts: a word by account and key, zero where nothing was written. -/
structure StateDb where
  entries : List ((Address × Hash) × Hash) := []

namespace StateDb

def get (s : StateDb) (address : Address) (key : Hash) : Hash :=
  ((s.entries.find? fun e => e.1 = (address, key)).map (·.2)).getD Octets.zero

def set (s : StateDb) (address : Address) (key value : Hash) : StateDb :=
  { s with
    entries := ((address, key), value) :: s.entries.filter fun e => e.1 ≠ (address, key) }

end StateDb

/-! ## Sources -/

/-- Whether and how the validators change at a block. -/
structure ChangeSignal where
  validators : List Address := []
  changed : Bool := false
  finalized : Bool := false
deriving DecidableEq

/-- A source of eligible signers. -/
structure ValidatorSet (m : Type → Type) where
  /-- The change at the block with the given header; the first argument tells whether it is the
  first block that the source is asked about. -/
  signalToChange : Bool → List Receipt → Header → Chain → KeyValueStore → m ChangeSignal
  /-- Makes a change final in the storage of accounts. -/
  finalizeChange : Header → StateDb → m (Except Error StateDb)
  validatorsAt : UInt64 → m (List Address)
  count : m (Except Error Nat)
  /-- Writes what the source needs for the block with the given header. -/
  prepareBackend : Header → Chain → KeyValueStore → m (Except Error KeyValueStore)

namespace ValidatorSet

variable {m : Type → Type} [Monad m]

/-- The key under which a fixed list is written. -/
def fixedKey : Bytes := utf8 "validatorset/simple_list".toList

/-- A list of validators that never changes. Only its first block announces it, and that is final
at once. -/
def fixed (validators : List Address) : ValidatorSet m where
  signalToChange := fun first _ _ _ _ =>
    pure { validators := validators, changed := first, finalized := first }
  finalizeChange := fun _ state => pure (.ok state)
  validatorsAt := fun _ => pure validators
  count := pure (.ok validators.length)
  prepareBackend := fun _ _ store => pure (store.put fixedKey (validators.flatMap Octets.toList))

end ValidatorSet

end BlockSeal
