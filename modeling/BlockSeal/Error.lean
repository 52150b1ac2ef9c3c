import BlockSeal.Bls.Scheme
import BlockSeal.Header
import BlockSeal.Hex
import BlockSeal.Mode

/-! # What can go wrong

`Error` is the one type of refusals. A constructor carries the cause as values of the domain;
`Error.message` puts it into words. `Failure` adds the one way to fail that has no words: the
proof-of-work function broke down.
-/

set_option autoImplicit false

namespace BlockSeal

/-- A service that this engine does not offer. -/
inductive Unsupported
  | remoteSealing
  | countAcrossSets
deriving DecidableEq

/-- Why the metadata in a header is no proper seal. -/
inductive SealFault
  | notAList
  | trailingBytes
  | signatureWidth
  | itemCount (found : Nat)
  | undecodable (cause : Rlp.DecodeError)
  | unsigned
  | turnMismatch (turn slot epoch : UInt64)
  | uncommitted
  | signatureRequired
  | badSignature (cause : Bls.PointError)
deriving DecidableEq

/-- Why something does not fit what is already known. -/
inductive StateFault
  | keyMaterial (cause : Bls.PointError)
  | badPublicKey (cause : Bls.PointError)
  | misfiledEpoch (declared epoch : UInt64)
  | validatorCount (epoch : UInt64) (found : Nat) (expected : UInt64)
  | slotDuration (epoch found expected : UInt64)
  | overlappingEpoch (epoch start other : UInt64)
  | noEpochData (mode : Mode)
  | noResultSink
  | unreadResult
  | noSetFromStart
  | sharedActivation (height : UInt64)
  | readOnlyStore
deriving DecidableEq

/-- Why a configuration is refused. -/
inductive ConfigFault
  | tooSmall (field : String)
  | cacheCapacity (cache : String)
  | strayFakeFail
  | unreadable
deriving DecidableEq

inductive Error
  | notSupported (service : Unsupported)
  | stopped
  | malformedSeal (fault : SealFault)
  | turnOutOfRange (turn : UInt64) (validators : Nat)
  | epochNotFound (time : UInt64)
  | invalidSignature (signer : PublicKey) (sealHash headerHash : Hash)
  | staleOrFutureSlot (slot time start stop : UInt64)
  | parentMismatch (expected received : Hash)
  | numberMismatch (expected received : UInt64)
  | invalidState (fault : StateFault)
  | invalidConfig (fault : ConfigFault)
  | invalidDifficulty
  | invalidMixDigest
  | invalidPow
  | unknownAncestor
  | noWork
  | unknownWork
  | staleWork
deriving DecidableEq

/-- How an operation can end other than well. -/
inductive Failure
  /-- There is a reason, which is answered. -/
  | refused (e : Error)
  /-- The proof-of-work function broke down. -/
  | crashed
deriving DecidableEq

/-- The result of an operation that cannot break down, beside the results of those that can. -/
def Failure.lift {α : Type} : Except Error α → Except Failure α
  | .ok a => .ok a
  | .error e => .error (.refused e)

theorem Failure.lift_eq_ok_iff {α : Type} {r : Except Error α} {a : α} :
    Failure.lift r = .ok a ↔ r = .ok a := by
  cases r <;> simp [Failure.lift]

/-! ## Texts -/

def Unsupported.message : Unsupported → String
  | remoteSealing => "remote sealing is disabled"
  | countAcrossSets => "count_validators is not defined across validator sets"

def SealFault.message : SealFault → String
  | notAList => "extra data is not a list"
  | trailingBytes => "trailing bytes after seal"
  | signatureWidth => "signature must be 96 bytes"
  | itemCount found => s!"expected 3 or 4 items, found {found}"
  | undecodable cause => cause.name
  | unsigned => "header is not sealed"
  | turnMismatch turn slot epoch => s!"turn {turn} does not match slot {slot} of epoch {epoch}"
  | uncommitted => "mix digest does not commit to the signature"
  | signatureRequired => "signature required in slot mode"
  | badSignature cause => "invalid bls signature: " ++ cause.code

def StateFault.message : StateFault → String
  | keyMaterial cause => "bls key generation failed: " ++ cause.code
  | badPublicKey cause => "invalid bls public key: " ++ cause.code
  | misfiledEpoch declared epoch => s!"epoch info for {declared} inserted under {epoch}"
  | validatorCount epoch found expected =>
    s!"epoch {epoch} has {found} validators, expected {expected}"
  | slotDuration epoch found expected =>
    s!"epoch {epoch} slot duration {found} differs from configured {expected}"
  | overlappingEpoch epoch start other => s!"epoch {epoch} start {start} overlaps stored epoch {other}"
  | noEpochData mode => mode.title ++ " mode has no epoch data"
  | noResultSink => "no result sink for sealed block"
  | unreadResult => "sealing result is not read by miner"
  | noSetFromStart => "a validator set must be active from block 0"
  | sharedActivation height => s!"two validator sets activate at block {height}"
  | readOnlyStore => "store is read-only"

def ConfigFault.message : ConfigFault → String
  | tooSmall field => field ++ " must be >= 1"
  | cacheCapacity cache => cache ++ " cache capacity must be >= 1"
  | strayFakeFail => "fake_fail is only meaningful in fake mode"
  | unreadable => "document cannot be read"

def Error.message : Error → String
  | notSupported service => "not supported: " ++ service.message
  | stopped => "seal engine stopped"
  | malformedSeal fault => "malformed seal: " ++ fault.message
  | turnOutOfRange turn validators => s!"turn {turn} out of range for {validators} validators"
  | epochNotFound time => s!"no epoch consensus info covers time {time}"
  | invalidSignature signer sealHash headerHash =>
    "invalid signature: " ++ Hex.text signer.encode ++ " in header hash: "
      ++ Hex.text headerHash.toList ++ " with sealHash: " ++ Hex.text sealHash.toList
  | staleOrFutureSlot slot time start stop =>
    s!"header time {time} outside slot {slot} window [{start}, {stop})"
  | parentMismatch expected received =>
    "invalid parent hash: expected " ++ Hex.text expected.toList ++ ", received "
      ++ Hex.text received.toList
  | numberMismatch expected received =>
    s!"invalid block number: expected {expected}, received {received}"
  | invalidState fault => "invalid state: " ++ fault.message
  | invalidConfig fault => "invalid config: " ++ fault.message
  | invalidDifficulty => "non-positive difficulty"
  | invalidMixDigest => "invalid mix digest"
  | invalidPow => "invalid proof-of-work"
  | unknownAncestor => "unknown ancestor"
  | noWork => "no mining work available yet"
  | unknownWork => "work submitted but none pending"
  | staleWork => "work submitted is stale"

end BlockSeal
