import BlockSeal.Sealer

/-! # The sealer behind a door

`Coordinator` passes requests on to the sealer, one at a time, until it is closed or a request
breaks the sealer down. From then on every request is answered `Error.stopped`.

* `request`: any request, answered or refused.
* `fetchWithLineage`: the work, if it extends the expected parent.
* `submitSeal`: a solution, with the verdict on it.
-/

set_option autoImplicit false

namespace BlockSeal

/-- The sealer and whether it still takes requests. -/
structure Coordinator where
  sealer : Sealer
  isClosed : Bool := false

inductive Verdict
  | accepted
  /-- It was looked at and refused. -/
  | rejected (e : Error)
  /-- Its signature text spells no signature. -/
  | malformedSignature
  /-- Nobody looked at it. -/
  | unavailable
deriving DecidableEq

namespace Verdict

def isAccepted : Verdict → Bool
  | accepted => true
  | _ => false

/-- The reason that is written down for a refusal. -/
def reason : Verdict → Option String
  | rejected e => some e.message
  | malformedSignature => some "malformed seal signature"
  | _ => none

end Verdict

namespace Coordinator

/-- Passes a request on. A request that breaks the sealer down closes the coordinator. -/
def request {α : Type} (c : Coordinator) (r : Request α) : Except Error α × Coordinator :=
  if c.isClosed then (.error .stopped, c)
  else match c.sealer.handle r with
    | (.ok answer, s) => (.ok answer, { c with sealer := s })
    | (.error (.refused e), s) => (.error e, { c with sealer := s })
    | (.error .crashed, s) => (.error .stopped, { sealer := s, isClosed := true })

/-- Makes `block` the candidate; its sealed form goes to `sink`. -/
def pushWork (c : Coordinator) (block : Block) (sink : SinkName) :
    Except Error WorkPackage × Coordinator := c.request (.pushWork block sink)

def fetchWork (c : Coordinator) : Except Error WorkPackage :=
  (c.request .fetchWork).1.map (·.1)

/-- Refuses work that does not extend `parent` at height `number`. At height one the parent is not
looked at: a new validator does not know the hash of block zero. -/
def checkLineage (lineage : Lineage) (parent : Hash) (number : UInt64) : Except Error Unit :=
  if number = 1 then .ok ()
  else if lineage.parentHash ≠ parent then .error (.parentMismatch lineage.parentHash parent)
  else if lineage.number ≠ number then .error (.numberMismatch lineage.number number)
  else .ok ()

/-- The work for the candidate, if it extends `parent` at height `number`. -/
def fetchWithLineage (c : Coordinator) (parent : Hash) (number : UInt64) :
    Except Error WorkPackage := do
  let (work, lineage) ← (c.request .fetchWork).1
  checkLineage lineage parent number
  return work

def submitSeal (c : Coordinator) (s : Submission) : Verdict × Coordinator :=
  match c.request (.submitWork s) with
  | (.ok (), c) => (.accepted, c)
  | (.error .stopped, c) => (.unavailable, c)
  | (.error e, c) => (.rejected e, c)

def submitHashRate (c : Coordinator) (worker : Hash) (rate : UInt64) :
    Except Error Unit × Coordinator := c.request (.reportRate worker rate)

/-- The local hash rate and the workers' rates that still count. It needs no request. -/
def hashRate (c : Coordinator) : UInt64 := c.sealer.hashRate.total c.sealer.now

def close (c : Coordinator) : Coordinator := { c with isClosed := true }

end Coordinator

end BlockSeal
