import BlockSeal.HashRate
import BlockSeal.Queue
import BlockSeal.SealVerifier

/-! # The sealer

The sealer owns the candidate block, the works that were issued, and the sink that sealed blocks
go to. It handles one request after another.

* `Sealer`: its state, together with the verifier, the hash rates and the queues that it works on.
* `Request`: what it is asked, by the type of its answer.
* `pushWork`, `offer`, `submit`, `reportRate`: one function for each kind of request.
* `handle`: any request.
-/

set_option autoImplicit false

namespace BlockSeal

abbrev SinkName := String

/-- A candidate block with the work issued for it and the sink for its sealed form. -/
structure Candidate where
  block : Block
  work : WorkPackage

structure Sealer where
  verifier : SealVerifier
  hashRate : HashRate
  /-- Issued works this many blocks behind the candidate are forgotten. -/
  staleThreshold : UInt64
  /-- The current time, in seconds. -/
  now : UInt64 := 0
  /-- Where new work is announced, if anywhere. -/
  notices : Option (Queue WorkPackage) := none
  sinks : List (SinkName × Queue Block) := []
  current : Option Candidate := none
  /-- The blocks of the issued works, by seal hash. -/
  works : List (Hash × Block) := []
  results : Option SinkName := none

/-- The place of a candidate in the chain. -/
structure Lineage where
  parentHash : Hash
  number : UInt64
deriving DecidableEq

/-- What the sealer is asked, by the type of the answer. -/
inductive Request : Type → Type
  /-- A new candidate, and the sink for its sealed form. -/
  | pushWork (block : Block) (sink : SinkName) : Request WorkPackage
  | fetchWork : Request (WorkPackage × Lineage)
  | submitWork (s : Submission) : Request Unit
  | reportRate (worker : Hash) (rate : UInt64) : Request Unit

namespace Sealer

/-! ## Queues -/

def sink? (s : Sealer) (name : SinkName) : Option (Queue Block) :=
  (s.sinks.find? fun e => e.1 = name).map (·.2)

/-- The sealer with another queue under a sink's name. -/
def setSink (s : Sealer) (name : SinkName) (queue : Queue Block) : Sealer :=
  { s with sinks := s.sinks.map fun e => if e.1 = name then (name, queue) else e }

/-- Announces work; if the announcement is refused, it is lost. -/
def announce (s : Sealer) (work : WorkPackage) : Sealer :=
  { s with notices := s.notices.map fun queue => (queue.offer? work).getD queue }

/-! ## Requests -/

/-- The issued works that a candidate at height `number` leaves in memory. -/
def remembered (threshold number : UInt64) (works : List (Hash × Block)) : List (Hash × Block) :=
  works.filter fun e => number < e.2.number.addCapped threshold

def pushWork (s : Sealer) (block : Block) (sink : SinkName) : Except Error WorkPackage × Sealer :=
  match s.verifier.workPackage block.header with
  | .error e => (.error e, s)
  | .ok work =>
    let kept := remembered s.staleThreshold block.number s.works
    (.ok work, announce { s with
      current := some { block := block, work := work }
      works := (work.sealHash, block) :: kept.filter fun e => e.1 ≠ work.sealHash
      results := some sink } work)

/-- The work for the candidate, and the candidate's place in the chain. -/
def offer (s : Sealer) : Except Error (WorkPackage × Lineage) :=
  match s.current with
  | none => .error .noWork
  | some c => .ok (c.work, { parentHash := c.block.header.parentHash, number := c.block.number })

/-- Sends a sealed block to the candidate's sink. -/
def deliver (s : Sealer) (block : Block) : Except Error Unit × Sealer :=
  match s.results with
  | none => (.error (.invalidState .noResultSink), s)
  | some name =>
    match (s.sink? name).bind fun queue => queue.offer? block with
    | none => (.error (.invalidState .unreadResult), s)
    | some queue => (.ok (), s.setSink name queue)

/-- Whether work with the given seal hash was issued and is still remembered. -/
def isIssued (s : Sealer) (sealHash : Hash) : Bool := s.works.any fun e => e.1 = sealHash

/-- Takes in a solution: the candidate with the solution in it is checked and delivered. -/
def submit (s : Sealer) (submission : Submission) : Except Failure Unit × Sealer :=
  match s.current with
  | none => (.error (.refused .noWork), s)
  | some c =>
    if submission.sealHash ≠ c.work.sealHash then
      (.error (.refused (if s.isIssued submission.sealHash then .staleWork else .unknownWork)), s)
    else match s.verifier.applySubmission c.block.header submission with
      | .error e => (.error (.refused e), s)
      | .ok header =>
        match s.verifier.verify header with
        | (.error e, verifier) => (.error e, { s with verifier := verifier })
        | (.ok (), verifier) =>
          let (result, s) := deliver { s with verifier := verifier } (c.block.withSeal header)
          (Failure.lift result, s)

/-- Takes in a worker's report, after forgetting the reports that no longer count. -/
def reportRate (s : Sealer) (worker : Hash) (rate : UInt64) : Sealer :=
  { s with
    hashRate := (s.hashRate.purge s.now).record worker { rate := rate, time := s.now } }

def handle {α : Type} (s : Sealer) (request : Request α) : Except Failure α × Sealer :=
  match request with
  | .pushWork block sink =>
    let (result, s) := s.pushWork block sink
    (Failure.lift result, s)
  | .fetchWork => (Failure.lift s.offer, s)
  | .submitWork submission => s.submit submission
  | .reportRate worker rate => (.ok (), s.reportRate worker rate)

end Sealer

end BlockSeal
