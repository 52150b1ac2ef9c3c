import BlockSeal.Engine

/-! # What remote workers see

Work is handed out as four hexadecimal texts. A solution is only accepted or not; the reason of a
refusal is written down, not answered.
-/

set_option autoImplicit false

namespace BlockSeal.Engine

def getWork (e : Engine) : Except Error (List String) := do
  let remote ← e.remote
  let work ← remote.fetchWork
  return work.strings

/-- The four texts of the work, if it extends `parent` at height `number`. -/
def getShardingWork (e : Engine) (parent : Hash) (number : UInt64) : Except Error (List String) := do
  let remote ← e.remote
  let work ← remote.fetchWithLineage parent number
  return work.strings

def submitSolution (e : Engine) (s : Submission) : Verdict × Engine :=
  match e.remote with
  | .error _ => (.unavailable, e)
  | .ok c =>
    let (verdict, c) := c.submitSeal s
    (verdict, { e with coordinator := c })

def submitWork (e : Engine) (nonce : Nonce) (sealHash mixDigest : Hash) : Verdict × Engine :=
  e.submitSolution
    { nonce := nonce, mixDigest := mixDigest, sealHash := sealHash, signature := none }

/-- The signature bytes that a hexadecimal text spells. -/
def signatureOfText? (text : String) : Option SignatureBytes :=
  match Hex.decode text with
  | .ok bytes => Octets.ofList? 96 bytes
  | .error _ => none

def submitSignature (e : Engine) (nonce : Nonce) (sealHash : Hash) (text : String) :
    Verdict × Engine :=
  match e.remote with
  | .error _ => (.unavailable, e)
  | .ok _ =>
    match signatureOfText? text with
    | none => (.malformedSignature, e)
    | some signature =>
      e.submitSolution {
        nonce := nonce
        mixDigest := SignatureBytes.commitment signature
        sealHash := sealHash
        signature := some signature }

/-- Reports a worker's hash rate; tells whether it was taken in. -/
def submitHashRate (e : Engine) (worker : Hash) (rate : UInt64) : Bool × Engine :=
  let (result, e) := e.withRemote fun c => c.submitHashRate worker rate
  (result.toBool, e)

end BlockSeal.Engine
