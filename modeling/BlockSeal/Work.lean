import BlockSeal.Hex
import BlockSeal.Json.Basic
import BlockSeal.Header

/-! # Work and its solutions

* `WorkPackage`: what a remote worker is given, and `WorkPackage.strings`, its four hexadecimal
  texts.
* `Submission`: what a worker sends back.
-/

set_option autoImplicit false

namespace BlockSeal

/-- Work for a remote worker. In proof-of-work mode `secondary` is the seed of the dataset and
`payload` the target; in slot mode they are the receipt root and the encoded header. -/
structure WorkPackage where
  sealHash : Hash
  secondary : Hash
  payload : Bytes
  number : UInt64
deriving DecidableEq

namespace WorkPackage

/-- The four texts that are handed out for a package. -/
def strings (w : WorkPackage) : List String := [
  Hex.text w.sealHash.toList, Hex.text w.secondary.toList, Hex.text w.payload, Hex.number w.number]

def toJson (w : WorkPackage) : Json := .array (w.strings.map Json.ofString)

end WorkPackage

/-- What a worker claims to solve a package with. -/
structure Submission where
  nonce : Nonce
  mixDigest : Hash
  sealHash : Hash
  signature : Option SignatureBytes
deriving DecidableEq

end BlockSeal
