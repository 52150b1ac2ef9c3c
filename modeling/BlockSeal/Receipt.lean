import BlockSeal.Header
import BlockSeal.Json.Shape

/-! # Receipts

`Receipt` and `Log` are what a transaction leaves behind. Both are written to JSON documents and
read from them, byte strings as arrays of numbers.
-/

set_option autoImplicit false

namespace BlockSeal

/-- An entry of a transaction's log. -/
structure Log where
  address : Address := Octets.zero
  topics : List Hash := []
  data : Bytes := []
deriving DecidableEq

/-- The outcome of a transaction. -/
structure Receipt where
  status : UInt64 := 0
  logs : List Log := []
deriving DecidableEq

namespace Log

/-- The names of the fields in a document, in the order of their positions. -/
def fieldNames : List String := ["address", "topics", "data"]

def toJson (l : Log) : Json := .ofMembers (fieldNames.zip [
  .ofBytes l.address.toList, .array (l.topics.map fun t => .ofBytes t.toList), .ofBytes l.data])

def ofJson? (j : Json) : Option Log := do
  match ← j.fields? fieldNames with
  | [some address, some topics, some data] =>
    return {
      address := ← address.octets? 20
      topics := ← topics.items? (Json.octets? 32)
      data := ← data.bytes? }
  | _ => none

end Log

namespace Receipt

/-- The names of the fields in a document, in the order of their positions. -/
def fieldNames : List String := ["status", "logs"]

def toJson (r : Receipt) : Json :=
  .ofMembers (fieldNames.zip [.ofWord r.status, .array (r.logs.map Log.toJson)])

def ofJson? (j : Json) : Option Receipt := do
  match ← j.fields? fieldNames with
  | [some status, some logs] =>
    return { status := ← status.word?, logs := ← logs.items? Log.ofJson? }
  | _ => none

end Receipt

end BlockSeal
