import BlockSeal.Json.Reader

/-! # Values in JSON documents

* `Json.word?`, `Json.byte?`, `Json.bool?`, `Json.text?`, `Json.items?`: plain values. A number
  must be written with digits only and fit its width.
* `Json.fields?`: the fields of a record, given by name in an object or by position in an array.
  An unknown member is passed over, a repeated one is refused.
-/

set_option autoImplicit false

namespace BlockSeal.Json

/-- The number that a document is, if it is written with digits only. -/
def nat? : Json → Option Nat
  | number digits =>
    if digits.all Char.isDigit then some (digits.foldl (fun n c => n * 10 + (c.toNat - 48)) 0)
    else none
  | _ => none

def word? (j : Json) : Option UInt64 :=
  j.nat?.bind fun n => if n < UInt64.size then some (UInt64.ofNat n) else none

def byte? (j : Json) : Option UInt8 :=
  j.nat?.bind fun n => if n < UInt8.size then some (UInt8.ofNat n) else none

def bool? : Json → Option Bool
  | bool b => some b
  | _ => none

def text? : Json → Option String
  | string s => s
  | _ => none

/-- The items of an array, each read by `item?`. -/
def items? {α : Type} (item? : Json → Option α) : Json → Option (List α)
  | array items => items.mapM item?
  | _ => none

def bytes? (j : Json) : Option Bytes := j.items? byte?

/-- The byte string of width `n` that an array of numbers is. -/
def octets? (n : Nat) (j : Json) : Option (Octets n) := j.bytes?.bind (Octets.ofList? n)

/-- A value that may be absent, which `null` says. -/
def optional? {α : Type} (value? : Json → Option α) : Json → Option (Option α)
  | null => some none
  | j => (value? j).map some

/-- The value of the member `name`: nothing if there is no such member. -/
def member? (members : List (String × Json)) (name : String) : Option (Option Json) :=
  match members.filter fun m => m.1 = name with
  | [] => some none
  | [m] => some (some m.2)
  | _ => none

/-- The fields of a record with the given field names, in their order. A field that the document
does not give is nothing. -/
def fields? (names : List String) : Json → Option (List (Option Json))
  | object members => do
    let members ← members.mapM fun (name, value) => name.map fun name => (name, value)
    names.mapM (member? members)
  | array items =>
    if items.length ≤ names.length then
      some (items.map some ++ List.replicate (names.length - items.length) none)
    else none
  | _ => none

end BlockSeal.Json
