import BlockSeal.Octets

/-! # Recursive length coding

An item is a byte string or a list of items, written as a header that tells kind and length,
followed by the payload; a single byte below `0x80` is its own item.

* `encodeString`, `encodeWord`, `encodeList`: the one way to write an item.
* `Extent`, `extent`: the lengths that an item's header tells.
* `listItems`: the items of a list, up to the first that cannot be read.
* `payload`, `string`, `word`, `octets`: what one item holds.
-/

set_option autoImplicit false

namespace BlockSeal.Rlp

/-! ## Writing -/

/-- The header of an item with a payload of `length` bytes; `base` tells strings from lists. -/
def header (base : UInt8) (length : Nat) : Bytes :=
  if length ≤ 55 then [base + UInt8.ofNat length]
  else
    let digits := minimalBigEndian (UInt64.ofNat length)
    (base + 55 + UInt8.ofNat digits.length) :: digits

def encodeString : Bytes → Bytes
  | [b] => if b < 0x80 then [b] else [0x81, b]
  | bytes => header 0x80 bytes.length ++ bytes

/-- A 64-bit word as an item: its bytes without leading zeros. -/
def encodeWord (w : UInt64) : Bytes := encodeString (minimalBigEndian w)

def encodeList (items : List Bytes) : Bytes := header 0xc0 items.flatten.length ++ items.flatten

/-! ## Reading -/

/-- Why bytes are not the item that is asked for. -/
inductive DecodeError
  | tooShort
  | tooBig
  | zeroInLength
  | indirection
  | notAList
  | notAString
  | listLength
  | width
deriving DecidableEq

def DecodeError.name : DecodeError → String
  | tooShort => "RlpIsTooShort"
  | tooBig => "RlpIsTooBig"
  | zeroInLength => "RlpDataLenWithZeroPrefix"
  | indirection => "RlpInvalidIndirection"
  | notAList => "RlpExpectedToBeList"
  | notAString => "RlpExpectedToBeData"
  | listLength => "RlpIncorrectListLen"
  | width => "RlpInvalidLength"

/-- The lengths of an item's two parts. -/
structure Extent where
  header : Nat
  payload : Nat
deriving DecidableEq

def Extent.total (e : Extent) : Nat := e.header + e.payload

/-- The extent of an item whose payload length takes `count` bytes, the first ones of `rest`. -/
def longExtent (count : Nat) (rest : Bytes) : Except DecodeError Extent :=
  match rest with
  | [] => .error .tooShort
  | b :: _ =>
    if b = 0 then .error .zeroInLength
    else if rest.length < count then .error .tooShort
    else if bigEndianNat (rest.take count) ≤ 55 then .error .indirection
    else .ok ⟨1 + count, bigEndianNat (rest.take count)⟩

/-- The extent that a header claims, whether or not the payload is there. -/
def claimedExtent : Bytes → Except DecodeError Extent
  | [] => .error .tooShort
  | b :: rest =>
    if b < 0x80 then .ok ⟨0, 1⟩
    else if b ≤ 0xb7 then .ok ⟨1, (b - 0x80).toNat⟩
    else if b ≤ 0xbf then longExtent (b - 0xb7).toNat rest
    else if b ≤ 0xf7 then .ok ⟨1, (b - 0xc0).toNat⟩
    else longExtent (b - 0xf7).toNat rest

def extent (bytes : Bytes) : Except DecodeError Extent :=
  match claimedExtent bytes with
  | .error e => .error e
  | .ok e => if bytes.length < e.total then .error .tooShort else .ok e

def isList : Bytes → Bool
  | [] => false
  | b :: _ => 0xc0 ≤ b

/-- The items at the front of `bytes`, at most `count`, up to the first that cannot be read. -/
def itemsUpTo : (count : Nat) → Bytes → List Bytes
  | 0, _ => []
  | count + 1, bytes =>
    match extent bytes with
    | .error _ => []
    | .ok e => bytes.take e.total :: itemsUpTo count (bytes.drop e.total)

/-- The items of the list at the front of `bytes`, up to the first that cannot be read. The first
item has to lie in the list's payload; the ones after it are read on from where it ends. -/
def listItems (bytes : Bytes) : Except DecodeError (List Bytes) :=
  if isList bytes then
    match extent bytes with
    | .error _ => .ok []
    | .ok e =>
      match extent ((bytes.drop e.header).take e.payload) with
      | .error _ => .ok []
      | .ok first =>
        let items := bytes.drop e.header
        .ok (items.take first.total :: itemsUpTo items.length (items.drop first.total))
  else .error .notAList

/-! ## What an item holds -/

def payload (item : Bytes) : Except DecodeError Bytes :=
  (extent item).map fun e => (item.drop e.header).take e.payload

/-- The bytes of a string item. A single byte below `0x80` must be its own item. -/
def string (item : Bytes) : Except DecodeError Bytes :=
  if isList item then .error .notAString
  else match payload item with
    | .error e => .error e
    | .ok bytes =>
      match item, bytes with
      | 0x81 :: _, b :: _ => if b < 0x80 then .error .indirection else .ok bytes
      | _, _ => .ok bytes

/-- The word of a string item: at most eight bytes, the first one not zero. -/
def word (item : Bytes) : Except DecodeError UInt64 :=
  match string item with
  | .error e => .error e
  | .ok bytes =>
    if 8 < bytes.length then .error .tooBig
    else if bytes.head? = some 0 then .error .indirection
    else .ok (UInt64.ofNat (bigEndianNat bytes))

/-- The payload of an item of either kind, if it has width `n`. -/
def octets (n : Nat) (item : Bytes) : Except DecodeError (Octets n) :=
  match payload item with
  | .error e => .error e
  | .ok bytes =>
    match Octets.ofList? n bytes with
    | none => .error .width
    | some a => .ok a

end BlockSeal.Rlp
