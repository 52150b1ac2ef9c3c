import BlockSeal.Octets

/-! # Byte strings as hexadecimal text

* `Hex.digits`: two lowercase digits for each byte; `Hex.text` puts `0x` before them.
* `Hex.decode`: reads digits of either case, with or without one leading `0x`.
* `Hex.Error`: why a text is no byte string. An odd number of digits is reported before any bad
  digit, and a bad digit is reported by its byte.
* `Hex.number`: a 64-bit number without leading zero bytes, so that zero is the bare `0x`.
-/

set_option autoImplicit false

namespace BlockSeal.Hex

/-! ## Writing -/

def digit (n : UInt8) : Char :=
  if n < 10 then Char.ofUInt8 (n + 0x30) else Char.ofUInt8 (n + 0x57)

def digitList (bytes : Bytes) : List Char :=
  bytes.flatMap fun (b : UInt8) => [digit (b >>> 4), digit (b &&& 15)]

def digits (bytes : Bytes) : String := String.ofList (digitList bytes)

/-- The digits of the bytes after `0x`. -/
def text (bytes : Bytes) : String := String.ofList ('0' :: 'x' :: digitList bytes)

def number (n : UInt64) : String := text (minimalBigEndian n)

/-! ## Reading -/

/-- Why a text is no byte string. -/
inductive Error
  | oddLength
  | badDigit (byte : UInt8) (position : Nat)
deriving DecidableEq

/-- The value of a digit, if the byte is one. -/
def value? (b : UInt8) : Option UInt8 :=
  if 0x30 ≤ b ∧ b ≤ 0x39 then some (b - 0x30)
  else if 0x61 ≤ b ∧ b ≤ 0x66 then some (b - 0x57)
  else if 0x41 ≤ b ∧ b ≤ 0x46 then some (b - 0x37)
  else none

/-- The bytes spelled by pairs of digits, the first of which stands at `position`. -/
def decodePairs : (position : Nat) → Bytes → Except Error Bytes
  | position, high :: low :: rest =>
    match value? high, value? low with
    | none, _ => .error (.badDigit high position)
    | _, none => .error (.badDigit low (position + 1))
    | some h, some l => (decodePairs (position + 2) rest).map ((h <<< 4 ||| l) :: ·)
  | _, _ => .ok []

def withoutMark : List Char → List Char
  | '0' :: 'x' :: rest => rest
  | cs => cs

def decode (s : String) : Except Error Bytes :=
  let bytes := utf8 (withoutMark s.toList)
  if bytes.length % 2 = 1 then .error .oddLength else decodePairs 0 bytes

/-! ## Error texts -/

/-- A byte as the character of its number, between quotes; what cannot be printed is escaped. -/
def quoted (b : UInt8) : String :=
  if b = 0 then "'\\0'"
  else if b = 9 then "'\\t'"
  else if b = 10 then "'\\n'"
  else if b = 13 then "'\\r'"
  else if b = 0x27 then "'\\''"
  else if b = 0x5c then "'\\\\'"
  else if b < 0x20 ∨ (0x7f ≤ b ∧ b ≤ 0xa0) ∨ b = 0xad then
    "'\\u\x7b" ++ String.ofList (Nat.toDigits 16 b.toNat) ++ "\x7d'"
  else "'" ++ String.singleton (Char.ofUInt8 b) ++ "'"

def Error.message : Error → String
  | oddLength => "Odd number of digits"
  | badDigit byte position => s!"Invalid character {quoted byte} at position {position}"

end BlockSeal.Hex
