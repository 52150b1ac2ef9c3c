import BlockSeal.Octets

/-! # JSON documents

* `Json`: a document. A string keeps its text, or nothing if its escapes spell no text; a number
  keeps its digits, so that no value is rounded.
* `Json.text`: the document without any blank, members in their order.
* `Json.ofWord`, `Json.ofBytes`: numbers and arrays of numbers.
-/

set_option autoImplicit false

namespace BlockSeal

/-- A JSON document. -/
inductive Json
  | null
  | bool (b : Bool)
  | number (digits : List Char)
  | string (text : Option String)
  | array (items : List Json)
  | object (members : List (Option String × Json))
deriving Inhabited

namespace Json

/-! ## Building documents -/

def ofString (s : String) : Json := string (some s)

def ofNat (n : Nat) : Json := number (Nat.toDigits 10 n)

def ofWord (w : UInt64) : Json := ofNat w.toNat

/-- An array of the numbers of the bytes. -/
def ofBytes (l : Bytes) : Json := array (l.map fun b => ofNat b.toNat)

def ofMembers (members : List (String × Json)) : Json :=
  object (members.map fun (name, value) => (some name, value))

/-! ## Printing -/

def escaped (c : Char) : List Char :=
  if c = '"' then ['\\', '"']
  else if c = '\\' then ['\\', '\\']
  else if c = '\n' then ['\\', 'n']
  else if c = '\r' then ['\\', 'r']
  else if c = '\t' then ['\\', 't']
  else if c.toNat = 8 then ['\\', 'b']
  else if c.toNat = 12 then ['\\', 'f']
  else if c.toNat < 32 then
    ['\\', 'u', '0', '0', Nat.digitChar (c.toNat / 16), Nat.digitChar (c.toNat % 16)]
  else [c]

/-- A text within quotes; a string that spells no text has none to print. -/
def quoted (s : Option String) : List Char :=
  '"' :: ((s.getD "").toList.flatMap escaped ++ ['"'])

mutual

def chars : Json → List Char
  | null => ['n', 'u', 'l', 'l']
  | bool true => ['t', 'r', 'u', 'e']
  | bool false => ['f', 'a', 'l', 's', 'e']
  | number digits => digits
  | string s => quoted s
  | array items => '[' :: (itemChars items ++ [']'])
  | object members => '\x7b' :: (memberChars members ++ ['\x7d'])

def itemChars : List Json → List Char
  | [] => []
  | item :: [] => chars item
  | item :: next :: rest => chars item ++ ',' :: itemChars (next :: rest)

def memberChars : List (Option String × Json) → List Char
  | [] => []
  | (name, value) :: [] => quoted name ++ ':' :: chars value
  | (name, value) :: next :: rest =>
    quoted name ++ ':' :: (chars value ++ ',' :: memberChars (next :: rest))

end

def text (j : Json) : String := String.ofList (chars j)

end Json

end BlockSeal
