import BlockSeal.Json.Basic

/-! # Reading JSON

`Json.read?` accepts exactly one document with blanks around its parts. The grammar is the strict
one: no comments, no trailing commas, no leading zeros, no raw control characters in strings. An
escape that spells half of a surrogate pair leaves the document readable, but its string without a
text (`Json.string none`).

The number of steps is bounded by the length of the input, since each step consumes a character.
-/

set_option autoImplicit false

namespace BlockSeal.Json

/-! ## Blanks and literals -/

/-- Whether a character may stand between two parts of a document. -/
def isBlank (c : Char) : Bool := c = ' ' || c = '\t' || c = '\n' || c = '\r'

def skipBlanks (cs : List Char) : List Char := cs.dropWhile isBlank

/-- The input after `word`, if it starts with that word. -/
def expect : (word : List Char) → List Char → Option (List Char)
  | [], cs => some cs
  | w :: word, c :: cs => if w = c then expect word cs else none
  | _ :: _, [] => none

/-! ## Strings -/

def hexValue? (c : Char) : Option Nat :=
  if '0' ≤ c ∧ c ≤ '9' then some (c.toNat - 48)
  else if 'a' ≤ c ∧ c ≤ 'f' then some (c.toNat - 87)
  else if 'A' ≤ c ∧ c ≤ 'F' then some (c.toNat - 55)
  else none

/-- A part of a string: a character, or one half of a surrogate pair. -/
inductive StringPart
  | char (c : Char)
  | half (n : Nat)

/-- The part that a number of four hexadecimal digits stands for. -/
def partOf (n : Nat) : StringPart := if 0xd800 ≤ n ∧ n < 0xe000 then .half n else .char (Char.ofNat n)

/-- The parts of a string up to the closing quote, and the input after it. -/
def readParts : List Char → Option (List StringPart × List Char)
  | [] => none
  | '"' :: rest => some ([], rest)
  | '\\' :: 'u' :: a :: b :: c :: d :: rest =>
    match hexValue? a, hexValue? b, hexValue? c, hexValue? d with
    | some a, some b, some c, some d =>
      (readParts rest).map fun (parts, rest) =>
        (partOf (((a * 16 + b) * 16 + c) * 16 + d) :: parts, rest)
    | _, _, _, _ => none
  | '\\' :: e :: rest =>
    let plain : Option Char :=
      if e = '"' ∨ e = '\\' ∨ e = '/' then some e
      else if e = 'b' then some (Char.ofNat 8)
      else if e = 'f' then some (Char.ofNat 12)
      else if e = 'n' then some '\n'
      else if e = 'r' then some '\r'
      else if e = 't' then some '\t'
      else none
    match plain with
    | none => none
    | some c => (readParts rest).map fun (parts, rest) => (.char c :: parts, rest)
  | c :: rest =>
    if c.toNat < 32 ∨ c = '\\' then none
    else (readParts rest).map fun (parts, rest) => (.char c :: parts, rest)

/-- The text that the parts spell; half of a surrogate pair alone spells none. -/
def joinParts : List StringPart → Option (List Char)
  | [] => some []
  | .char c :: rest => (joinParts rest).map (c :: ·)
  | .half h :: .half l :: rest =>
    if h < 0xdc00 ∧ 0xdc00 ≤ l then
      (joinParts rest).map (Char.ofNat (0x10000 + (h - 0xd800) * 0x400 + (l - 0xdc00)) :: ·)
    else none
  | .half _ :: _ => none

/-- The string after an opening quote, and the input after it. -/
def readString (cs : List Char) : Option (Option String × List Char) :=
  (readParts cs).map fun (parts, rest) => ((joinParts parts).map String.ofList, rest)

/-! ## Numbers -/

/-- The digits at the front of the input, at least one, and the input after them. -/
def readDigits (cs : List Char) : Option (List Char × List Char) :=
  match cs.takeWhile Char.isDigit with
  | [] => none
  | digits => some (digits, cs.dropWhile Char.isDigit)

/-- The whole part of a number: no digit may follow a leading zero. -/
def readWhole (cs : List Char) : Option (List Char × List Char) :=
  match readDigits cs with
  | some ('0' :: _ :: _, _) => none
  | result => result

def readFraction : List Char → Option (List Char × List Char)
  | '.' :: cs => (readDigits cs).map fun (digits, rest) => ('.' :: digits, rest)
  | cs => some ([], cs)

def readSign : List Char → List Char × List Char
  | '+' :: cs => (['+'], cs)
  | '-' :: cs => (['-'], cs)
  | cs => ([], cs)

def readExponent : List Char → Option (List Char × List Char)
  | [] => some ([], [])
  | c :: cs =>
    if c = 'e' ∨ c = 'E' then
      let (sign, cs) := readSign cs
      (readDigits cs).map fun (digits, rest) => (c :: (sign ++ digits), rest)
    else some ([], c :: cs)

def readNumber (cs : List Char) : Option (List Char × List Char) := do
  let (minus, cs) := match cs with
    | '-' :: cs => (['-'], cs)
    | cs => ([], cs)
  let (whole, cs) ← readWhole cs
  let (fraction, cs) ← readFraction cs
  let (exponent, cs) ← readExponent cs
  return (minus ++ whole ++ fraction ++ exponent, cs)

/-! ## Documents -/

mutual

def readValue : (steps : Nat) → List Char → Option (Json × List Char)
  | 0, _ => none
  | steps + 1, cs =>
    match skipBlanks cs with
    | [] => none
    | '"' :: cs => (readString cs).map fun (s, rest) => (string s, rest)
    | '[' :: cs =>
      match skipBlanks cs with
      | ']' :: rest => some (array [], rest)
      | cs => (readItems steps cs).map fun (items, rest) => (array items, rest)
    | '\x7b' :: cs =>
      match skipBlanks cs with
      | '\x7d' :: rest => some (object [], rest)
      | cs => (readMembers steps cs).map fun (members, rest) => (object members, rest)
    | 'n' :: cs => (expect ['u', 'l', 'l'] cs).map fun rest => (null, rest)
    | 't' :: cs => (expect ['r', 'u', 'e'] cs).map fun rest => (bool true, rest)
    | 'f' :: cs => (expect ['a', 'l', 's', 'e'] cs).map fun rest => (bool false, rest)
    | cs => (readNumber cs).map fun (digits, rest) => (number digits, rest)

/-- The items of an array up to its closing bracket, at least one. -/
def readItems : (steps : Nat) → List Char → Option (List Json × List Char)
  | 0, _ => none
  | steps + 1, cs =>
    match readValue steps cs with
    | none => none
    | some (item, cs) =>
      match skipBlanks cs with
      | ',' :: cs => (readItems steps cs).map fun (items, rest) => (item :: items, rest)
      | ']' :: rest => some ([item], rest)
      | _ => none

/-- The members of an object up to its closing brace, at least one. -/
def readMembers : (steps : Nat) → List Char → Option (List (Option String × Json) × List Char)
  | 0, _ => none
  | steps + 1, cs =>
    match skipBlanks cs with
    | '"' :: cs =>
      match readString cs with
      | none => none
      | some (name, cs) =>
        match skipBlanks cs with
        | ':' :: cs =>
          match readValue steps cs with
          | none => none
          | some (value, cs) =>
            match skipBlanks cs with
            | ',' :: cs =>
              (readMembers steps cs).map fun (members, rest) => ((name, value) :: members, rest)
            | '\x7d' :: rest => some ([(name, value)], rest)
            | _ => none
        | _ => none
    | _ => none

end

def read? (s : String) : Option Json :=
  let cs := s.toList
  match readValue (2 * cs.length + 1) cs with
  | some (j, rest) => if skipBlanks rest = [] then some j else none
  | none => none

end BlockSeal.Json
