/-! # Byte strings of fixed width and the numbers they spell

* `Bytes`: byte strings of any length; `utf8` makes one of a text.
* `Octets n`: byte strings of exactly `n` bytes. The width is part of the type, so a hash, an
  address or a nonce can never be confused with a string of another length.
* `bigEndianNat`: the number that a byte string spells, most significant byte first; the base-256
  digits without a leading zero are `minimalBigEndian`.
-/

set_option autoImplicit false

namespace BlockSeal

/-- Byte strings. -/
abbrev Bytes := List UInt8

/-- The bytes of some characters in UTF-8. -/
def utf8 (cs : List Char) : Bytes := cs.flatMap String.utf8EncodeChar

/-- Byte strings of width `n`. -/
structure Octets (n : Nat) where
  toList : Bytes
  length_toList : toList.length = n := by simp
deriving DecidableEq

namespace Octets

variable {n : Nat}

@[ext] theorem ext {a b : Octets n} (h : a.toList = b.toList) : a = b := by
  cases a; cases b; cases h; rfl

def ofList? (n : Nat) (l : Bytes) : Option (Octets n) :=
  if h : l.length = n then some ⟨l, h⟩ else none

theorem ofList?_eq_some_iff {l : Bytes} {a : Octets n} : ofList? n l = some a ↔ a.toList = l := by
  unfold ofList?
  split
  · rw [Option.some.injEq, Octets.ext_iff]; exact eq_comm
  · rename_i h
    simp only [reduceCtorEq, false_iff]
    rintro rfl
    exact h a.length_toList

@[simp] theorem ofList?_toList (a : Octets n) : ofList? n a.toList = some a :=
  ofList?_eq_some_iff.2 rfl

def replicate (n : Nat) (b : UInt8) : Octets n := ⟨List.replicate n b, by simp⟩

def zero : Octets n := replicate n 0

instance : Inhabited (Octets n) := ⟨zero⟩

def take (m : Nat) (a : Octets n) (h : m ≤ n := by decide) : Octets m :=
  ⟨a.toList.take m, by simp [a.length_toList, h]⟩

end Octets

/-! ## Numbers spelled by bytes -/

/-- The number that `l` spells, most significant byte first. -/
def bigEndianNat (l : Bytes) : Nat := l.foldl (fun acc b => acc * 256 + b.toNat) 0

/-- The number that `l` spells, least significant byte first. -/
def littleEndianNat (l : Bytes) : Nat := l.foldr (fun b acc => b.toNat + 256 * acc) 0

/-- The `width` low base-256 digits of `value`, least significant first. -/
def littleEndian : (width : Nat) → (value : Nat) → Bytes
  | 0, _ => []
  | width + 1, value => UInt8.ofNat value :: littleEndian width (value / 256)

/-- The `width` low base-256 digits of `value`, most significant first. -/
def bigEndian (width value : Nat) : Bytes := (littleEndian width value).reverse

/-- The base-256 digits of a 64-bit word, most significant first and without a leading zero; none
at all for zero. -/
def minimalBigEndian (value : UInt64) : Bytes := (bigEndian 8 value.toNat).dropWhile (· == 0)

@[simp] theorem length_littleEndian (width value : Nat) :
    (littleEndian width value).length = width := by
  induction width generalizing value with
  | zero => rfl
  | succ width ih => simp [littleEndian, ih]

@[simp] theorem length_bigEndian (width value : Nat) : (bigEndian width value).length = width := by
  simp [bigEndian]

end BlockSeal
