import BlockSeal.Header
import BlockSeal.Error

/-! # Difficulty targets

* `targetFor`: the largest 256-bit number divided by the difficulty, rounded down, in 32 bytes.
* `meetsTarget`: whether a result is at most the target.

The division goes byte by byte as on paper (`divideBytes`), so that no number ever grows past the
difficulty and one byte.
-/

set_option autoImplicit false

namespace BlockSeal

/-- The quotient digits and the remainder of the number that `remainder` and then `digits` spell,
divided by `divisor`. -/
def divideBytes (divisor : Nat) : (remainder : Nat) → (digits : Bytes) → Bytes × Nat
  | remainder, [] => ([], remainder)
  | remainder, digit :: digits =>
    let value := remainder * 256 + digit.toNat
    let (quotient, last) := divideBytes divisor (value % divisor) digits
    (UInt8.ofNat (value / divisor) :: quotient, last)

theorem length_divideBytes (divisor remainder : Nat) (digits : Bytes) :
    (divideBytes divisor remainder digits).1.length = digits.length := by
  induction digits generalizing remainder with
  | nil => rfl
  | cons digit digits ih => simp [divideBytes, ih]

/-- The target of a difficulty, which must not be zero. -/
def targetFor (difficulty : UInt64) : Except Error Hash :=
  if difficulty = 0 then .error .invalidDifficulty
  else .ok ⟨(divideBytes difficulty.toNat 0 (List.replicate 32 255)).1, by
    simp [length_divideBytes]⟩

/-- Whether the first byte string comes before the second in a dictionary, or is the same. -/
def dictionaryLe : Bytes → Bytes → Bool
  | [], _ => true
  | _ :: _, [] => false
  | a :: l, b :: m => a < b || (a == b && dictionaryLe l m)

/-- Whether `result`, read most significant byte first, is at most `target`. -/
def meetsTarget (result target : Hash) : Bool := dictionaryLe result.toList target.toList

end BlockSeal
