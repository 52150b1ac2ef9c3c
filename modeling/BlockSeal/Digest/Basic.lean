import BlockSeal.Octets

/-! # What the hash functions share

Rotation of 32-bit words, and the cutting of an input into blocks.
-/

set_option autoImplicit false

namespace UInt32

/-- The word `x` rotated right by `n` bits, for `0 < n < 32`. -/
def rotateRight (x n : UInt32) : UInt32 := (x >>> n) ||| (x <<< (32 - n))

end UInt32

namespace BlockSeal

/-- The first `k` pieces of `n` items of `l`, fewer if `l` runs out; the last one may be short. -/
def pieces {α : Type} (n : Nat) : (k : Nat) → List α → List (List α)
  | 0, _ => []
  | _ + 1, [] => []
  | k + 1, a :: l => (a :: l).take n :: pieces n k ((a :: l).drop n)

def cutEvery {α : Type} (n : Nat) (l : List α) : List (List α) := pieces n l.length l

end BlockSeal
