/-! # 64-bit arithmetic that stops at the largest value

Times, heights, rates and slot numbers are 64-bit words. Where a sum or a product would not fit,
the result is the largest word; where a difference would be negative, it is zero. Each operation
is pinned down by what it does to the natural number that the word stands for.
-/

set_option autoImplicit false

namespace UInt64

def maxValue : UInt64 := 18446744073709551615

/-- The word nearest to `n`: `n` itself, or the largest word. -/
def capped (n : Nat) : UInt64 := if n < UInt64.size then UInt64.ofNat n else maxValue

/-- The sum, or the largest word if the sum does not fit. -/
def addCapped (a b : UInt64) : UInt64 := capped (a.toNat + b.toNat)

/-- The product, or the largest word if the product does not fit. -/
def mulCapped (a b : UInt64) : UInt64 := capped (a.toNat * b.toNat)

/-- The difference, or zero if it would be negative. -/
def subCapped (a b : UInt64) : UInt64 := if b ≤ a then a - b else 0

theorem toNat_capped (n : Nat) : (capped n).toNat = min n (UInt64.size - 1) := by
  have hs : UInt64.size = 18446744073709551616 := rfl
  unfold capped
  split
  · rename_i h
    rw [UInt64.toNat_ofNat_of_lt' h]
    omega
  · have hm : maxValue.toNat = 18446744073709551615 := by decide
    omega

theorem toNat_addCapped (a b : UInt64) :
    (a.addCapped b).toNat = min (a.toNat + b.toNat) (UInt64.size - 1) := toNat_capped _

theorem toNat_mulCapped (a b : UInt64) :
    (a.mulCapped b).toNat = min (a.toNat * b.toNat) (UInt64.size - 1) := toNat_capped _

theorem toNat_subCapped (a b : UInt64) : (a.subCapped b).toNat = a.toNat - b.toNat := by
  unfold subCapped
  split
  · rename_i h
    exact UInt64.toNat_sub_of_le _ _ h
  · rename_i h
    have : a.toNat < b.toNat := by
      rw [UInt64.le_iff_toNat_le] at h
      omega
    simp only [UInt64.toNat_zero]
    omega

end UInt64
