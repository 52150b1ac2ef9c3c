import BlockSeal.Epoch.Info
import Mathlib.Algebra.Order.Ring.Nat

/-! # The times of slots as numbers

* `toNat_slotWindow_start`, `toNat_slotWindow_stop`: the bounds of a slot are those of the slot in
  a schedule without a largest time, each cut off there once.
* `turnAt_eq_some`: the slot that a time falls into has a validator, and the time lies in its
  window.
-/

set_option autoImplicit false

namespace BlockSeal.EpochInfo

theorem toNat_slotWindow_start (info : EpochInfo) (turn : UInt64) :
    (info.slotWindow turn).start.toNat =
      min (info.epochStart.toNat + turn.toNat * info.slotDuration.toNat) (UInt64.size - 1) := by
  simp only [slotWindow, UInt64.toNat_addCapped, UInt64.toNat_mulCapped]
  omega

theorem toNat_slotWindow_stop (info : EpochInfo) (turn : UInt64) :
    (info.slotWindow turn).stop.toNat =
      min (info.epochStart.toNat + (turn.toNat + 1) * info.slotDuration.toNat) (UInt64.size - 1) := by
  have h : (info.slotWindow turn).stop.toNat =
      min ((info.slotWindow turn).start.toNat + info.slotDuration.toNat) (UInt64.size - 1) :=
    UInt64.toNat_addCapped _ _
  rw [h, toNat_slotWindow_start, Nat.succ_mul]
  omega

theorem toNat_width (info : EpochInfo) : info.width.toNat =
    min (info.slotDuration.toNat * min info.validators.length (UInt64.size - 1)) (UInt64.size - 1) := by
  rw [width, UInt64.toNat_mulCapped, UInt64.toNat_capped]

theorem covers_iff (info : EpochInfo) (time : UInt64) : info.covers time = true ↔
    info.epochStart.toNat ≤ time.toNat ∧
      time.toNat < min (info.epochStart.toNat + info.width.toNat) (UInt64.size - 1) := by
  simp only [covers, Window.contains, window, Bool.and_eq_true, decide_eq_true_eq,
    UInt64.le_iff_toNat_le, UInt64.lt_iff_toNat_lt, UInt64.toNat_addCapped]

/-- The slot that a time falls into is one that has a validator, and the time lies in its window. -/
theorem turnAt_eq_some {info : EpochInfo} {time turn : UInt64} (h : info.turnAt time = some turn) :
    turn.toNat < info.validators.length ∧
      (info.slotWindow turn).start.toNat ≤ time.toNat ∧
      time.toNat < (info.slotWindow turn).stop.toNat := by
  unfold turnAt at h
  split at h
  swap
  · cases h
  rename_i hcovers
  obtain ⟨hstart, hstop⟩ := (info.covers_iff time).1 hcovers
  rw [toNat_width] at hstop
  have hpos : 0 < info.slotDuration.toNat := by
    rcases Nat.eq_zero_or_pos info.slotDuration.toNat with h0 | h0
    · rw [h0, Nat.zero_mul] at hstop
      omega
    · exact h0
  have hturn : turn.toNat = (time.toNat - info.epochStart.toNat) / info.slotDuration.toNat := by
    have hsub := UInt64.toNat_sub_of_le _ _ (UInt64.le_iff_toNat_le.2 hstart)
    change some ((time - info.epochStart) /
      (if info.slotDuration ≤ 1 then 1 else info.slotDuration)) = some turn at h
    rw [Option.some.injEq] at h
    rw [← h, UInt64.toNat_div, hsub]
    split
    · rename_i hle
      rw [UInt64.le_iff_toNat_le, UInt64.toNat_one] at hle
      rw [UInt64.toNat_one, show info.slotDuration.toNat = 1 by omega]
    · rfl
  have hlow : turn.toNat * info.slotDuration.toNat ≤ time.toNat - info.epochStart.toNat := by
    rw [hturn]
    exact Nat.div_mul_le_self _ _
  have hhigh : time.toNat - info.epochStart.toNat < (turn.toNat + 1) * info.slotDuration.toNat := by
    rw [hturn]
    exact (Nat.div_lt_iff_lt_mul hpos).1 (Nat.lt_succ_self _)
  refine ⟨?_, ?_, ?_⟩
  · have hlt : turn.toNat * info.slotDuration.toNat <
        info.validators.length * info.slotDuration.toNat := by
      have hle := Nat.mul_le_mul_left info.slotDuration.toNat
        (Nat.min_le_left info.validators.length (UInt64.size - 1))
      rw [Nat.mul_comm info.validators.length]
      omega
    exact Nat.lt_of_mul_lt_mul_right hlt
  · rw [toNat_slotWindow_start]
    omega
  · rw [toNat_slotWindow_stop]
    omega

end BlockSeal.EpochInfo
