import BlockSeal.Pow.Target
import BlockSeal.Proofs.Digits

/-! # Targets as numbers

* `dictionaryLe_iff`: byte strings of one length are ordered as the numbers that they spell.
* `meetsTarget_iff`: so a result meets a target when its number is at most the target's.
-/

set_option autoImplicit false

namespace BlockSeal

theorem dictionaryLe_iff {l m : Bytes} (h : l.length = m.length) :
    dictionaryLe l m = true ↔ bigEndianNat l ≤ bigEndianNat m := by
  induction l generalizing m with
  | nil =>
    cases m with
    | nil => simp [dictionaryLe]
    | cons b m => simp at h
  | cons a l ih =>
    cases m with
    | nil => simp at h
    | cons b m =>
      have hlen : l.length = m.length := by simpa using h
      have hl := bigEndianNat_lt l
      have hm := bigEndianNat_lt m
      rw [bigEndianNat_cons, bigEndianNat_cons, hlen]
      rw [hlen] at hl
      simp only [dictionaryLe, Bool.or_eq_true, Bool.and_eq_true, decide_eq_true_eq, beq_iff_eq,
        ih hlen, UInt8.lt_iff_toNat_lt, ← UInt8.toNat_inj]
      -- The first digits decide, unless they are the same.
      rcases Nat.lt_trichotomy a.toNat b.toNat with hlt | heq | hgt
      · have hstep := Nat.mul_le_mul_right (256 ^ m.length) (Nat.succ_le_of_lt hlt)
        rw [Nat.succ_mul] at hstep
        omega
      · rw [heq]
        omega
      · have hstep := Nat.mul_le_mul_right (256 ^ m.length) (Nat.succ_le_of_lt hgt)
        rw [Nat.succ_mul] at hstep
        omega

theorem meetsTarget_iff (result target : Hash) :
    meetsTarget result target = true ↔ bigEndianNat result.toList ≤ bigEndianNat target.toList :=
  dictionaryLe_iff (result.length_toList.trans target.length_toList.symm)

theorem targetFor_of_ne_zero {difficulty : UInt64} (h : difficulty ≠ 0) :
    ∃ target, targetFor difficulty = .ok target := by
  rw [targetFor, if_neg h]
  exact ⟨_, rfl⟩

end BlockSeal
