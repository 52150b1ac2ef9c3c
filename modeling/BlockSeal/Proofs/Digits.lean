import BlockSeal.Octets
import Mathlib.Algebra.Order.Ring.Nat
import Mathlib.Data.List.Induction
import Mathlib.Tactic.Ring

/-! # Base-256 digits and the numbers they spell

* `bigEndianNat_bigEndian`, `bigEndian_bigEndianNat`: writing a number with a given number of
  digits and reading it are inverse to each other.
* `minimalBigEndian_bigEndianNat`: digits without a leading zero are the only minimal ones of
  their number, so the minimal form of a word can be recognised by its first digit.
-/

set_option autoImplicit false

namespace BlockSeal

/-! ## Reading -/

@[simp] theorem bigEndianNat_nil : bigEndianNat [] = 0 := rfl

theorem bigEndianNat_concat (l : Bytes) (b : UInt8) :
    bigEndianNat (l ++ [b]) = bigEndianNat l * 256 + b.toNat := by
  simp only [bigEndianNat, List.foldl_append, List.foldl_cons, List.foldl_nil]

theorem bigEndianNat_zero_cons (l : Bytes) : bigEndianNat (0 :: l) = bigEndianNat l := by
  simp [bigEndianNat]

theorem bigEndianNat_reverse (l : Bytes) : bigEndianNat l.reverse = littleEndianNat l := by
  induction l with
  | nil => rfl
  | cons b l ih =>
    rw [List.reverse_cons, bigEndianNat_concat, ih]
    simp only [littleEndianNat, List.foldr_cons]
    omega

theorem bigEndianNat_lt (l : Bytes) : bigEndianNat l < 256 ^ l.length := by
  induction l using List.reverseRecOn with
  | nil => simp
  | append_singleton l b ih =>
    have hb : b.toNat < 256 := b.toNat_lt
    rw [bigEndianNat_concat, List.length_append, List.length_singleton, pow_succ]
    omega

theorem bigEndianNat_cons (b : UInt8) (l : Bytes) :
    bigEndianNat (b :: l) = b.toNat * 256 ^ l.length + bigEndianNat l := by
  induction l using List.reverseRecOn with
  | nil => simp [bigEndianNat]
  | append_singleton l c ih =>
    rw [← List.cons_append, bigEndianNat_concat, ih, bigEndianNat_concat, List.length_append,
      List.length_singleton, pow_succ]
    ring

theorem bigEndianNat_replicate_zero (k : ℕ) (l : Bytes) :
    bigEndianNat (List.replicate k 0 ++ l) = bigEndianNat l := by
  induction k with
  | zero => rfl
  | succ k ih => rw [List.replicate_succ, List.cons_append, bigEndianNat_zero_cons, ih]

theorem bigEndianNat_dropWhile_zero (l : Bytes) :
    bigEndianNat (l.dropWhile (· == 0)) = bigEndianNat l := by
  induction l with
  | nil => rfl
  | cons b l ih =>
    rw [List.dropWhile_cons]
    split
    · rename_i hb
      rw [beq_iff_eq] at hb
      rw [ih, hb, bigEndianNat_zero_cons]
    · rfl

/-! ## Writing and reading -/

theorem littleEndianNat_littleEndian (width value : ℕ) :
    littleEndianNat (littleEndian width value) = value % 256 ^ width := by
  induction width generalizing value with
  | zero => simp [littleEndian, littleEndianNat, Nat.mod_one]
  | succ width ih =>
    have hd : (UInt8.ofNat value).toNat = value % 256 := UInt8.toNat_ofNat'
    have hr : littleEndianNat (littleEndian (width + 1) value) =
        (UInt8.ofNat value).toNat + 256 * littleEndianNat (littleEndian width (value / 256)) := rfl
    rw [hr, ih, hd, pow_succ', Nat.mod_mul]

theorem littleEndian_littleEndianNat (l : Bytes) : littleEndian l.length (littleEndianNat l) = l := by
  induction l with
  | nil => rfl
  | cons b l ih =>
    have hb : b.toNat < 256 := b.toNat_lt
    have hr : littleEndianNat (b :: l) = b.toNat + 256 * littleEndianNat l := rfl
    have hq : (b.toNat + 256 * littleEndianNat l) / 256 = littleEndianNat l := by omega
    have hd : UInt8.ofNat (b.toNat + 256 * littleEndianNat l) = b := by
      apply UInt8.toNat_inj.1
      rw [UInt8.toNat_ofNat']
      omega
    rw [hr, List.length_cons, littleEndian, hq, ih, hd]

theorem bigEndianNat_bigEndian (width value : ℕ) :
    bigEndianNat (bigEndian width value) = value % 256 ^ width := by
  rw [bigEndian, bigEndianNat_reverse, littleEndianNat_littleEndian]

/-- A byte string is what its number is written as with that many digits. -/
theorem bigEndian_bigEndianNat (l : Bytes) : bigEndian l.length (bigEndianNat l) = l := by
  have h := littleEndian_littleEndianNat l.reverse
  rw [List.length_reverse, ← bigEndianNat_reverse, List.reverse_reverse] at h
  rw [bigEndian, h, List.reverse_reverse]

/-! ## Minimal digits -/

theorem bigEndianNat_minimalBigEndian (w : UInt64) : bigEndianNat (minimalBigEndian w) = w.toNat := by
  have hw : w.toNat < 256 ^ 8 := w.toNat_lt
  rw [minimalBigEndian, bigEndianNat_dropWhile_zero, bigEndianNat_bigEndian, Nat.mod_eq_of_lt hw]

theorem length_minimalBigEndian_le (w : UInt64) : (minimalBigEndian w).length ≤ 8 := by
  have h := (List.dropWhile_sublist (· == (0 : UInt8)) (l := bigEndian 8 w.toNat)).length_le
  rwa [length_bigEndian] at h

theorem head?_minimalBigEndian (w : UInt64) : (minimalBigEndian w).head? ≠ some 0 := by
  intro h
  have := List.head?_dropWhile_not (· == (0 : UInt8)) (bigEndian 8 w.toNat)
  rw [← minimalBigEndian, h] at this
  simp at this

/-- The digits of a number, padded with zeros, lose exactly the padding again. -/
theorem minimalBigEndian_bigEndianNat {l : Bytes} (hl : l.length ≤ 8) (h0 : l.head? ≠ some 0) :
    minimalBigEndian (UInt64.ofNat (bigEndianNat l)) = l := by
  have hlt : bigEndianNat l < 256 ^ 8 :=
    (bigEndianNat_lt l).trans_le (Nat.pow_le_pow_right (by omega) hl)
  have hw : (UInt64.ofNat (bigEndianNat l)).toNat = bigEndianNat l := UInt64.toNat_ofNat_of_lt' hlt
  have hpad : bigEndian 8 (bigEndianNat l) = List.replicate (8 - l.length) 0 ++ l := by
    have h := bigEndian_bigEndianNat (List.replicate (8 - l.length) 0 ++ l)
    rwa [bigEndianNat_replicate_zero, List.length_append, List.length_replicate,
      Nat.sub_add_cancel hl] at h
  rw [minimalBigEndian, hw, hpad, List.dropWhile_append_of_pos (by simp)]
  cases l with
  | nil => rfl
  | cons b l =>
    have hb : b ≠ 0 := fun hb => h0 (by rw [hb]; rfl)
    simp [hb]

theorem length_minimalBigEndian_pos {n : ℕ} (hn : 0 < n) (hs : n < UInt64.size) :
    0 < (minimalBigEndian (UInt64.ofNat n)).length := by
  apply List.length_pos_iff.2
  intro h
  have hv := bigEndianNat_minimalBigEndian (UInt64.ofNat n)
  rw [h, bigEndianNat_nil, UInt64.toNat_ofNat_of_lt' hs] at hv
  omega

end BlockSeal
