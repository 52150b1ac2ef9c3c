import BlockSeal.Proofs.Pow.Target
import BlockSeal.Word

/-! # Targets are exact

The division of a target's digits goes byte by byte. Each step divides a number below 256 times the
divisor, so its quotient is one byte, and the bytes together are the quotient of the whole number.

* `DivisionStep`, `divisionSteps`: the numbers in a division; `divideBytes_eq_map_steps`: its digits
  are their quotients. `lt_of_mem_divisionSteps`: none of them grows past the divisor and one byte.
* `divideBytes_spec`: quotient and remainder of the number that the digits spell.
* `bigEndianNat_targetFor`, `meetsTarget_targetFor_iff`: what a target is, and which results meet it.
* `targetFor_exact`: all of this for any difficulty but zero.
-/

set_option autoImplicit false

namespace BlockSeal

variable {divisor remainder : ℕ} {digits : Bytes}

/-! ## Steps of a division -/

/-- The numbers in one step of a division on paper. -/
structure DivisionStep where
  /-- What is divided: the remainder so far, with the next digit behind it. -/
  value : ℕ
  quotient : ℕ
  remainder : ℕ

/-- The steps of `divideBytes`, with nothing cut off. -/
def divisionSteps (divisor : ℕ) : (remainder : ℕ) → (digits : Bytes) → List DivisionStep
  | _, [] => []
  | remainder, digit :: digits =>
    let value := remainder * 256 + digit.toNat
    { value := value, quotient := value / divisor, remainder := value % divisor } ::
      divisionSteps divisor (value % divisor) digits

theorem divideBytes_eq_map_steps (divisor remainder : ℕ) (digits : Bytes) :
    (divideBytes divisor remainder digits).1 =
      (divisionSteps divisor remainder digits).map fun step => UInt8.ofNat step.quotient := by
  induction digits generalizing remainder with
  | nil => rfl
  | cons digit digits ih =>
    simp only [divideBytes, divisionSteps, List.map_cons, ih]

/-- A remainder with one digit more is below the divisor with one digit more. -/
theorem mul_add_digit_lt (h : remainder < divisor) (digit : UInt8) :
    remainder * 256 + digit.toNat < divisor * 256 := by
  have hdigit : digit.toNat < 256 := digit.toNat_lt
  omega

theorem quotient_lt (h : remainder < divisor) (digit : UInt8) :
    (remainder * 256 + digit.toNat) / divisor < 256 :=
  Nat.div_lt_of_lt_mul (mul_add_digit_lt h digit)

theorem lt_of_mem_divisionSteps (h : remainder < divisor) {step : DivisionStep}
    (hstep : step ∈ divisionSteps divisor remainder digits) :
    step.value < divisor * 256 ∧ step.quotient < 256 ∧ step.remainder < divisor := by
  induction digits generalizing remainder with
  | nil => cases hstep
  | cons digit digits ih =>
    have hrest : (remainder * 256 + digit.toNat) % divisor < divisor := Nat.mod_lt _ (by omega)
    rcases List.mem_cons.1 hstep with rfl | hstep
    · exact ⟨mul_add_digit_lt h digit, quotient_lt h digit, hrest⟩
    · exact ih hrest hstep

/-! ## The whole number -/

/-- The digits spell the quotient of the number that the remainder and the digits spelled. -/
theorem divideBytes_spec (digits : Bytes) (h : remainder < divisor) :
    bigEndianNat (divideBytes divisor remainder digits).1 * divisor +
        (divideBytes divisor remainder digits).2 =
      remainder * 256 ^ digits.length + bigEndianNat digits ∧
    (divideBytes divisor remainder digits).2 < divisor := by
  induction digits generalizing remainder with
  | nil => simpa [divideBytes] using h
  | cons digit digits ih =>
    have hbelow : (remainder * 256 + digit.toNat) % divisor < divisor := Nat.mod_lt _ (by omega)
    obtain ⟨hrest, hlast⟩ := ih hbelow
    have hbyte : (UInt8.ofNat ((remainder * 256 + digit.toNat) / divisor)).toNat =
        (remainder * 256 + digit.toNat) / divisor :=
      UInt8.toNat_ofNat_of_lt' (quotient_lt h digit)
    have hdivide := Nat.div_add_mod (remainder * 256 + digit.toNat) divisor
    refine ⟨?_, hlast⟩
    simp only [divideBytes, bigEndianNat_cons, hbyte, length_divideBytes, List.length_cons]
    generalize divideBytes divisor ((remainder * 256 + digit.toNat) % divisor) digits = rest
      at hrest ⊢
    generalize (remainder * 256 + digit.toNat) / divisor = quotient at hdivide ⊢
    calc (quotient * 256 ^ digits.length + bigEndianNat rest.1) * divisor + rest.2
        = divisor * quotient * 256 ^ digits.length +
            (bigEndianNat rest.1 * divisor + rest.2) := by ring
      _ = (divisor * quotient + (remainder * 256 + digit.toNat) % divisor) *
            256 ^ digits.length + bigEndianNat digits := by rw [hrest]; ring
      _ = remainder * 256 ^ (digits.length + 1) +
            (digit.toNat * 256 ^ digits.length + bigEndianNat digits) := by rw [hdivide]; ring

theorem bigEndianNat_divideBytes (digits : Bytes) (h : 0 < divisor) :
    bigEndianNat (divideBytes divisor 0 digits).1 = bigEndianNat digits / divisor := by
  obtain ⟨hvalue, hlast⟩ := divideBytes_spec digits h
  rw [Nat.zero_mul, Nat.zero_add] at hvalue
  exact ((Nat.div_mod_unique h).2 ⟨by rw [← hvalue]; ring, hlast⟩).1.symm

/-! ## Targets -/

variable {difficulty : UInt64} {target : Hash}

theorem targetFor_eq_ok_iff : targetFor difficulty = .ok target ↔ difficulty ≠ 0 ∧
    target.toList = (divideBytes difficulty.toNat 0 (List.replicate 32 255)).1 := by
  rw [targetFor]
  split
  · rename_i hzero
    simp [hzero]
  · rename_i hpositive
    rw [Except.ok.injEq, Octets.ext_iff, eq_comm]
    simp [hpositive]

theorem toNat_pos (h : difficulty ≠ 0) : 0 < difficulty.toNat :=
  Nat.pos_of_ne_zero fun hzero => h (UInt64.toNat_inj.1 hzero)

/-- A target is the largest 256-bit number divided by the difficulty, rounded down. -/
theorem bigEndianNat_targetFor (h : targetFor difficulty = .ok target) :
    bigEndianNat target.toList = (2 ^ 256 - 1) / difficulty.toNat := by
  obtain ⟨hdifficulty, htarget⟩ := targetFor_eq_ok_iff.1 h
  have hall : bigEndianNat (List.replicate 32 255) = 2 ^ 256 - 1 := by decide
  rw [htarget, bigEndianNat_divideBytes _ (toNat_pos hdifficulty), hall]

theorem meetsTarget_targetFor_iff (h : targetFor difficulty = .ok target) (result : Hash) :
    meetsTarget result target = true ↔
      bigEndianNat result.toList * difficulty.toNat < 2 ^ 256 := by
  have hpos := toNat_pos (targetFor_eq_ok_iff.1 h).1
  rw [meetsTarget_iff, bigEndianNat_targetFor h, Nat.le_div_iff_mul_le hpos]
  omega

/-- **Targets are exact.** Any difficulty but zero has a target. It is the largest 256-bit number
divided by the difficulty and rounded down, in 32 bytes. These are the quotients of the steps in which
it is divided: each of them is one byte, and no number in a step is larger than 72 bits. A result meets
the target exactly when its product with the difficulty is below `2 ^ 256`. So what meets one
difficulty meets every smaller one. -/
theorem targetFor_exact (h : difficulty ≠ 0) : ∃ target, targetFor difficulty = .ok target ∧
    target.toList = bigEndian 32 ((2 ^ 256 - 1) / difficulty.toNat) ∧
    bigEndianNat target.toList = (2 ^ 256 - 1) / difficulty.toNat ∧
    target.toList = (divisionSteps difficulty.toNat 0 (List.replicate 32 255)).map
      (fun step => UInt8.ofNat step.quotient) ∧
    (∀ step ∈ divisionSteps difficulty.toNat 0 (List.replicate 32 255),
      step.quotient < 256 ∧ step.remainder < difficulty.toNat ∧ step.value < 2 ^ 72) ∧
    (∀ result, meetsTarget result target = true ↔
      bigEndianNat result.toList * difficulty.toNat < 2 ^ 256) ∧
    ∀ smaller, smaller ≠ 0 → smaller ≤ difficulty → ∃ easier, targetFor smaller = .ok easier ∧
      ∀ result, meetsTarget result target = true → meetsTarget result easier = true := by
  obtain ⟨target, htarget⟩ := targetFor_of_ne_zero h
  have hnumber := bigEndianNat_targetFor htarget
  refine ⟨target, htarget, ?_, hnumber, ?_, ?_, meetsTarget_targetFor_iff htarget, ?_⟩
  · have hdigits := bigEndian_bigEndianNat target.toList
    rw [target.length_toList, hnumber] at hdigits
    exact hdigits.symm
  · rw [(targetFor_eq_ok_iff.1 htarget).2, divideBytes_eq_map_steps]
  · intro step hstep
    obtain ⟨hvalue, hquotient, hremainder⟩ := lt_of_mem_divisionSteps (toNat_pos h) hstep
    have hword : difficulty.toNat < 2 ^ 64 := difficulty.toNat_lt
    exact ⟨hquotient, hremainder, by omega⟩
  · intro smaller hsmaller hle
    obtain ⟨easier, heasier⟩ := targetFor_of_ne_zero hsmaller
    refine ⟨easier, heasier, fun result hmeets => ?_⟩
    rw [meetsTarget_targetFor_iff htarget] at hmeets
    rw [meetsTarget_targetFor_iff heasier]
    have hproduct := Nat.mul_le_mul_left (bigEndianNat result.toList)
      (UInt64.le_iff_toNat_le.1 hle)
    omega

/-- The largest difficulty. -/
theorem targetFor_maxValue : UInt64.maxValue ≠ 0 ∧ ∃ target,
    targetFor UInt64.maxValue = .ok target ∧
    bigEndianNat target.toList = 2 ^ 192 + 2 ^ 128 + 2 ^ 64 + 1 ∧
    meetsTarget target target = true ∧ meetsTarget (Octets.replicate 32 1) target = false := by
  have h : UInt64.maxValue ≠ 0 := by decide
  obtain ⟨target, htarget, -, hnumber, -, -, hmeets, -⟩ := targetFor_exact h
  have hmax : UInt64.maxValue.toNat = 2 ^ 64 - 1 := by decide
  rw [hmax] at hnumber hmeets
  refine ⟨h, target, htarget, by rw [hnumber]; norm_num, ?_, ?_⟩
  · rw [hmeets, hnumber]
    norm_num
  · rw [Bool.eq_false_iff, ne_eq, hmeets]
    have hresult : bigEndianNat (Octets.replicate 32 1 : Hash).toList = (2 ^ 256 - 1) / 255 := by
      decide
    rw [hresult]
    decide

end BlockSeal
