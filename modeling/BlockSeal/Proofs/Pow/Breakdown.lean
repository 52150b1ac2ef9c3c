import BlockSeal.Proofs.Pow.Datasets
import BlockSeal.Proofs.Pow.Target
import BlockSeal.SealVerifier

/-! # When the proof-of-work function breaks down

The function may break down over a dataset, and on the material over a seal hash and a nonce. Then
there is no verdict. What is left of the verifier depends on how far it came: a dataset that cannot be
made is not kept, and one that is there or was made is kept as after any other use.

* `BreaksDown`: the two ways, each with the verifier that it leaves.
* `compute_eq_none_iff`, `verify_eq_crashed_iff`: when a verifier breaks down, and what is left.
* `SealVerifier.verify_eq_crashed_iff`: verifiers of other modes never do.
-/

set_option autoImplicit false

namespace BlockSeal

namespace PowVerifier

variable {v v' : PowVerifier} {header : Header}

/-- The function breaks down for the dataset of a height, a seal hash and a nonce, and leaves a
verifier. -/
inductive BreaksDown (v : PowVerifier) (number : UInt64) (sealHash : Hash) (nonce : UInt64) :
    PowVerifier → Prop
  /-- The dataset is not there and cannot be made. It was asked for, and the cache is as before. -/
  | generate (hmissing : v.datasets.peek (v.epochOf number) = none)
      (hfailed : v.pow.material (v.epochOf number) = none) :
      BreaksDown v number sealHash nonce { v with
        generated := v.generated ++ [(v.epochOf number, seedHash (v.epochOf number))] }
  /-- There is the material, and nothing can be computed on it. The cache is as its use leaves it. -/
  | compute {material : Bytes} (hmaterial : (v.dataset number).1 = some material)
      (hfailed : v.pow.compute material sealHash nonce = none) :
      BreaksDown v number sealHash nonce (v.dataset number).2

theorem dataset_eq_none {number : UInt64} (h : (v.dataset number).1 = none) :
    v.datasets.peek (v.epochOf number) = none ∧ v.pow.material (v.epochOf number) = none := by
  cases hpeek : v.datasets.peek (v.epochOf number) with
  | some material =>
    rw [dataset_of_peek hpeek] at h
    cases h
  | none =>
    cases hmaterial : v.pow.material (v.epochOf number) with
    | some material =>
      rw [dataset_of_made hpeek hmaterial] at h
      cases h
    | none => exact ⟨rfl, rfl⟩

theorem compute_eq_none_iff {nonce : UInt64} :
    v.compute header nonce = (none, v') ↔
      v.BreaksDown header.number header.sealHash nonce v' := by
  rw [compute_eq, Prod.mk.injEq]
  constructor
  · rintro ⟨hnone, rfl⟩
    cases hdataset : (v.dataset header.number).1 with
    | none =>
      obtain ⟨hmissing, hfailed⟩ := dataset_eq_none hdataset
      rw [dataset_of_failed hmissing hfailed]
      exact .generate hmissing hfailed
    | some material =>
      rw [hdataset] at hnone
      exact .compute hdataset hnone
  · intro hbreaks
    cases hbreaks with
    | generate hmissing hfailed =>
      rw [dataset_of_failed hmissing hfailed]
      exact ⟨rfl, rfl⟩
    | compute hmaterial hfailed =>
      rw [hmaterial]
      exact ⟨hfailed, rfl⟩

theorem judge_ne_crashed (header : Header) (target : Hash) (outcome : Hash × Hash) :
    judge header target outcome ≠ .error .crashed := by
  unfold judge
  split
  · simp
  · split <;> simp

theorem verify_eq_crashed_iff : v.verify header = (.error .crashed, v') ↔
    header.difficulty ≠ 0 ∧
      v.BreaksDown header.number header.sealHash (nonceWord header.nonce) v' := by
  by_cases hzero : header.difficulty = 0
  · rw [verify_of_zero hzero]
    simp [hzero]
  · obtain ⟨target, htarget⟩ := targetFor_of_ne_zero hzero
    rw [← compute_eq_none_iff, verify, htarget]
    cases v.compute header (nonceWord header.nonce) with
    | mk outcome after =>
      cases outcome with
      | none => simp [hzero]
      | some outcome => simp [judge_ne_crashed]

end PowVerifier

theorem Failure.lift_ne_crashed {α : Type} (r : Except Error α) :
    Failure.lift r ≠ .error .crashed := by
  cases r <;> simp [Failure.lift]

theorem SealVerifier.verify_eq_crashed_iff {v v' : SealVerifier} {header : Header} :
    v.verify header = (.error .crashed, v') ↔ ∃ w w', v = pow w ∧ v' = pow w' ∧
      header.difficulty ≠ 0 ∧
      w.BreaksDown header.number header.sealHash (PowVerifier.nonceWord header.nonce) w' := by
  cases v with
  | pow w =>
    simp only [← PowVerifier.verify_eq_crashed_iff, verify, pow.injEq, exists_and_left,
      exists_eq_left']
    cases w.verify header with
    | mk result after => simp [eq_comm, and_comm]
  | slot w => simp [verify, Failure.lift_ne_crashed]
  | fake fail =>
    simp only [verify, reduceCtorEq, false_and, exists_false, iff_false]
    split <;> simp
  | fullFake => simp [verify]

end BlockSeal
