import BlockSeal.Proofs.Pow.Datasets
import BlockSeal.Proofs.Pow.Target
import BlockSeal.SealVerifier

/-! # Work for miners

The work for a header names all that a miner has to know: a solution is accepted when the function,
on the dataset of the work's height and seed, leads from the work's seal hash to the claimed mix
digest and to a result at most the work's target.

* `judge_eq_ok_iff`, `verdict_eq_ok_iff`: when a header is accepted.
* `workPackage_pow`: the work for a header.
* `mined_iff`: when a solution of the work is accepted.
-/

set_option autoImplicit false

namespace BlockSeal

theorem PowVerifier.judge_eq_ok_iff {header : Header} {target : Hash} {outcome : Hash × Hash} :
    judge header target outcome = .ok () ↔
      outcome.1 = header.mixDigest ∧ meetsTarget outcome.2 target = true := by
  unfold judge
  by_cases hmix : outcome.1 = header.mixDigest
  · by_cases hmeets : meetsTarget outcome.2 target = true <;> simp [hmix, hmeets]
  · simp [hmix]

theorem PowFunction.verdict_eq_ok_iff {f : PowFunction} {length : UInt64} {header : Header}
    {target : Hash} (htarget : targetFor header.difficulty = .ok target) :
    f.verdict length header = .ok () ↔ ∃ material result,
      f.material (header.number / length) = some material ∧
      f.compute material header.sealHash (PowVerifier.nonceWord header.nonce) =
        some (header.mixDigest, result) ∧
      bigEndianNat result.toList ≤ bigEndianNat target.toList := by
  simp only [verdict, htarget, outcome]
  cases f.material (header.number / length) with
  | none => simp
  | some material =>
    simp only [Option.bind_some, Option.some.injEq, exists_and_left, exists_eq_left']
    cases f.compute material header.sealHash (PowVerifier.nonceWord header.nonce) with
    | none => simp
    | some outcome =>
      simp only [PowVerifier.judge_eq_ok_iff, meetsTarget_iff, Option.some.injEq, Prod.ext_iff]
      constructor
      · rintro ⟨hmix, hle⟩
        exact ⟨_, ⟨hmix, rfl⟩, hle⟩
      · rintro ⟨result, ⟨hmix, rfl⟩, hle⟩
        exact ⟨hmix, hle⟩

namespace SealVerifier

variable {f : PowFunction} {capacity length : UInt64} {start v : PowVerifier}
  {epochs : List UInt64}

theorem workPackage_pow (v : PowVerifier) (header : Header) :
    (pow v).workPackage header = (targetFor header.difficulty).map fun target =>
      { sealHash := header.sealHash, secondary := v.seedHashFor header.number
        payload := target.toList, number := header.number } := by
  unfold workPackage workContents
  cases targetFor header.difficulty <;> rfl

/-- The work for a header with a difficulty, whatever its nonce and its mix digest. -/
theorem workPackage_of_serves (hv : PowVerifier.Serves start epochs v)
    (hlength : start.epochLength ≠ 0) {header : Header} {target : Hash}
    (htarget : targetFor header.difficulty = .ok target) (nonce : Nonce) (mixDigest : Hash) :
    (pow v).workPackage { header with nonce := nonce, mixDigest := mixDigest } = .ok
      { sealHash := header.sealHash, secondary := seedHash (header.number / start.epochLength)
        payload := target.toList, number := header.number } := by
  have hseed : v.seedHashFor header.number = seedHash (header.number / start.epochLength) :=
    hv.answer hlength (.seedHashFor header.number)
  rw [workPackage_pow]
  simp only [htarget, Except.map, hseed]
  rfl

theorem verify_pow_of_serves (hv : PowVerifier.Serves start epochs v)
    (hlength : start.epochLength ≠ 0) (header : Header) :
    ((pow v).verify header).1 = start.pow.verdict start.epochLength header :=
  hv.verify_answer hlength header

/-- **Work and its solutions.** Work is issued and a solution of it is judged, each after any calls
on the verifier. A header without a difficulty is no work, and it is never accepted. The work for any
other one depends neither on the nonce nor on the mix digest that the header has. A solution with any
nonce and any mix digest makes a sealed header, which is accepted exactly when the function, on the
dataset of the work, leads from the work's seal hash and the nonce to this mix digest and to a result
that is at most the target. -/
theorem mined_iff (hstart : PowVerifier.create f capacity length = .ok start)
    (before after : List (Σ β : Type, PowVerifier.Call β)) (header : Header) :
    (header.difficulty = 0 →
      (pow (start.run before)).workPackage header = .error .invalidDifficulty ∧
      ((pow (start.run after)).verify header).1 = .error (.refused .invalidDifficulty)) ∧
    (header.difficulty ≠ 0 → ∃ work : WorkPackage, work.number = header.number ∧
      ∀ (nonce₀ : Nonce) (mix₀ : Hash),
        (pow (start.run before)).workPackage { header with nonce := nonce₀, mixDigest := mix₀ } =
          .ok work ∧
        ∀ (nonce : Nonce) (mix : Hash) (signature : Option SignatureBytes), ∃ sealed,
          (pow (start.run after)).applySubmission
            { header with nonce := nonce₀, mixDigest := mix₀ }
            { nonce := nonce, mixDigest := mix, sealHash := work.sealHash
              signature := signature } = .ok sealed ∧
          (((pow (start.run after)).verify sealed).1 = .ok () ↔ ∃ material result,
            f.generate (work.number / length) work.secondary = some material ∧
            f.compute material work.sealHash (UInt64.ofNat (bigEndianNat nonce.toList)) =
              some (mix, result) ∧
            bigEndianNat result.toList ≤ bigEndianNat work.payload)) := by
  obtain ⟨_, hlength, rfl⟩ := PowVerifier.create_eq_ok_iff.1 hstart
  have hissuer := (PowVerifier.serves_create hstart).run hlength before
  have hjudge := (PowVerifier.serves_create hstart).run hlength after
  constructor
  · intro hzero
    constructor
    · rw [workPackage_pow, targetFor, if_pos hzero]
      rfl
    · exact congrArg Prod.fst (PowVerifier.verify_of_zero hzero)
  · intro hdifficulty
    obtain ⟨target, htarget⟩ := targetFor_of_ne_zero hdifficulty
    refine ⟨_, rfl, fun nonce₀ mix₀ =>
      ⟨workPackage_of_serves hissuer hlength htarget nonce₀ mix₀, ?_⟩⟩
    intro nonce mix signature
    have hsealed : targetFor { header with nonce := nonce, mixDigest := mix }.difficulty =
        .ok target := htarget
    refine ⟨_, rfl, ?_⟩
    rw [verify_pow_of_serves hjudge hlength, PowFunction.verdict_eq_ok_iff hsealed]
    rfl

end SealVerifier

/-! ## Work that every result solves -/

namespace Sample

def miner : PowVerifier where
  pow := walk
  datasets := { capacity := 2 }
  epochLength := 10

def easy : Header := { number := 12, difficulty := 1, time := 10 }

def free : Header := { easy with difficulty := 0 }

def claimed (work : WorkPackage) (mix : Hash) : Submission where
  nonce := Octets.replicate 8 7
  mixDigest := mix
  sealHash := work.sealHash
  signature := none

end Sample

namespace SealVerifier

theorem targetFor_one : targetFor 1 = .ok (Octets.replicate 32 255) := by
  rw [targetFor, if_neg (by decide)]
  congr 1

/-- With the smallest difficulty a solution needs the right mix digest and nothing else, whatever the
cache holds. Without a difficulty there is no work. -/
theorem easy_mined : PowVerifier.create Sample.walk 2 10 = .ok Sample.miner ∧
    Sample.free.difficulty = 0 ∧
    (pow Sample.miner).workPackage Sample.free = .error .invalidDifficulty ∧
    Sample.easy.difficulty ≠ 0 ∧ ∃ work material,
      (pow Sample.miner).workPackage Sample.easy = .ok work ∧
      Sample.walk.generate 1 work.secondary = some material ∧
      ∀ mix, ∃ sealed,
        (pow (Sample.miner.run Sample.visits)).applySubmission Sample.easy
          (Sample.claimed work mix) = .ok sealed ∧
        (((pow (Sample.miner.run Sample.visits)).verify sealed).1 = .ok () ↔ ∃ result,
          Sample.walk.compute material work.sealHash 506381209866536711 = some (mix, result)) := by
  have hstart : PowVerifier.create Sample.walk 2 10 = .ok Sample.miner := rfl
  have hfree : Sample.free.difficulty = 0 := rfl
  have heasy : Sample.easy.difficulty ≠ 0 := by decide
  refine ⟨hstart, hfree, ((mined_iff hstart [] [] Sample.free).1 hfree).1, heasy, ?_⟩
  obtain ⟨work, hnumber, hwork⟩ := (mined_iff hstart [] Sample.visits Sample.easy).2 heasy
  obtain ⟨hissued, hsolved⟩ := hwork Sample.easy.nonce Sample.easy.mixDigest
  have hpayload : work.payload = (Octets.replicate 32 255 : Hash).toList := by
    have h : (pow Sample.miner).workPackage Sample.easy = .ok work := hissued
    rw [workPackage_pow, show Sample.easy.difficulty = 1 from rfl, targetFor_one] at h
    cases h
    rfl
  obtain ⟨material, hmaterial⟩ : ∃ material, Sample.walk.generate 1 work.secondary = some material :=
    ⟨_, rfl⟩
  refine ⟨work, material, hissued, hmaterial, fun mix => ?_⟩
  obtain ⟨sealed, happlied, hverified⟩ := hsolved (Octets.replicate 8 7) mix none
  refine ⟨sealed, happlied, hverified.trans ?_⟩
  have hepoch : Sample.easy.number / 10 = 1 := by decide
  have hnonce : UInt64.ofNat (bigEndianNat (Octets.replicate 8 7 : Nonce).toList) =
      506381209866536711 := by decide
  rw [hnumber, hpayload, hnonce, hepoch, hmaterial]
  constructor
  · rintro ⟨_, result, hsame, hcompute, _⟩
    cases hsame
    exact ⟨result, hcompute⟩
  · rintro ⟨result, hcompute⟩
    refine ⟨material, result, rfl, hcompute, ?_⟩
    have hlt := bigEndianNat_lt result.toList
    have hall : bigEndianNat (Octets.replicate 32 255 : Hash).toList = 256 ^ 32 - 1 := by decide
    rw [Octets.length_toList] at hlt
    rw [hall]
    omega

end SealVerifier

end BlockSeal
