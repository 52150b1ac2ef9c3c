import BlockSeal.Proofs.Engine.Run
import BlockSeal.Proofs.Epoch.Lookup
import BlockSeal.Proofs.Pow.Mining

/-! # What a verdict depends on

A verifier keeps the datasets that it needed, or the epochs in the order of their use, and each
verification can change what it keeps. The verdict on a header depends on its settings and on which
epochs are stored, so no verification changes another one's verdict.

* `bare`, `epoch?`: a verifier with its settings alone, and the epochs that it knows.
* `Faithful`: what a verifier keeps is what its function makes and what calls have stored. It is so at
  the start (`faithful_ofConfig`), and verifications and calls on the store keep it
  (`Faithful.verify`, `Faithful.withStore`).
* `Faithful.verify_congr`: the same settings and the same epochs give the same verdicts.
-/

set_option autoImplicit false

namespace BlockSeal.SealVerifier

variable {u v : SealVerifier} {header : Header}

/-! ## Settings and epochs -/

/-- The verifier as it is when nothing is kept yet. -/
def bare : SealVerifier → SealVerifier
  | pow v => pow { v with datasets := { capacity := v.datasets.capacity }, generated := [] }
  | slot v => slot { v with store.epochs := { capacity := v.store.epochs.capacity } }
  | v => v

def epoch? (v : SealVerifier) (epoch : UInt64) : Option EpochInfo :=
  v.store?.bind fun store => store.peek epoch

/-- What a solution makes of a header is up to the settings. -/
theorem applySubmission_bare (v : SealVerifier) (header : Header) (submission : Submission) :
    v.bare.applySubmission header submission = v.applySubmission header submission := by
  cases v <;> rfl

theorem bare_of_serves {start w w' : PowVerifier} {epochs epochs' : List UInt64}
    (h : PowVerifier.Serves start epochs w) (h' : PowVerifier.Serves start epochs' w') :
    (pow w').bare = (pow w).bare := by
  obtain ⟨hpow, hlength, hcapacity, -, -⟩ := h
  obtain ⟨hpow', hlength', hcapacity', -, -⟩ := h'
  simp only [bare, hpow, hpow', hlength, hlength', hcapacity, hcapacity']

theorem bare_run {w : SlotVerifier} (h : w.store.Sound)
    (calls : List (Σ α : Type, EpochStore.Call α)) :
    (slot { w with store := w.store.run calls }).bare = (slot w).bare := by
  obtain ⟨hsize, hduration, hcapacity⟩ := EpochStore.sizes_run h calls
  simp only [bare, hsize, hduration, hcapacity]

/-! ## Faithful verifiers -/

/-- The datasets are those that the function makes, and the epochs are those that calls on the store
have left there. -/
def Faithful : SealVerifier → Prop
  | pow w => w.epochLength ≠ 0 ∧ ∃ start epochs, PowVerifier.Serves start epochs w
  | slot w => w.store.Reachable
  | _ => True

theorem faithful_ofConfig {c : Config} {function : PowFunction}
    (h : ofConfig c function = .ok v) : v.Faithful := by
  unfold ofConfig at h
  cases hmode : c.mode with
  | pow =>
    rw [hmode] at h
    cases hcreate : PowVerifier.create function c.datasetCacheCapacity c.datasetEpochLength with
    | error e =>
      simp only [hcreate] at h
      cases h
    | ok w =>
      simp only [hcreate] at h
      cases h
      obtain ⟨_, hlength, hw⟩ := PowVerifier.create_eq_ok_iff.1 hcreate
      refine ⟨?_, w, _, PowVerifier.serves_create hcreate⟩
      rw [hw]
      exact hlength
  | slot =>
    rw [hmode] at h
    cases hcreate :
        EpochStore.create c.validatorSetSize c.slotDuration c.epochCacheCapacity with
    | error e =>
      simp only [hcreate] at h
      cases h
    | ok store =>
      simp only [hcreate] at h
      cases h
      exact ⟨_, _, _, store, [], hcreate, rfl⟩
  | fake =>
    rw [hmode] at h
    cases h
    trivial
  | fullFake =>
    rw [hmode] at h
    cases h
    trivial

/-- **One verification.** Settings and epochs stay. -/
theorem Faithful.verify (hv : v.Faithful) (header : Header) :
    (v.verify header).2.Faithful ∧ (v.verify header).2.bare = v.bare ∧
      ∀ epoch, (v.verify header).2.epoch? epoch = v.epoch? epoch := by
  cases v with
  | pow w =>
    obtain ⟨hlength, start, epochs, hserves⟩ := hv
    have hstart : start.epochLength ≠ 0 := by rwa [← hserves.epochLength]
    have hafter := hserves.perform hstart (.verify header)
    have hbare := bare_of_serves hserves hafter
    refine ⟨⟨?_, start, _, hafter⟩, hbare, fun _ => rfl⟩
    change (w.perform (.verify header)).2.epochLength ≠ 0
    rwa [hafter.epochLength]
  | slot w =>
    have hsound : w.store.Sound := EpochStore.Reachable.sound hv
    obtain ⟨calls, hcalls⟩ := (slot w).verify_follows header w rfl
    refine ⟨?_, ?_, fun epoch => ?_⟩
    · rw [hcalls]
      exact EpochStore.Reachable.run hv calls
    · rw [hcalls, bare_run hsound]
    · exact EpochStore.peek_perform_of_inserted?_none hsound
        (show (EpochStore.Call.verify w.tolerance header).inserted? = none from rfl) epoch
  | fake fail => exact ⟨trivial, rfl, fun _ => rfl⟩
  | fullFake => exact ⟨trivial, rfl, fun _ => rfl⟩

/-- **Calls on the store.** The settings stay. -/
theorem Faithful.withStore (hv : v.Faithful) {store : EpochStore}
    (hfollows : v.Follows (v.withStore store)) :
    (v.withStore store).Faithful ∧ (v.withStore store).bare = v.bare := by
  cases v with
  | slot w =>
    obtain ⟨calls, hcalls⟩ := hfollows w rfl
    rw [hcalls]
    exact ⟨EpochStore.Reachable.run hv calls, bare_run (EpochStore.Reachable.sound hv) calls⟩
  | pow w => exact ⟨hv, rfl⟩
  | fake fail => exact ⟨trivial, rfl⟩
  | fullFake => exact ⟨trivial, rfl⟩

/-! ## Verdicts -/

theorem Faithful.verify_pow {w : PowVerifier} (hw : (pow w).Faithful) (header : Header) :
    ((pow w).verify header).1 = w.pow.verdict w.epochLength header := by
  obtain ⟨hlength, start, epochs, hserves⟩ := hw
  have hstart : start.epochLength ≠ 0 := by rwa [← hserves.epochLength]
  rw [verify_pow_of_serves hserves hstart, hserves.pow, hserves.epochLength]

/-- Verifiers with the same settings and the same epochs give the same verdicts. -/
theorem Faithful.verify_congr (hu : u.Faithful) (hv : v.Faithful) (hbare : u.bare = v.bare)
    (hepochs : ∀ epoch, u.epoch? epoch = v.epoch? epoch) (header : Header) :
    (u.verify header).1 = (v.verify header).1 := by
  cases u with
  | pow a =>
    cases v with
    | pow b =>
      rw [hu.verify_pow, hv.verify_pow]
      simp only [bare, pow.injEq, PowVerifier.mk.injEq] at hbare
      rw [hbare.1, hbare.2.2.1]
    | _ => cases hbare
  | slot a =>
    cases v with
    | slot b =>
      simp only [bare, slot.injEq, SlotVerifier.mk.injEq, EpochStore.mk.injEq] at hbare
      obtain ⟨⟨hsize, _, _⟩, htolerance⟩ := hbare
      have hsame := EpochStore.Scheduled.verify_congr (EpochStore.Reachable.scheduled hv)
        (EpochStore.Reachable.scheduled hu) hsize hepochs b.tolerance header
      have ha : ({ store := a.store, tolerance := b.tolerance } : SlotVerifier) = a := by
        rw [← htolerance]
      have hanswers : (a.verify header).1 = (b.verify header).1 := by
        rw [← ha]
        exact hsame
      exact congrArg Failure.lift hanswers
    | _ => cases hbare
  | fake fail =>
    cases v with
    | fake fail' =>
      cases hbare
      rfl
    | _ => cases hbare
  | fullFake =>
    cases v with
    | fullFake => rfl
    | _ => cases hbare

end BlockSeal.SealVerifier
