import BlockSeal.Proofs.Acceptance
import BlockSeal.Proofs.Epoch.Schedule

/-! # One designated signer at a time

Two headers with the same time that are both accepted declare slots that lie close together, and
without a tolerance they declare the same slot.

* `Accepted.start_lt`: the time of an accepted header ties its slot to the slot of the other one.
* `Accepted.slot_unique`: without a tolerance, the epochs agree since the stored epochs have no
  time in common, and then the turns agree.
* `verify_designates_slot`: both, for two headers that are accepted by one verifier.
-/

set_option autoImplicit false

namespace BlockSeal.SlotVerifier

variable {v : SlotVerifier} {h h₁ h₂ : Header} {s s₁ s₂ : SlotSeal}
  {bytes bytes₁ bytes₂ : SignatureBytes} {info info₁ info₂ : EpochInfo}

theorem Accepted.slotDuration_eq (ha : Accepted v h s bytes info) (hv : v.store.Sound) :
    info.slotDuration = v.store.slotDuration := (hv.entry ha.stored).2.2

/-- The first slot starts before the second one is over, but for the tolerance on either side. -/
theorem Accepted.start_lt (ha₁ : Accepted v h₁ s₁ bytes₁ info₁) (ha₂ : Accepted v h₂ s₂ bytes₂ info₂)
    (hv : v.store.Sound) (htime : h₁.time = h₂.time) :
    (info₁.slotWindow s₁.turn).start.toNat <
      (info₂.slotWindow s₂.turn).start.toNat +
        (v.store.slotDuration.toNat + 2 * v.tolerance.toNat) := by
  rw [EpochInfo.toNat_slotWindow_start, EpochInfo.toNat_slotWindow_start,
    ha₁.slotDuration_eq hv, ha₂.slotDuration_eq hv]
  have hearly := ha₁.not_early
  have hlate := ha₂.not_late
  have hstop : (s₂.turn.toNat + 1) * v.store.slotDuration.toNat =
      s₂.turn.toNat * v.store.slotDuration.toNat + v.store.slotDuration.toNat := Nat.succ_mul _ _
  rw [htime] at hearly
  rw [hstop] at hlate
  omega

/-- Without a tolerance the time lies in the slot, and no bound of the slot is cut off before it. -/
theorem Accepted.within (ha : Accepted v h s bytes info) (htolerance : v.tolerance = 0) :
    info.epochStart.toNat + s.turn.toNat * v.store.slotDuration.toNat ≤ h.time.toNat ∧
      h.time.toNat < info.epochStart.toNat + (s.turn.toNat + 1) * v.store.slotDuration.toNat := by
  have hearly := ha.not_early
  have hlate := ha.not_late
  rw [htolerance, UInt64.toNat_zero] at hearly hlate
  omega

/-- So the declared epoch covers the time. -/
theorem Accepted.covers (ha : Accepted v h s bytes info) (hv : v.store.Sound)
    (htolerance : v.tolerance = 0) : info.covers h.time = true := by
  obtain ⟨hstart, hstop⟩ := ha.within htolerance
  have hlate := ha.not_late
  have hwidth : info.width.toNat =
      min (v.store.slotDuration.toNat * v.store.validatorSetSize.toNat) (UInt64.size - 1) := by
    rw [hv.width ha.stored]
    exact UInt64.toNat_mulCapped _ _
  have hturn : (s.turn.toNat + 1) * v.store.slotDuration.toNat ≤
      v.store.slotDuration.toNat * v.store.validatorSetSize.toNat := by
    rw [Nat.mul_comm v.store.slotDuration.toNat]
    exact Nat.mul_le_mul_right _ ha.turn_lt
  rw [EpochInfo.covers_iff, hwidth]
  omega

theorem Accepted.slot_unique (ha₁ : Accepted v h₁ s₁ bytes₁ info₁)
    (ha₂ : Accepted v h₂ s₂ bytes₂ info₂) (hv : v.store.Scheduled) (htime : h₁.time = h₂.time)
    (htolerance : v.tolerance = 0) : s₁.epoch = s₂.epoch ∧ s₁.turn = s₂.turn := by
  have hcovers₁ := ha₁.covers hv.sound htolerance
  have hcovers₂ := ha₂.covers hv.sound htolerance
  rw [← htime] at hcovers₂
  have hepoch : s₁.epoch = s₂.epoch := by
    by_contra hne
    exact hv.disjoint ha₁.stored ha₂.stored hne h₁.time ⟨hcovers₁, hcovers₂⟩
  have hinfo : info₁ = info₂ := by
    have hstored := ha₂.stored
    rw [← hepoch] at hstored
    exact hv.sound.proper.eq_of_mem ha₁.stored hstored
  refine ⟨hepoch, ?_⟩
  obtain ⟨hstart₁, hstop₁⟩ := ha₁.within htolerance
  obtain ⟨hstart₂, hstop₂⟩ := ha₂.within htolerance
  rw [← htime, ← hinfo] at hstart₂ hstop₂
  -- Either slot starts before the other one is over.
  have hle₁ : s₁.turn.toNat < s₂.turn.toNat + 1 :=
    Nat.lt_of_mul_lt_mul_right (a := v.store.slotDuration.toNat) (by omega)
  have hle₂ : s₂.turn.toNat < s₁.turn.toNat + 1 :=
    Nat.lt_of_mul_lt_mul_right (a := v.store.slotDuration.toNat) (by omega)
  exact UInt64.toNat_inj.1 (by omega)

/-- **One designated signer at a time.** Two headers with the same time that one verifier accepts
declare slots of stored epochs that start less than a slot and twice the tolerance apart; without a
tolerance they declare the same epoch and the same turn. -/
theorem verify_designates_slot (hv : v.store.Reachable) (htime : h₁.time = h₂.time)
    (haccepts₁ : (v.verify h₁).1 = .ok ()) (haccepts₂ : (v.verify h₂).1 = .ok ()) :
    ∃ s₁ s₂ info₁ info₂,
      SlotSeal.decode h₁.extra = .ok s₁ ∧ SlotSeal.decode h₂.extra = .ok s₂ ∧
      v.store.peek s₁.epoch = some info₁ ∧ v.store.peek s₂.epoch = some info₂ ∧
      (info₁.slotWindow s₁.turn).start.toNat < (info₂.slotWindow s₂.turn).start.toNat +
        (v.store.slotDuration.toNat + 2 * v.tolerance.toNat) ∧
      (info₂.slotWindow s₂.turn).start.toNat < (info₁.slotWindow s₁.turn).start.toNat +
        (v.store.slotDuration.toNat + 2 * v.tolerance.toNat) ∧
      (v.tolerance = 0 → s₁.epoch = s₂.epoch ∧ s₁.turn = s₂.turn) := by
  have hs := hv.scheduled
  obtain ⟨s₁, bytes₁, info₁, ha₁⟩ := accepted_of_verify hs.sound haccepts₁
  obtain ⟨s₂, bytes₂, info₂, ha₂⟩ := accepted_of_verify hs.sound haccepts₂
  exact ⟨s₁, s₂, info₁, info₂, ha₁.decoded, ha₂.decoded, ha₁.peek hs.sound, ha₂.peek hs.sound,
    ha₁.start_lt ha₂ hs.sound htime, ha₂.start_lt ha₁ hs.sound htime.symm,
    ha₁.slot_unique ha₂ hs htime⟩

end BlockSeal.SlotVerifier

/-! ## Two headers with one seal -/

namespace BlockSeal.Sample

/-- The sealed header with another nonce. -/
def resealed : Header :=
  declared.finished header (key.sign message).octets (Octets.replicate 8 1)

theorem resealed_accepted : SlotVerifier.Accepted verifier resealed
    (declared.withSignature (key.sign message).octets) (key.sign message).octets info :=
  SlotVerifier.accepted_finished store_reachable.sound _ rfl rfl rfl (by decide) (by decide) rfl
    key_signs

end BlockSeal.Sample

namespace BlockSeal.SlotVerifier

theorem resealed_designates_slot : Sample.store.Reachable ∧
    Sample.sealed.time = Sample.resealed.time ∧
    (Sample.verifier.verify Sample.sealed).1 = .ok () ∧
    (Sample.verifier.verify Sample.resealed).1 = .ok () ∧
    ∃ s₁ s₂, SlotSeal.decode Sample.sealed.extra = .ok s₁ ∧
      SlotSeal.decode Sample.resealed.extra = .ok s₂ ∧ s₁.epoch = s₂.epoch ∧ s₁.turn = s₂.turn := by
  have hsound := Sample.store_reachable.sound
  have haccepts₁ : (Sample.verifier.verify Sample.sealed).1 = .ok () := by
    rw [verify_of_accepted hsound Sample.sealed_accepted]
  have haccepts₂ : (Sample.verifier.verify Sample.resealed).1 = .ok () := by
    rw [verify_of_accepted hsound Sample.resealed_accepted]
  have htime : Sample.sealed.time = Sample.resealed.time := rfl
  obtain ⟨s₁, s₂, _, _, hdecode₁, hdecode₂, _, _, _, _, hsame⟩ :=
    verify_designates_slot (v := Sample.verifier) Sample.store_reachable htime haccepts₁ haccepts₂
  exact ⟨Sample.store_reachable, htime, haccepts₁, haccepts₂, s₁, s₂, hdecode₁, hdecode₂,
    hsame rfl⟩

end BlockSeal.SlotVerifier
