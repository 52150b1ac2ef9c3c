import BlockSeal.Proofs.Engine.Sealing
import BlockSeal.Proofs.Epoch.Lookup

/-! # Slot numbers on either side

The number of a slot is the number of all slots before its epoch plus its turn. Whoever prepares a
header writes it into the seal, and whoever verifies the header takes it apart again. Each of the two
stops at the largest word in its own place, so they agree as long as the number is a word.

* `prepare_eq_ok_iff`, `slot_of_prepare`: what preparation writes.
* `checkTurn_slotNumber_iff`: the seals that pass the check, with the sums and products of numbers.
* `checkTurn_eq_mismatch`: the refusal of a seal whose turn is not its position in the epoch.
* `checkTurn_unique`: when a slot number stands for one epoch and one turn.
* `prepare_checkTurn`: when the two sides agree, in every store that can be reached.
-/

set_option autoImplicit false

namespace BlockSeal.SlotVerifier

variable {v : SlotVerifier} {size : UInt64} {s s' : SlotSeal}

/-! ## What is written -/

theorem prepare_eq_ok_iff (hv : v.store.Sound) {header prepared : Header} :
    (v.prepare header).1 = .ok (s, prepared) ↔ ∃ info turn,
      (v.store.resolve header.time).1 = .ok info ∧ info.turnAt header.time = some turn ∧
        s = v.slotOf info turn ∧ prepared = { header with extra := s.encode } := by
  have hsize : (v.store.resolve header.time).2.validatorSetSize = v.store.validatorSetSize :=
    validatorSetSize_resolving hv header.time
  unfold prepare slotOf
  cases hr : v.store.resolve header.time with
  | mk result store =>
    rw [hr] at hsize
    change store.validatorSetSize = v.store.validatorSetSize at hsize
    cases result with
    | error e => simp
    | ok info =>
      cases hturn : info.turnAt header.time with
      | none => simp [hturn]
      | some turn =>
        simp only [hturn, hsize, Except.ok.injEq, Prod.mk.injEq]
        constructor
        · rintro ⟨rfl, rfl⟩
          exact ⟨info, turn, rfl, hturn, rfl, rfl⟩
        · rintro ⟨_, turn', rfl, hturn', rfl, rfl⟩
          obtain rfl : turn = turn' := Option.some_inj.1 (hturn.symm.trans hturn')
          exact ⟨rfl, rfl⟩

/-- The turn is one of the epoch's, and the number is cut off once. -/
theorem slot_of_prepare (hv : v.store.Scheduled) {header prepared : Header}
    (h : (v.prepare header).1 = .ok (s, prepared)) :
    s.turn.toNat < v.store.validatorSetSize.toNat ∧ s.slot.toNat =
      min (s.epoch.toNat * v.store.validatorSetSize.toNat + s.turn.toNat) (UInt64.size - 1) := by
  obtain ⟨info, turn, hresolve, hturn, rfl, rfl⟩ := (prepare_eq_ok_iff hv.sound).1 h
  obtain ⟨epoch, hpeek, _⟩ := hv.resolve_eq_ok_iff.1 hresolve
  have hlength := (EpochStore.checkShape_eq_ok_iff.1 (hv.sound.checkShape hpeek)).2.1
  have hlt := (EpochInfo.turnAt_eq_some hturn).1
  rw [hlength] at hlt
  refine ⟨hlt, ?_⟩
  simp only [slotOf, UInt64.toNat_addCapped, UInt64.toNat_mulCapped]
  omega

/-! ## What is checked -/

theorem eq_maxValue_iff {w : UInt64} : w = UInt64.maxValue ↔ w.toNat = UInt64.size - 1 :=
  UInt64.toNat_inj.symm

/-- The slot number is the one of the epoch and the turn, or else the slots before the epoch are more
than the largest word, which then stands for the first slot of the epoch. -/
theorem checkTurn_slotNumber_iff : checkTurn size s = .ok () ↔ s.turn.toNat < size.toNat ∧
    (s.slot.toNat = s.epoch.toNat * size.toNat + s.turn.toNat ∨
      UInt64.size ≤ s.epoch.toNat * size.toNat ∧ s.slot = UInt64.maxValue ∧ s.turn = 0) := by
  have hslot := s.slot.toNat_lt_size
  have hturn : s.turn = 0 ↔ s.turn.toNat = 0 := UInt64.toNat_inj.symm
  rw [checkTurn_eq_ok_iff, eq_maxValue_iff, hturn]
  refine and_congr_right fun _ => ?_
  generalize s.epoch.toNat * size.toNat = start
  omega

theorem checkTurn_eq_mismatch (hturn : s.turn.toNat < size.toNat)
    (hstart : min (s.epoch.toNat * size.toNat) (UInt64.size - 1) ≤ s.slot.toNat)
    (hlt : s.slot.toNat < min (s.epoch.toNat * size.toNat) (UInt64.size - 1) + s.turn.toNat) :
    checkTurn size s = .error (.malformedSeal (.turnMismatch s.turn s.slot s.epoch)) := by
  rw [← UInt64.toNat_mulCapped] at hstart hlt
  have hsub : (s.slot - s.epoch.mulCapped size).toNat =
      s.slot.toNat - (s.epoch.mulCapped size).toNat :=
    UInt64.toNat_sub_of_le _ _ (UInt64.le_iff_toNat_le.2 hstart)
  have hne : s.slot - s.epoch.mulCapped size ≠ s.turn := by
    intro heq
    have := congrArg UInt64.toNat heq
    omega
  unfold checkTurn
  simp only [UInt64.le_iff_toNat_le, UInt64.lt_iff_toNat_lt, hsub]
  rw [if_neg (by omega), if_neg (by omega), if_neg (by omega), if_pos hne]

theorem verify_of_checkTurn_error {header : Header} {bytes : SignatureBytes} {e : Error}
    (hdecode : SlotSeal.decode header.extra = .ok s) (hsigned : s.signature = some bytes)
    (hcheck : checkTurn v.store.validatorSetSize s = .error e) :
    v.verify header = (.error e, v) := by
  apply verify_of_readSeal_error
  simp only [readSeal, hdecode, hsigned, hcheck]

/-- Two seals with one slot number are for the same epoch and turn, unless the number is the largest
word and there are more slots before one of the epochs. -/
theorem checkTurn_unique (h : checkTurn size s = .ok ()) (h' : checkTurn size s' = .ok ())
    (hslot : s.slot = s'.slot) : s.epoch = s'.epoch ∧ s.turn = s'.turn ∨
      s.slot = UInt64.maxValue ∧ (UInt64.size ≤ s.epoch.toNat * size.toNat ∨
        UInt64.size ≤ s'.epoch.toNat * size.toNat) := by
  obtain ⟨hturn, hnumber | ⟨hover, hmax, _⟩⟩ := checkTurn_slotNumber_iff.1 h
  · obtain ⟨hturn', hnumber' | ⟨hover', hmax', _⟩⟩ := checkTurn_slotNumber_iff.1 h'
    · -- Both are quotient and remainder of the number by the size.
      have hpos : 0 < size.toNat := by omega
      have hunique : ∀ t : SlotSeal, t.turn.toNat < size.toNat →
          t.slot.toNat = t.epoch.toNat * size.toNat + t.turn.toNat →
          t.slot.toNat / size.toNat = t.epoch.toNat ∧ t.slot.toNat % size.toNat = t.turn.toNat :=
        fun t hlt ht => (Nat.div_mod_unique hpos).2 ⟨by rw [ht, Nat.mul_comm]; omega, hlt⟩
      obtain ⟨hepoch, hrest⟩ := hunique s hturn hnumber
      obtain ⟨hepoch', hrest'⟩ := hunique s' hturn' hnumber'
      rw [hslot] at hepoch hrest
      exact .inl ⟨UInt64.toNat_inj.1 (hepoch.symm.trans hepoch'),
        UInt64.toNat_inj.1 (hrest.symm.trans hrest')⟩
    · exact .inr ⟨hslot.trans hmax', .inr hover'⟩
  · exact .inr ⟨hmax, .inl hover⟩

/-! ## Both sides -/

/-- **Slot numbers that are written and checked.** For a store that can be reached, preparation writes
the number of the slot, or the largest word if it does not fit. The seal passes the check if it
fits or the turn is the first of the epoch; otherwise it is refused, and so is the prepared header
with any signature. The seals that pass are those with the number of their epoch and turn, and, when
there are more slots before the epoch than the largest word, the one with that word and the first
turn. Two of them with one number are for one epoch and turn, but for this case. -/
theorem prepare_checkTurn (hv : v.store.Reachable) :
    (∀ header s prepared, (v.prepare header).1 = .ok (s, prepared) →
      s.turn.toNat < v.store.validatorSetSize.toNat ∧
      s.slot.toNat = min (s.epoch.toNat * v.store.validatorSetSize.toNat + s.turn.toNat)
        (UInt64.size - 1) ∧
      (checkTurn v.store.validatorSetSize s = .ok () ↔
        s.epoch.toNat * v.store.validatorSetSize.toNat + s.turn.toNat < UInt64.size ∨
          s.turn = 0) ∧
      (checkTurn v.store.validatorSetSize s ≠ .ok () →
        ∀ bytes nonce, v.verify (s.finished prepared bytes nonce) =
          (.error (.malformedSeal (.turnMismatch s.turn s.slot s.epoch)), v))) ∧
    (∀ s, checkTurn v.store.validatorSetSize s = .ok () ↔
      s.turn.toNat < v.store.validatorSetSize.toNat ∧
        (s.slot.toNat = s.epoch.toNat * v.store.validatorSetSize.toNat + s.turn.toNat ∨
          UInt64.size ≤ s.epoch.toNat * v.store.validatorSetSize.toNat ∧
            s.slot = UInt64.maxValue ∧ s.turn = 0)) ∧
    ∀ s s', checkTurn v.store.validatorSetSize s = .ok () →
      checkTurn v.store.validatorSetSize s' = .ok () → s.slot = s'.slot →
      s.epoch = s'.epoch ∧ s.turn = s'.turn ∨ s.slot = UInt64.maxValue ∧
        (UInt64.size ≤ s.epoch.toNat * v.store.validatorSetSize.toNat ∨
          UInt64.size ≤ s'.epoch.toNat * v.store.validatorSetSize.toNat) := by
  refine ⟨fun header s prepared hprepare => ?_, fun s => checkTurn_slotNumber_iff,
    fun s s' => checkTurn_unique⟩
  obtain ⟨hturn, hslot⟩ := slot_of_prepare hv.scheduled hprepare
  have hzero : s.turn = 0 ↔ s.turn.toNat = 0 := UInt64.toNat_inj.symm
  have hiff : checkTurn v.store.validatorSetSize s = .ok () ↔
      s.epoch.toNat * v.store.validatorSetSize.toNat + s.turn.toNat < UInt64.size ∨
        s.turn = 0 := by
    rw [checkTurn_eq_ok_iff, hslot, hzero, and_iff_right hturn]
    generalize s.epoch.toNat * v.store.validatorSetSize.toNat = start
    omega
  refine ⟨hturn, hslot, hiff, fun hrefused bytes nonce => ?_⟩
  rw [ne_eq, hiff, hzero] at hrefused
  generalize hstart : s.epoch.toNat * v.store.validatorSetSize.toNat = start at hslot hrefused
  have hmismatch := checkTurn_eq_mismatch (s := s.unsealed.withSignature bytes) hturn
    (by
      change min (s.epoch.toNat * v.store.validatorSetSize.toNat) (UInt64.size - 1) ≤ s.slot.toNat
      omega)
    (by
      change s.slot.toNat <
        min (s.epoch.toNat * v.store.validatorSetSize.toNat) (UInt64.size - 1) + s.turn.toNat
      omega)
  exact verify_of_checkTurn_error (SlotSeal.decode_encode _) rfl hmismatch

end BlockSeal.SlotVerifier

/-! ## Slots beyond the largest word -/

namespace BlockSeal.Sample

/-- An epoch of two slots before which there are more slots than the largest word. -/
def farInfo : EpochInfo := { info with epoch := 9223372036854775808 }

def farStore : EpochStore := { store with epochs.entries := [(9223372036854775808, farInfo)] }

def farVerifier : SlotVerifier where
  store := farStore
  tolerance := 0

/-- The seal with the largest number. -/
def lastSlot (epoch turn : UInt64) : SlotSeal where
  slot := UInt64.maxValue
  epoch := epoch
  turn := turn

theorem farStore_reachable : farStore.Reachable :=
  ⟨2, 10, 3, { store with epochs.entries := [] }, [⟨_, .insert 9223372036854775808 farInfo⟩],
    rfl, rfl⟩

end BlockSeal.Sample

namespace BlockSeal.SlotVerifier

theorem prepare_checkTurn_declared : Sample.store.Reachable ∧
    (Sample.verifier.prepare Sample.draft).1 = .ok (Sample.declared, Sample.header) ∧
    checkTurn 2 Sample.declared = .ok () := by
  have hprepare : (Sample.verifier.prepare Sample.draft).1 = .ok (Sample.declared, Sample.header) :=
    (prepare_eq_ok_iff Sample.store_reachable.sound).2
      ⟨Sample.info, 1, rfl, by decide, by decide, rfl⟩
  obtain ⟨hprepared, -, -⟩ := prepare_checkTurn (v := Sample.verifier) Sample.store_reachable
  obtain ⟨-, -, hiff, -⟩ := hprepared _ _ _ hprepare
  exact ⟨Sample.store_reachable, hprepare, hiff.2 (by decide)⟩

/-- For the second slot of the far epoch the largest word is written, which is not the number of the
slot, and the seal is refused. For the first slots of this epoch and of the next one the check passes
the largest word. -/
theorem prepare_lastSlot_refused : Sample.farStore.Reachable ∧
    (Sample.farVerifier.prepare Sample.draft).1 =
      .ok (Sample.lastSlot 9223372036854775808 1,
        { Sample.draft with extra := (Sample.lastSlot 9223372036854775808 1).encode }) ∧
    (Sample.lastSlot 9223372036854775808 1).slot.toNat ≠ 9223372036854775808 * 2 + 1 ∧
    checkTurn 2 (Sample.lastSlot 9223372036854775808 1) ≠ .ok () ∧
    checkTurn 2 (Sample.lastSlot 9223372036854775808 0) = .ok () ∧
    checkTurn 2 (Sample.lastSlot 9223372036854775809 0) = .ok () := by
  refine ⟨Sample.farStore_reachable, ?_, by decide, by decide, by decide, by decide⟩
  exact (prepare_eq_ok_iff Sample.farStore_reachable.sound).2
    ⟨Sample.farInfo, 1, rfl, by decide, by decide, rfl⟩

end BlockSeal.SlotVerifier
