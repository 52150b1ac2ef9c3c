import BlockSeal.Proofs.Epoch.Slots

/-! # The slots of an epoch share out its time

Preparation divides a time by the slot duration, and verification multiplies the turn by it. Both
describe the same slots, also where the slots have no length and where the largest time cuts them off.

* `contains_slotWindow_iff`: the times of a slot, in a schedule without a largest time.
* `slotWindow_within`: the slots of an epoch lie in its window.
* `turn_unique`: no time lies in two slots.
* `turnAt_eq_some_iff`: the position of a time is that of the slot in which it lies.
* `slots_partition`: all of this together.
-/

set_option autoImplicit false

namespace BlockSeal.EpochInfo

variable {info : EpochInfo} {time turn other : UInt64}

/-! ## One slot -/

/-- No time is lost where the bounds of a slot are cut off: the largest time itself is in no window. -/
theorem contains_slotWindow_iff : (info.slotWindow turn).contains time = true ↔
    info.epochStart.toNat + turn.toNat * info.slotDuration.toNat ≤ time.toNat ∧
      time.toNat < min (info.epochStart.toNat + (turn.toNat + 1) * info.slotDuration.toNat)
        (UInt64.size - 1) := by
  simp only [Window.contains, Bool.and_eq_true, decide_eq_true_eq, UInt64.le_iff_toNat_le,
    UInt64.lt_iff_toNat_lt, toNat_slotWindow_start, toNat_slotWindow_stop]
  omega

/-- The slots up to and with that of a validator take no longer than the epoch. -/
theorem slots_le_width (hturn : turn.toNat < info.validators.length) :
    min ((turn.toNat + 1) * info.slotDuration.toNat) (UInt64.size - 1) ≤ info.width.toNat := by
  rw [toNat_width, Nat.mul_comm info.slotDuration.toNat]
  by_cases hcount : turn.toNat + 1 ≤ UInt64.size - 1
  · have hle : (turn.toNat + 1) * info.slotDuration.toNat ≤
        min info.validators.length (UInt64.size - 1) * info.slotDuration.toNat :=
      Nat.mul_le_mul_right _ (by omega)
    omega
  · -- More validators than a word can count: if the slots have a length at all, they fill all time.
    rw [Nat.min_eq_right (show UInt64.size - 1 ≤ info.validators.length by omega)]
    rcases Nat.eq_zero_or_pos info.slotDuration.toNat with hzero | hpos
    · simp [hzero]
    · have hfull := Nat.le_mul_of_pos_right (UInt64.size - 1) hpos
      omega

theorem slotWindow_within (hturn : turn.toNat < info.validators.length) :
    info.window.start ≤ (info.slotWindow turn).start ∧
      (info.slotWindow turn).stop ≤ info.window.stop := by
  have hstart : info.window.start.toNat = info.epochStart.toNat := rfl
  have hstop : info.window.stop.toNat =
      min (info.epochStart.toNat + info.width.toNat) (UInt64.size - 1) := UInt64.toNat_addCapped _ _
  have hword := info.epochStart.toNat_lt_size
  have hwidth := slots_le_width hturn
  rw [UInt64.le_iff_toNat_le, UInt64.le_iff_toNat_le, toNat_slotWindow_start,
    toNat_slotWindow_stop, hstart, hstop]
  omega

theorem covers_of_contains_slotWindow (hturn : turn.toNat < info.validators.length)
    (hcontains : (info.slotWindow turn).contains time = true) : info.covers time = true := by
  obtain ⟨hstart, hstop⟩ := slotWindow_within hturn
  simp only [covers, Window.contains, Bool.and_eq_true, decide_eq_true_eq] at hcontains ⊢
  exact ⟨UInt64.le_trans hstart hcontains.1, UInt64.lt_of_lt_of_le hcontains.2 hstop⟩

/-! ## All slots -/

/-- Of two slots with a time in common each starts before the other one is over. -/
theorem turn_unique (hturn : (info.slotWindow turn).contains time = true)
    (hother : (info.slotWindow other).contains time = true) : turn = other := by
  obtain ⟨hstart, hstop⟩ := contains_slotWindow_iff.1 hturn
  obtain ⟨hstart', hstop'⟩ := contains_slotWindow_iff.1 hother
  have hle : turn.toNat < other.toNat + 1 :=
    Nat.lt_of_mul_lt_mul_right (a := info.slotDuration.toNat) (by omega)
  have hle' : other.toNat < turn.toNat + 1 :=
    Nat.lt_of_mul_lt_mul_right (a := info.slotDuration.toNat) (by omega)
  exact UInt64.toNat_inj.1 (by omega)

theorem turnAt_of_covers (h : info.covers time = true) : ∃ turn, info.turnAt time = some turn :=
  ⟨_, if_pos h⟩

theorem turnAt_eq_some_iff : info.turnAt time = some turn ↔
    turn.toNat < info.validators.length ∧ (info.slotWindow turn).contains time = true := by
  have hfound : ∀ {turn}, info.turnAt time = some turn →
      turn.toNat < info.validators.length ∧ (info.slotWindow turn).contains time = true := by
    intro turn h
    obtain ⟨hturn, hstart, hstop⟩ := turnAt_eq_some h
    simp only [Window.contains, Bool.and_eq_true, decide_eq_true_eq, UInt64.le_iff_toNat_le,
      UInt64.lt_iff_toNat_lt]
    exact ⟨hturn, hstart, hstop⟩
  constructor
  · exact hfound
  · rintro ⟨hturn, hcontains⟩
    obtain ⟨found, h⟩ := turnAt_of_covers (covers_of_contains_slotWindow hturn hcontains)
    rw [h, turn_unique (hfound h).2 hcontains]

/-- **The slots of an epoch.** Whatever the start of an epoch, the length of its slots and the number of
its validators, the position of a time is that of a validator in whose slot it lies, and only of such
a one. So the times that the epoch covers are those that lie in one slot, no slot reaches out of the
epoch, and at a position that is found there is a validator. -/
theorem slots_partition (info : EpochInfo) :
    (∀ time turn, info.turnAt time = some turn ↔
      turn.toNat < info.validators.length ∧ (info.slotWindow turn).contains time = true) ∧
    (∀ time, info.covers time = true ↔ ∃! turn : UInt64,
      turn.toNat < info.validators.length ∧ (info.slotWindow turn).contains time = true) ∧
    (∀ turn : UInt64, turn.toNat < info.validators.length →
      info.window.start ≤ (info.slotWindow turn).start ∧
        (info.slotWindow turn).stop ≤ info.window.stop) ∧
    ∀ time turn, info.turnAt time = some turn → ∃ signer, info.validator turn = some signer := by
  refine ⟨fun _ _ => turnAt_eq_some_iff, fun time => ⟨fun hcovers => ?_, ?_⟩,
    fun _ => slotWindow_within, fun time turn h => ?_⟩
  · obtain ⟨turn, h⟩ := turnAt_of_covers hcovers
    have hslot := turnAt_eq_some_iff.1 h
    exact ⟨turn, hslot, fun other hother => turn_unique hother.2 hslot.2⟩
  · rintro ⟨turn, ⟨hturn, hcontains⟩, _⟩
    exact covers_of_contains_slotWindow hturn hcontains
  · exact ⟨_, List.getElem?_eq_getElem (turnAt_eq_some_iff.1 h).1⟩

end BlockSeal.EpochInfo

/-! ## An epoch that runs into the largest time -/

namespace BlockSeal.Sample

/-- Three slots of ten seconds, of which the second one is cut short and the third one has no time. -/
def lastEpoch : EpochInfo where
  epoch := 7
  validators := [⟨generator⟩, ⟨generator⟩, ⟨generator⟩]
  epochStart := 18446744073709551600
  slotDuration := 10

end BlockSeal.Sample

namespace BlockSeal.EpochInfo

/-- The last time before the largest one lies in the second slot and in no other. -/
theorem lastEpoch_partition :
    Sample.lastEpoch.window.stop = UInt64.maxValue ∧
    Sample.lastEpoch.turnAt 18446744073709551614 = some 1 ∧
    (∃! turn : UInt64, turn.toNat < Sample.lastEpoch.validators.length ∧
      (Sample.lastEpoch.slotWindow turn).contains 18446744073709551614 = true) ∧
    (Sample.lastEpoch.slotWindow 2).stop ≤ Sample.lastEpoch.window.stop ∧
    ∃ signer, Sample.lastEpoch.validator 1 = some signer := by
  obtain ⟨hturn, hcovers, hwithin, hsigner⟩ := slots_partition Sample.lastEpoch
  have hfound : Sample.lastEpoch.turnAt 18446744073709551614 = some 1 :=
    (hturn _ _).2 ⟨by decide, by decide⟩
  exact ⟨by decide, hfound, (hcovers _).1 (by decide), (hwithin 2 (by decide)).2, hsigner _ _ hfound⟩

end BlockSeal.EpochInfo
