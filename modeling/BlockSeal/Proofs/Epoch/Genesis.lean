import BlockSeal.Proofs.Epoch.Insertion

/-! # Epochs that are counted from a genesis

When every epoch starts where a genesis time and its number put it, the epochs always fit each other,
and a time is resolved by division.

* `toNat_startingFrom`: the start of such an epoch is that in a schedule without a largest time, cut
  off there once.
* `Follows`: a store of such epochs. `Follows.insert_eq_ok`, `Follows.covers_iff`: any further one is
  taken in, and the epoch that covers a time is the quotient.
* `Follows.perform`, `Follows.run`: one call keeps a store to the schedule, and so does a run.
* `genesis_run`: every insertion succeeds, and what a time is resolved to.
-/

set_option autoImplicit false

namespace BlockSeal

/-! ## The start of an epoch -/

theorem EpochInfo.toNat_startingFrom (info : EpochInfo) (genesis count : UInt64) :
    (info.startingFrom genesis count).epochStart.toNat =
      min (genesis.toNat + info.epoch.toNat * (info.slotDuration.mulCapped count).toNat)
        (UInt64.size - 1) := by
  simp only [startingFrom, UInt64.toNat_addCapped, UInt64.toNat_mulCapped]
  omega

/-- Starts at the multiples of a width after a genesis leave room for the epochs between them. -/
theorem EpochInfo.precedes_of_starts {width : UInt64} {genesis : Nat} {a b : EpochInfo}
    (ha : a.epochStart.toNat =
      min (genesis + a.epoch.toNat * width.toNat) (UInt64.size - 1))
    (hb : b.epochStart.toNat =
      min (genesis + b.epoch.toNat * width.toNat) (UInt64.size - 1))
    (hlt : a.epoch < b.epoch) : a.Precedes width b := by
  have hgap : b.epoch.toNat * width.toNat =
      a.epoch.toNat * width.toNat + (b.epoch.toNat - a.epoch.toNat) * width.toNat := by
    rw [← Nat.add_mul]
    rw [UInt64.lt_iff_toNat_lt] at hlt
    congr 1
    omega
  rw [Precedes, ha, hb, hgap]
  omega

namespace EpochStore

variable {genesis size duration : UInt64} {s : EpochStore} {info : EpochInfo} {time : UInt64}

/-! ## Stores that follow a genesis -/

/-- The epochs of the store have `size` slots of the given duration each, and they start where
`genesis` puts them. -/
structure Follows (genesis size duration : UInt64) (s : EpochStore) : Prop where
  scheduled : s.Scheduled
  validatorSetSize : s.validatorSetSize = size
  slotDuration : s.slotDuration = duration
  start : ∀ e ∈ s.epochs.entries, e.2.startingFrom genesis size = e.2

theorem Follows.checkShape_iff (hs : Follows genesis size duration s) {epoch : UInt64} :
    s.checkShape epoch info = .ok () ↔ info.epoch = epoch ∧
      info.validators.length = size.toNat ∧ info.slotDuration = duration := by
  rw [checkShape_eq_ok_iff, hs.validatorSetSize, hs.slotDuration]

theorem Follows.toNat_start (hs : Follows genesis size duration s)
    (hduration : info.slotDuration = duration)
    (hstart : info.startingFrom genesis size = info) : info.epochStart.toNat =
      min (genesis.toNat + info.epoch.toNat * s.epochWidth.toNat) (UInt64.size - 1) := by
  have h := info.toNat_startingFrom genesis size
  rw [hstart, hduration] at h
  rwa [epochWidth, hs.validatorSetSize, hs.slotDuration]

theorem Follows.toNat_start_of_mem (hs : Follows genesis size duration s)
    {e : UInt64 × EpochInfo} (he : e ∈ s.epochs.entries) : e.2.epochStart.toNat =
      min (genesis.toNat + e.2.epoch.toNat * s.epochWidth.toNat) (UInt64.size - 1) :=
  hs.toNat_start ((hs.scheduled.sound.entry he).2.2.trans hs.slotDuration) (hs.start e he)

/-- Whatever is stored, a further epoch that starts where the genesis puts it is not refused. -/
theorem Follows.insert_eq_ok (hs : Follows genesis size duration s)
    (hlength : info.validators.length = size.toNat) (hduration : info.slotDuration = duration)
    (hstart : info.startingFrom genesis size = info) :
    (s.insert info.epoch info).1 = .ok () := by
  have hinfo := hs.toNat_start hduration hstart
  refine hs.scheduled.sound.insert_of_fits
    (hs.checkShape_iff.2 ⟨rfl, hlength, hduration⟩) fun e he _ => ?_
  have hentry := hs.toNat_start_of_mem he
  exact ⟨EpochInfo.precedes_of_starts hinfo hentry, EpochInfo.precedes_of_starts hentry hinfo⟩

/-- Before the largest time, the epoch that covers a time is the one that division gives. -/
theorem Follows.covers_iff (hs : Follows genesis size duration s) (hwidth : 0 < s.epochWidth.toNat)
    {e : UInt64 × EpochInfo} (he : e ∈ s.epochs.entries) (htime : time.toNat < UInt64.size - 1) :
    e.2.covers time = true ↔ genesis.toNat ≤ time.toNat ∧
      e.1.toNat = (time.toNat - genesis.toNat) / s.epochWidth.toNat := by
  rw [EpochInfo.covers_iff, hs.scheduled.sound.width he, hs.toNat_start_of_mem he,
    (hs.scheduled.sound.entry he).1, eq_comm (a := e.1.toNat), Nat.div_eq_iff hwidth]
  omega

/-! ## Every run -/

/-- Whether what a call inserts, if anything, is an epoch under its number, with `size` slots of the
given duration, that starts where `genesis` puts it. -/
def Call.IsRegular {α : Type} (genesis size duration : UInt64) (call : Call α) : Prop :=
  ∀ epoch info, call.inserted? = some (epoch, info) → info.epoch = epoch ∧
    info.validators.length = size.toNat ∧ info.slotDuration = duration ∧
    info.startingFrom genesis size = info

theorem follows_create {capacity : UInt64} (h : create size duration capacity = .ok s) :
    Follows genesis size duration s := by
  have hscheduled := scheduled_create h
  obtain ⟨_, _, _, rfl⟩ := create_eq_ok_iff.1 h
  exact ⟨hscheduled, rfl, rfl, nofun⟩

theorem Follows.use (hs : Follows genesis size duration s) {epoch : UInt64}
    (hscheduled : (s.use epoch info).Scheduled) (hstart : info.startingFrom genesis size = info) :
    Follows genesis size duration (s.use epoch info) where
  scheduled := hscheduled
  validatorSetSize := hs.validatorSetSize
  slotDuration := hs.slotDuration
  start := by
    intro e he
    rcases Recency.mem_entries_touch he with rfl | he
    · exact hstart
    · exact hs.start e he

/-- **One call.** -/
theorem Follows.perform {α : Type} (hs : Follows genesis size duration s) {call : Call α}
    (hcall : call.IsRegular genesis size duration) :
    Follows genesis size duration (s.perform call).2 := by
  rcases perform_cases hs.scheduled.sound call with
    h | ⟨epoch, info, hpeek, h⟩ | ⟨epoch, info, hinserted, hshape, hadmits, h⟩
  · rwa [h]
  · have hmem := hs.scheduled.sound.peek_eq_some_iff.1 hpeek
    rw [h]
    exact hs.use (hs.scheduled.use_stored hpeek) (hs.start _ hmem)
  · rw [h]
    exact hs.use (hs.scheduled.use_admitted hshape hadmits) (hcall epoch info hinserted).2.2.2

/-- **Every run.** -/
theorem Follows.run (hs : Follows genesis size duration s) {calls : List (Σ α : Type, Call α)}
    (hcalls : ∀ call ∈ calls, call.2.IsRegular genesis size duration) :
    Follows genesis size duration (EpochStore.run calls s) := by
  induction calls generalizing s with
  | nil => exact hs
  | cons call calls ih =>
    obtain ⟨hcall, hrest⟩ := List.forall_mem_cons.1 hcalls
    exact ih (hs.perform hcall) hrest

/-- **Epochs counted from a genesis.** Into an empty store come epochs that start where the genesis
puts them, in any order, and any other calls come between them. Then no insertion is refused; and
before the largest time, a time is resolved exactly when it does not lie before the genesis and the
quotient of its distance from there by the width of an epoch is the number of a stored epoch, which
is then the answer. -/
theorem genesis_run {capacity : UInt64} {empty : EpochStore} {calls : List (Σ α : Type, Call α)}
    (hcreate : create size duration capacity = .ok empty)
    (hcalls : ∀ call ∈ calls, call.2.IsRegular genesis size duration) :
    (∀ before epoch info after, calls = before ++ ⟨_, .insert epoch info⟩ :: after →
      ((EpochStore.run before empty).insert epoch info).1 = .ok ()) ∧
    ∀ time : UInt64, time.toNat < UInt64.size - 1 → ∀ info,
      ((EpochStore.run calls empty).resolve time).1 = .ok info ↔
        genesis.toNat ≤ time.toNat ∧ ∃ epoch : UInt64,
          epoch.toNat = (time.toNat - genesis.toNat) /
            min (size.toNat * duration.toNat) (UInt64.size - 1) ∧
          (EpochStore.run calls empty).peek epoch = some info := by
  have hempty : Follows genesis size duration empty := follows_create hcreate
  constructor
  · rintro before epoch info after rfl
    have hbefore : ∀ call ∈ before, call.2.IsRegular genesis size duration :=
      fun call hcall => hcalls call (List.mem_append_left _ hcall)
    have hinsert : (Call.insert epoch info).IsRegular genesis size duration :=
      hcalls ⟨_, .insert epoch info⟩ (by simp)
    obtain ⟨rfl, hlength, hduration, hstart⟩ := hinsert epoch info rfl
    exact (hempty.run hbefore).insert_eq_ok hlength hduration hstart
  · intro time htime info
    have hs := hempty.run hcalls
    have hwidth : (EpochStore.run calls empty).epochWidth.toNat =
        min (size.toNat * duration.toNat) (UInt64.size - 1) := by
      rw [epochWidth, hs.validatorSetSize, hs.slotDuration, UInt64.toNat_mulCapped, Nat.mul_comm]
    have hpos : 0 < (EpochStore.run calls empty).epochWidth.toNat := by
      obtain ⟨hsize, hduration, _, _⟩ := create_eq_ok_iff.1 hcreate
      have hproduct : 0 < size.toNat * duration.toNat :=
        Nat.mul_pos (Nat.pos_of_ne_zero fun h => hsize (UInt64.toNat_inj.1 h))
          (Nat.pos_of_ne_zero fun h => hduration (UInt64.toNat_inj.1 h))
      have hlarge : 0 < UInt64.size - 1 := by decide
      rw [hwidth]
      exact Nat.lt_min.2 ⟨hproduct, hlarge⟩
    have hcovers : ∀ epoch, (EpochStore.run calls empty).peek epoch = some info →
        (info.covers time = true ↔ genesis.toNat ≤ time.toNat ∧
          epoch.toNat = (time.toNat - genesis.toNat) /
            min (size.toNat * duration.toNat) (UInt64.size - 1)) := by
      intro epoch hpeek
      rw [← hwidth]
      exact hs.covers_iff hpos (hs.scheduled.sound.peek_eq_some_iff.1 hpeek) htime
    rw [hs.scheduled.resolve_eq_ok_iff]
    constructor
    · rintro ⟨epoch, hpeek, hcovered⟩
      obtain ⟨hgenesis, hepoch⟩ := (hcovers epoch hpeek).1 hcovered
      exact ⟨hgenesis, epoch, hepoch, hpeek⟩
    · rintro ⟨hgenesis, epoch, hepoch, hpeek⟩
      exact ⟨epoch, hpeek, (hcovers epoch hpeek).2 ⟨hgenesis, hepoch⟩⟩

end EpochStore

/-! ## Three epochs -/

namespace Sample

/-- Epochs of ten seconds after a genesis at the fifth second. -/
def counted (epoch : UInt64) : EpochInfo := (tenSeconds epoch 0).startingFrom 5 1

/-- The last epoch starts at the largest time, and epoch 0 is dropped for it. -/
def counting : List (Σ α : Type, EpochStore.Call α) := [
  ⟨_, .insert 3 (counted 3)⟩, ⟨_, .insert 0 (counted 0)⟩, ⟨_, .get 3⟩,
  ⟨_, .insert UInt64.maxValue (counted UInt64.maxValue)⟩]

theorem counting_isRegular : ∀ call ∈ counting, call.2.IsRegular 5 1 10 := by
  intro call hcall epoch info hinserted
  simp only [counting, List.mem_cons, List.not_mem_nil, or_false] at hcall
  rcases hcall with rfl | rfl | rfl | rfl <;> cases hinserted <;> exact ⟨rfl, rfl, rfl, rfl⟩

end Sample

namespace EpochStore

/-- The last epoch is taken in, 40 is resolved to epoch 3, and 7 not to epoch 0. -/
theorem counting_resolves : create 1 10 2 = .ok Sample.vacant ∧
    (∀ call ∈ Sample.counting, call.2.IsRegular 5 1 10) ∧
    ((EpochStore.run (Sample.counting.take 3) Sample.vacant).insert UInt64.maxValue
      (Sample.counted UInt64.maxValue)).1 = .ok () ∧
    ((EpochStore.run Sample.counting Sample.vacant).resolve 40).1 = .ok (Sample.counted 3) ∧
    ((EpochStore.run Sample.counting Sample.vacant).resolve 7).1 ≠ .ok (Sample.counted 0) := by
  have hcreate : create 1 10 2 = .ok Sample.vacant := rfl
  obtain ⟨hinserts, htimes⟩ := genesis_run hcreate Sample.counting_isRegular
  refine ⟨hcreate, Sample.counting_isRegular, hinserts _ _ _ [] rfl,
    (htimes 40 (by decide) _).2 ⟨by decide, 3, by decide, rfl⟩, fun h => ?_⟩
  obtain ⟨-, epoch, hepoch, hpeek⟩ := (htimes 7 (by decide) _).1 h
  have hzero : epoch = 0 := UInt64.toNat_inj.1 hepoch
  rw [hzero] at hpeek
  cases hpeek

end EpochStore

end BlockSeal
