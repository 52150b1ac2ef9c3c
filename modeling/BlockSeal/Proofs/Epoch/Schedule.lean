import BlockSeal.Proofs.Epoch.Run
import BlockSeal.Proofs.Epoch.Slots

/-! # The schedule of the stored epochs

The epochs of a store start in the order of their numbers, and far enough apart for all the epochs
between them. An epoch is taken in when it fits between the stored ones, and whatever is taken in,
replaced or dropped later, the epochs that stay still fit one another.

* `EpochInfo.Precedes`: one epoch leaves room for the epochs up to a later one. `EpochInfo.Fits`: the
  same of two epochs, whichever is the later one.
* `admits_eq_ok_true_iff`: which epochs are taken in beside the stored ones.
* `Scheduled`: a sound store in which every epoch precedes the later ones.
* `Scheduled.perform`, `Scheduled.run`: one call keeps a store scheduled, and so does a run.
* `run_keeps_schedule`: what that says of the epochs in a store after any run.
-/

set_option autoImplicit false

namespace BlockSeal

/-! ## Two epochs -/

namespace EpochInfo

/-- The epoch `later` starts no earlier than it would if every epoch from `info` on took `width`
seconds, or else it starts at the largest time. -/
def Precedes (width : UInt64) (info later : EpochInfo) : Prop :=
  min (info.epochStart.toNat + (later.epoch.toNat - info.epoch.toNat) * width.toNat)
    (UInt64.size - 1) ≤ later.epochStart.toNat

/-- An epoch is over before a later one starts. -/
theorem Precedes.stop_le {info later : EpochInfo} (h : info.Precedes info.width later)
    (hlt : info.epoch < later.epoch) : info.window.stop.toNat ≤ later.epochStart.toNat := by
  have hstop : info.window.stop.toNat =
      min (info.epochStart.toNat + info.width.toNat) (UInt64.size - 1) :=
    UInt64.toNat_addCapped _ _
  have hgap : 0 < later.epoch.toNat - info.epoch.toNat := by
    rw [UInt64.lt_iff_toNat_lt] at hlt
    omega
  have hwidth : info.width.toNat ≤ (later.epoch.toNat - info.epoch.toNat) * info.width.toNat :=
    Nat.le_mul_of_pos_left _ hgap
  unfold Precedes at h
  omega

/-- Two epochs leave room for the epochs between them, whichever of the two is the earlier one. -/
def Fits (width : UInt64) (a b : EpochInfo) : Prop :=
  (a.epoch < b.epoch → a.Precedes width b) ∧ (b.epoch < a.epoch → b.Precedes width a)

theorem Fits.symm {width : UInt64} {a b : EpochInfo} (h : a.Fits width b) : b.Fits width a :=
  ⟨h.2, h.1⟩

end EpochInfo

theorem Window.not_contains_of_stop_le {a b : Window} (h : a.stop.toNat ≤ b.start.toNat)
    (time : UInt64) : ¬ (a.contains time = true ∧ b.contains time = true) := by
  simp only [contains, Bool.and_eq_true, decide_eq_true_eq, UInt64.le_iff_toNat_le,
    UInt64.lt_iff_toNat_lt]
  omega

namespace EpochStore

/-! ## What is taken in -/

/-- The earlier of two epochs is looked at in one way when it comes in and in another way when it is
stored already, and both ways say that the two fit. -/
theorem overlaps_eq_false_iff {width : UInt64} {info stored : EpochInfo}
    (hne : stored.epoch ≠ info.epoch) :
    overlaps width info stored.epoch stored = false ↔ info.Fits width stored := by
  unfold overlaps
  rcases UInt64.lt_or_lt_of_ne hne with hlt | hlt
  · have hsub : (info.epoch - stored.epoch).toNat = info.epoch.toNat - stored.epoch.toNat :=
      UInt64.toNat_sub_of_le _ _ (UInt64.le_of_lt hlt)
    have hfits : info.Fits width stored ↔ stored.Precedes width info :=
      ⟨fun h => h.2 hlt, fun h => ⟨fun hafter => absurd hafter (UInt64.lt_asymm hlt), fun _ => h⟩⟩
    rw [if_pos hlt, decide_eq_false_iff_not, UInt64.lt_iff_toNat_lt, UInt64.toNat_addCapped,
      UInt64.toNat_mulCapped, hsub, hfits, EpochInfo.Precedes]
    omega
  · have hsub : (stored.epoch - info.epoch).toNat = stored.epoch.toNat - info.epoch.toNat :=
      UInt64.toNat_sub_of_le _ _ (UInt64.le_of_lt hlt)
    have hfits : info.Fits width stored ↔ info.Precedes width stored :=
      ⟨fun h => h.1 hlt, fun h => ⟨fun _ => h, fun hbefore => absurd hbefore (UInt64.lt_asymm hlt)⟩⟩
    rw [if_neg (UInt64.lt_asymm hlt), decide_eq_false_iff_not, UInt64.lt_iff_toNat_lt,
      UInt64.toNat_addCapped, UInt64.toNat_mulCapped, hsub, hfits, EpochInfo.Precedes]
    omega

/-- An epoch is taken in exactly when it is not stored already and overlaps no other epoch. -/
theorem admits_eq_ok_true_iff {width epoch : UInt64} {info : EpochInfo}
    {entries : List (UInt64 × EpochInfo)} :
    admits width epoch info entries = .ok true ↔
      ∀ e ∈ entries, if e.1 = epoch then e.2 ≠ info else overlaps width info e.1 e.2 = false := by
  induction entries with
  | nil => simp [admits]
  | cons e entries ih =>
    obtain ⟨other, stored⟩ := e
    rw [List.forall_mem_cons, ← ih]
    by_cases hsame : other = epoch
    · by_cases hinfo : stored = info
      · simp [admits, hsame, hinfo]
      · simp [admits, hsame, hinfo]
    · cases hover : overlaps width info other stored with
      | true => simp [admits, hsame, hover]
      | false => simp [admits, hsame, hover]

theorem exists_admits_eq_ok {width epoch : UInt64} {info : EpochInfo}
    {entries : List (UInt64 × EpochInfo)}
    (h : ∀ e ∈ entries, e.1 ≠ epoch → overlaps width info e.1 e.2 = false) :
    ∃ admitted, admits width epoch info entries = .ok admitted := by
  induction entries with
  | nil => exact ⟨true, rfl⟩
  | cons e entries ih =>
    obtain ⟨other, stored⟩ := e
    obtain ⟨hhead, htail⟩ := List.forall_mem_cons.1 h
    obtain ⟨admitted, hadmitted⟩ := ih htail
    by_cases hsame : other = epoch
    · by_cases hinfo : stored = info
      · exact ⟨false, by simp [admits, hsame, hinfo]⟩
      · exact ⟨admitted, by simp [admits, hsame, hinfo, hadmitted]⟩
    · exact ⟨admitted, by simp [admits, hsame, hhead hsame, hadmitted]⟩

/-- An epoch is left out without a refusal only when it is stored already. -/
theorem mem_of_admits_eq_ok_false {width epoch : UInt64} {info : EpochInfo}
    {entries : List (UInt64 × EpochInfo)} (h : admits width epoch info entries = .ok false) :
    (epoch, info) ∈ entries := by
  induction entries with
  | nil => cases h
  | cons e entries ih =>
    obtain ⟨other, stored⟩ := e
    unfold admits at h
    split at h
    · rename_i hsame
      split at h
      · rename_i hinfo
        rw [hsame, hinfo]
        exact List.mem_cons_self
      · exact List.mem_cons_of_mem _ (ih h)
    · split at h
      · cases h
      · exact List.mem_cons_of_mem _ (ih h)

/-! ## Scheduled stores -/

/-- In order, and every epoch leaves room for the epochs up to the later ones. -/
structure Scheduled (s : EpochStore) : Prop where
  sound : s.Sound
  precedes : ∀ a ∈ s.epochs.entries, ∀ b ∈ s.epochs.entries, a.1 < b.1 →
    a.2.Precedes s.epochWidth b.2

theorem Sound.entry {s : EpochStore} (hs : s.Sound) {e : UInt64 × EpochInfo}
    (h : e ∈ s.epochs.entries) : e.2.epoch = e.1 ∧
      e.2.validators.length = s.validatorSetSize.toNat ∧ e.2.slotDuration = s.slotDuration :=
  checkShape_eq_ok_iff.1 (hs.shaped e.1 e.2 h)

/-- Every epoch of a sound store is as long as the store's epochs are. -/
theorem Sound.width {s : EpochStore} (hs : s.Sound) {e : UInt64 × EpochInfo}
    (h : e ∈ s.epochs.entries) : e.2.width = s.epochWidth := by
  obtain ⟨_, hlength, hduration⟩ := hs.entry h
  have hcount : UInt64.capped e.2.validators.length = s.validatorSetSize := by
    apply UInt64.toNat_inj.1
    have hlt := s.validatorSetSize.toNat_lt_size
    rw [UInt64.toNat_capped, hlength]
    omega
  rw [EpochInfo.width, epochWidth, hcount, hduration]

theorem Sound.overlaps_iff {s : EpochStore} (hs : s.Sound) {info : EpochInfo}
    {e : UInt64 × EpochInfo} (he : e ∈ s.epochs.entries) (hne : e.1 ≠ info.epoch) :
    overlaps s.epochWidth info e.1 e.2 = false ↔ info.Fits s.epochWidth e.2 := by
  rw [← (hs.entry he).1] at hne ⊢
  exact overlaps_eq_false_iff hne

theorem scheduled_create {size duration capacity : UInt64} {s : EpochStore}
    (h : create size duration capacity = .ok s) : s.Scheduled := by
  refine ⟨sound_create h, ?_⟩
  obtain ⟨_, _, _, rfl⟩ := create_eq_ok_iff.1 h
  intro a ha
  cases ha

/-- Using an epoch that is in order with all epochs of other numbers. What is dropped for it, or
replaced by it, only takes pairs away. -/
theorem Scheduled.use {s : EpochStore} (hs : s.Scheduled) {epoch : UInt64} {info : EpochInfo}
    (hshape : s.checkShape epoch info = .ok ())
    (hbefore : ∀ e ∈ s.epochs.entries, e.1 < epoch → e.2.Precedes s.epochWidth info)
    (hafter : ∀ e ∈ s.epochs.entries, epoch < e.1 → info.Precedes s.epochWidth e.2) :
    (s.use epoch info).Scheduled := by
  refine ⟨hs.sound.use hshape, ?_⟩
  intro a ha b hb hlt
  change a.2.Precedes s.epochWidth b.2
  rcases Recency.mem_entries_touch ha with rfl | ha
  · rcases Recency.mem_entries_touch hb with rfl | hb
    · exact absurd hlt (UInt64.lt_irrefl _)
    · exact hafter b hb hlt
  · rcases Recency.mem_entries_touch hb with rfl | hb
    · exact hbefore a ha hlt
    · exact hs.precedes a ha b hb hlt

theorem Scheduled.use_stored {s : EpochStore} (hs : s.Scheduled) {epoch : UInt64}
    {info : EpochInfo} (h : s.peek epoch = some info) : (s.use epoch info).Scheduled := by
  have hmem := hs.sound.peek_eq_some_iff.1 h
  apply hs.use (hs.sound.checkShape h)
  · intro e he hlt
    exact hs.precedes e he _ hmem hlt
  · intro e he hlt
    exact hs.precedes _ hmem e he hlt

theorem Scheduled.use_admitted {s : EpochStore} (hs : s.Scheduled) {epoch : UInt64}
    {info : EpochInfo} (hshape : s.checkShape epoch info = .ok ())
    (hadmits : admits s.epochWidth epoch info s.epochs.entries = .ok true) :
    (s.use epoch info).Scheduled := by
  obtain rfl : info.epoch = epoch := (checkShape_eq_ok_iff.1 hshape).1
  have hfits : ∀ e ∈ s.epochs.entries, e.1 ≠ info.epoch → info.Fits s.epochWidth e.2 := by
    intro e he hne
    have hover := admits_eq_ok_true_iff.1 hadmits e he
    rw [if_neg hne] at hover
    exact (hs.sound.overlaps_iff he hne).1 hover
  apply hs.use hshape
  · intro e he hlt
    have hbefore : e.2.epoch < info.epoch := by rwa [(hs.sound.entry he).1]
    exact (hfits e he (UInt64.ne_of_lt hlt)).2 hbefore
  · intro e he hlt
    have hafter : info.epoch < e.2.epoch := by rwa [(hs.sound.entry he).1]
    exact (hfits e he (UInt64.ne_of_lt hlt).symm).1 hafter

/-- **One call.** Whether it uses a stored epoch or takes a new one in, the schedule is kept. -/
theorem Scheduled.perform {α : Type} {s : EpochStore} (hs : s.Scheduled) (call : Call α) :
    (s.perform call).2.Scheduled := by
  rcases perform_cases hs.sound call with
    h | ⟨epoch, info, hpeek, h⟩ | ⟨epoch, info, _, hshape, hadmits, h⟩
  · rwa [h]
  · rw [h]
    exact hs.use_stored hpeek
  · rw [h]
    exact hs.use_admitted hshape hadmits

/-- **Every run.** -/
theorem Scheduled.run {s : EpochStore} (hs : s.Scheduled) (calls : List (Σ α : Type, Call α)) :
    (EpochStore.run calls s).Scheduled := by
  induction calls generalizing s with
  | nil => exact hs
  | cons call calls ih => exact ih (hs.perform call.2)

theorem Reachable.scheduled {s : EpochStore} (hs : s.Reachable) : s.Scheduled := by
  obtain ⟨size, duration, capacity, empty, calls, hcreate, rfl⟩ := hs
  exact (scheduled_create hcreate).run calls

/-- Two epochs of a scheduled store have no time in common. -/
theorem Scheduled.disjoint {s : EpochStore} (hs : s.Scheduled) {a b : UInt64 × EpochInfo}
    (ha : a ∈ s.epochs.entries) (hb : b ∈ s.epochs.entries) (hne : a.1 ≠ b.1) (time : UInt64) :
    ¬ (a.2.covers time = true ∧ b.2.covers time = true) := by
  have hover : ∀ a ∈ s.epochs.entries, ∀ b ∈ s.epochs.entries, a.1 < b.1 →
      a.2.window.stop.toNat ≤ b.2.window.start.toNat := by
    intro a ha b hb hlt
    have hprecedes := hs.precedes a ha b hb hlt
    rw [← hs.sound.width ha] at hprecedes
    rw [← (hs.sound.entry ha).1, ← (hs.sound.entry hb).1] at hlt
    exact hprecedes.stop_le hlt
  rcases UInt64.lt_or_lt_of_ne hne with hlt | hlt
  · exact Window.not_contains_of_stop_le (hover a ha b hb hlt) time
  · rw [and_comm]
    exact Window.not_contains_of_stop_le (hover b hb a ha hlt) time

/-- **The stored epochs after any run of calls.** There are no more of them than the capacity, each
is stored once, under its own number, with a validator for every turn and slots of the set length;
and an epoch starts no earlier than the epochs from any earlier one up to it can be over. So no two
of them have a time in common. -/
theorem run_keeps_schedule {size duration capacity : UInt64} {empty : EpochStore}
    (hcreate : create size duration capacity = .ok empty)
    (calls : List (Σ α : Type, Call α)) :
    (EpochStore.run calls empty).size ≤ capacity.toNat ∧
    (EpochStore.run calls empty).epochs.keys.Nodup ∧
    (∀ e ∈ (EpochStore.run calls empty).epochs.entries,
      e.2.epoch = e.1 ∧ e.2.validators.length = size.toNat ∧ e.2.slotDuration = duration ∧
        ∀ turn : UInt64, turn.toNat < size.toNat → ∃ signer, e.2.validator turn = some signer) ∧
    ∀ a ∈ (EpochStore.run calls empty).epochs.entries,
      ∀ b ∈ (EpochStore.run calls empty).epochs.entries,
        (a.1 < b.1 → min (a.2.epochStart.toNat + (b.1.toNat - a.1.toNat) *
          min (duration.toNat * size.toNat) (UInt64.size - 1)) (UInt64.size - 1) ≤
            b.2.epochStart.toNat) ∧
        (a.1 ≠ b.1 → ∀ time,
          ¬ (a.2.window.contains time = true ∧ b.2.window.contains time = true)) := by
  have hs := (scheduled_create hcreate).run calls
  obtain ⟨hsize, hduration, hcapacity⟩ := sizes_run (sound_create hcreate) calls
  obtain ⟨_, _, _, rfl⟩ := create_eq_ok_iff.1 hcreate
  refine ⟨?_, hs.sound.proper.nodup_keys, ?_, ?_⟩
  · have hle := hs.sound.proper.size_le
    rwa [hcapacity] at hle
  · intro e he
    have hshape := hs.sound.shaped e.1 e.2 he
    obtain ⟨hepoch, hlength, hslot⟩ := hs.sound.entry he
    refine ⟨hepoch, hlength.trans (congrArg UInt64.toNat hsize), hslot.trans hduration, ?_⟩
    intro turn hturn
    apply exists_validator hshape
    rw [hsize]
    exact hturn
  · intro a ha b hb
    constructor
    · intro hlt
      have h := hs.precedes a ha b hb hlt
      rw [EpochInfo.Precedes, epochWidth, hsize, hduration, UInt64.toNat_mulCapped,
        (hs.sound.entry ha).1, (hs.sound.entry hb).1] at h
      exact h
    · intro hne time
      exact hs.disjoint ha hb hne time

end EpochStore

/-! ## A store whose schedule changes -/

namespace Sample

/-- An epoch of one slot of ten seconds. -/
def tenSeconds (epoch start : UInt64) : EpochInfo where
  epoch := epoch
  validators := [⟨generator⟩]
  epochStart := start
  slotDuration := 10

def vacant : EpochStore where
  validatorSetSize := 1
  slotDuration := 10
  epochs := { capacity := 2 }

/-- Epoch 2 comes first and is replaced, epoch 1 is refused once, and epoch 0 is dropped for it. -/
def rescheduling : List (Σ α : Type, EpochStore.Call α) := [
  ⟨_, .insert 2 (tenSeconds 2 40)⟩, ⟨_, .insert 0 (tenSeconds 0 0)⟩,
  ⟨_, .insert 2 (tenSeconds 2 30)⟩, ⟨_, .insert 1 (tenSeconds 1 25)⟩,
  ⟨_, .insert 1 (tenSeconds 1 15)⟩, ⟨_, .resolve 35⟩]

theorem rescheduling_entries : (EpochStore.run rescheduling vacant).epochs.entries =
    [(2, tenSeconds 2 30), (1, tenSeconds 1 15)] := rfl

end Sample

namespace EpochStore

theorem rescheduling_keeps_schedule : create 1 10 2 = .ok Sample.vacant ∧
    (EpochStore.run Sample.rescheduling Sample.vacant).size ≤ 2 ∧
    ∀ time, ¬ ((Sample.tenSeconds 1 15).window.contains time = true ∧
      (Sample.tenSeconds 2 30).window.contains time = true) := by
  have hcreate : create 1 10 2 = .ok Sample.vacant := rfl
  obtain ⟨hsize, _, _, hpairs⟩ := run_keeps_schedule hcreate Sample.rescheduling
  rw [Sample.rescheduling_entries] at hpairs
  refine ⟨hcreate, hsize, ?_⟩
  exact (hpairs (1, Sample.tenSeconds 1 15) (by simp) (2, Sample.tenSeconds 2 30) (by simp)).2
    (by decide)

end EpochStore

end BlockSeal
