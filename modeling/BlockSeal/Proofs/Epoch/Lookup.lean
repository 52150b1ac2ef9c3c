import BlockSeal.Proofs.Epoch.Schedule

/-! # The epoch that covers a time

The stored epochs have no time in common, so a search by a time can find one epoch only, in whatever
order the epochs were used.

* `hasCoverage_eq_true_iff`: what coverage says of the stored epochs.
* `Scheduled.find?_eq_some_iff`, `Scheduled.resolve_of_mem`: a time is resolved to the stored epoch
  that covers it, and to no other one.
* `Scheduled.resolve_congr`, `Scheduled.verify_congr`: stores with the same epochs answer alike for
  every time and for every header.
* `resolve_unambiguous`: all this for the stores that can be reached.
-/

set_option autoImplicit false

namespace BlockSeal.EpochStore

variable {s s' : EpochStore} {time : UInt64} {e : UInt64 × EpochInfo} {info : EpochInfo}

/-! ## Coverage -/

theorem hasCoverage_eq_true_iff :
    s.hasCoverage time = true ↔ ∃ e ∈ s.epochs.entries, e.2.covers time = true := by
  rw [hasCoverage, Recency.find?, List.find?_isSome]

theorem resolve_of_uncovered (h : s.hasCoverage time = false) :
    s.resolve time = (.error (.epochNotFound time), s) := by
  apply resolve_of_find?_none
  rwa [hasCoverage, Option.isSome_eq_false_iff, Option.isNone_iff_eq_none] at h

/-! ## One epoch for a time -/

theorem Scheduled.eq_of_covers (hs : s.Scheduled) {a b : UInt64 × EpochInfo}
    (ha : a ∈ s.epochs.entries) (hb : b ∈ s.epochs.entries) (hcovers : a.2.covers time = true)
    (hcovers' : b.2.covers time = true) : a = b := by
  have hkey : a.1 = b.1 := by
    by_contra hne
    exact hs.disjoint ha hb hne time ⟨hcovers, hcovers'⟩
  exact List.inj_on_of_nodup_map hs.sound.proper.nodup_keys ha hb hkey

/-- A search by a time finds the stored epoch that covers it, wherever it stands. -/
theorem Scheduled.find?_eq_some_iff (hs : s.Scheduled) {epoch : UInt64} :
    s.epochs.find? (fun _ info => info.covers time) = some (epoch, info) ↔
      s.peek epoch = some info ∧ info.covers time = true := by
  constructor
  · intro h
    exact Recency.peek_of_find? hs.sound.proper h
  · rintro ⟨hpeek, hcovers⟩
    have hmem := hs.sound.peek_eq_some_iff.1 hpeek
    obtain ⟨⟨_, _⟩, hfound⟩ := Option.isSome_iff_exists.1
      (hasCoverage_eq_true_iff.2 ⟨(epoch, info), hmem, hcovers⟩)
    obtain ⟨hpeek', hcovers'⟩ := Recency.peek_of_find? hs.sound.proper hfound
    have hmem' := hs.sound.peek_eq_some_iff.1 hpeek'
    rw [hfound, hs.eq_of_covers hmem' hmem hcovers' hcovers]

theorem Scheduled.resolve_of_mem (hs : s.Scheduled) (hmem : e ∈ s.epochs.entries)
    (hcovers : e.2.covers time = true) : s.resolve time = (.ok e.2, s.use e.1 e.2) :=
  (resolve_of_find? hs.sound (hs.find?_eq_some_iff.2
    ⟨hs.sound.peek_eq_some_iff.2 hmem, hcovers⟩)).2.2

theorem Scheduled.resolve_eq_ok_iff (hs : s.Scheduled) :
    (s.resolve time).1 = .ok info ↔
      ∃ epoch, s.peek epoch = some info ∧ info.covers time = true := by
  constructor
  · intro h
    cases hcovered : s.hasCoverage time with
    | false =>
      rw [resolve_of_uncovered hcovered] at h
      cases h
    | true =>
      obtain ⟨e, hmem, hcovers⟩ := hasCoverage_eq_true_iff.1 hcovered
      rw [hs.resolve_of_mem hmem hcovers] at h
      cases h
      exact ⟨e.1, hs.sound.peek_eq_some_iff.2 hmem, hcovers⟩
  · rintro ⟨epoch, hpeek, hcovers⟩
    have hmem := hs.sound.peek_eq_some_iff.1 hpeek
    rw [hs.resolve_of_mem hmem hcovers]

/-! ## Stores with the same epochs -/

/-- What a time is resolved to depends on the stored epochs, not on the order of their use. -/
theorem Scheduled.resolve_congr (hs : s.Scheduled) (hs' : s'.Scheduled)
    (hsame : ∀ epoch, s'.peek epoch = s.peek epoch) (time : UInt64) :
    s'.hasCoverage time = s.hasCoverage time ∧ (s'.resolve time).1 = (s.resolve time).1 := by
  have hmem : ∀ e, e ∈ s'.epochs.entries ↔ e ∈ s.epochs.entries := by
    rintro ⟨epoch, info⟩
    rw [← hs'.sound.peek_eq_some_iff, ← hs.sound.peek_eq_some_iff, hsame]
  have hcoverage : s'.hasCoverage time = s.hasCoverage time := by
    rw [Bool.eq_iff_iff, hasCoverage_eq_true_iff, hasCoverage_eq_true_iff]
    exact exists_congr fun e => and_congr_left fun _ => hmem e
  refine ⟨hcoverage, ?_⟩
  cases hcovered : s.hasCoverage time with
  | false =>
    rw [resolve_of_uncovered hcovered, resolve_of_uncovered (hcoverage.trans hcovered)]
  | true =>
    obtain ⟨e, he, hcovers⟩ := hasCoverage_eq_true_iff.1 hcovered
    rw [hs.resolve_of_mem he hcovers, hs'.resolve_of_mem ((hmem e).2 he) hcovers]

/-- Verification gives the same answer against stores with the same epochs. -/
theorem Scheduled.verify_congr (hs : s.Scheduled) (hs' : s'.Scheduled)
    (hsize : s'.validatorSetSize = s.validatorSetSize)
    (hsame : ∀ epoch, s'.peek epoch = s.peek epoch) (tolerance : UInt64) (header : Header) :
    (s'.perform (.verify tolerance header)).1 = (s.perform (.verify tolerance header)).1 := by
  let v : SlotVerifier := { store := s, tolerance := tolerance }
  let v' : SlotVerifier := { store := s', tolerance := tolerance }
  change (v'.verify header).1 = (v.verify header).1
  have hread' : SlotVerifier.readSeal v'.store.validatorSetSize header =
      SlotVerifier.readSeal v.store.validatorSetSize header := by
    rw [show v'.store.validatorSetSize = v.store.validatorSetSize from hsize]
  cases hread : SlotVerifier.readSeal v.store.validatorSetSize header with
  | error e =>
    rw [SlotVerifier.verify_of_readSeal_error hread,
      SlotVerifier.verify_of_readSeal_error (hread'.trans hread)]
  | ok read =>
    obtain ⟨declared, bytes⟩ := read
    have hpeek' : v'.store.peek declared.epoch = v.store.peek declared.epoch := hsame _
    cases hpeek : v.store.peek declared.epoch with
    | some info =>
      rw [SlotVerifier.verify_of_peek hread hpeek,
        SlotVerifier.verify_of_peek (hread'.trans hread) (hpeek'.trans hpeek)]
    | none =>
      rw [SlotVerifier.verify_of_peek_none hread hpeek,
        SlotVerifier.verify_of_peek_none (hread'.trans hread) (hpeek'.trans hpeek)]
      exact congrArg (fun answer => answer.bind (SlotVerifier.inspect tolerance header declared bytes))
        (hs.resolve_congr hs' hsame header.time).2

/-! ## Every store that can be reached -/

/-- **Resolving a time.** In a store that can be reached, a time is covered exactly when it is
resolved, and exactly when it lies in the window of one stored epoch. This epoch is then the answer;
it goes to the front, and the rest of the store stays as it is. A time that is not covered is refused
and changes nothing, and an epoch that the search finds can always be looked up. Another store that
can be reached, with the same epochs, resolves every time alike. -/
theorem resolve_unambiguous (hs : s.Reachable) :
    (∀ time,
      (s.hasCoverage time = true ↔ ∃ info, (s.resolve time).1 = .ok info) ∧
      (s.hasCoverage time = true ↔
        ∃! e, e ∈ s.epochs.entries ∧ e.2.window.contains time = true) ∧
      (∀ e ∈ s.epochs.entries, e.2.window.contains time = true →
        s.resolve time = (.ok e.2, { s with
          epochs.entries := e :: s.epochs.entries.filter fun other => other.1 ≠ e.1 })) ∧
      (s.hasCoverage time = false → s.resolve time = (.error (.epochNotFound time), s)) ∧
      ∀ epoch info, s.epochs.find? (fun _ info => info.covers time) = some (epoch, info) →
        (s.get epoch).1 = some info) ∧
    ∀ s' : EpochStore, s'.Reachable → (∀ epoch, s'.peek epoch = s.peek epoch) →
      ∀ time, s'.hasCoverage time = s.hasCoverage time ∧
        (s'.resolve time).1 = (s.resolve time).1 := by
  have hscheduled := hs.scheduled
  refine ⟨fun time => ⟨?_, ?_, ?_, resolve_of_uncovered, ?_⟩, ?_⟩
  · rw [hasCoverage_eq_true_iff]
    constructor
    · rintro ⟨e, hmem, hcovers⟩
      exact ⟨e.2, by rw [hscheduled.resolve_of_mem hmem hcovers]⟩
    · rintro ⟨info, hok⟩
      obtain ⟨epoch, hpeek, hcovers⟩ := hscheduled.resolve_eq_ok_iff.1 hok
      exact ⟨(epoch, info), hscheduled.sound.peek_eq_some_iff.1 hpeek, hcovers⟩
  · rw [hasCoverage_eq_true_iff]
    constructor
    · rintro ⟨e, hmem, hcovers⟩
      refine ⟨e, ⟨hmem, hcovers⟩, ?_⟩
      rintro other ⟨hother, hcovers'⟩
      exact hscheduled.eq_of_covers hother hmem hcovers' hcovers
    · rintro ⟨e, ⟨hmem, hcovers⟩, _⟩
      exact ⟨e, hmem, hcovers⟩
  · intro e hmem hcovers
    have hpeek : s.peek e.1 = some e.2 :=
      hscheduled.sound.peek_eq_some_iff.2 hmem
    have hentries := Recency.entries_touch_of_peek hscheduled.sound.proper hpeek
    rw [hscheduled.resolve_of_mem hmem hcovers, use, ← hentries]
    rfl
  · intro epoch info hfind
    rw [get_of_peek (resolve_of_find? hscheduled.sound hfind).1]
  · intro s' hs' hsame time
    exact hscheduled.resolve_congr hs'.scheduled hsame time

end BlockSeal.EpochStore

/-! ## Two orders of the same epochs -/

namespace BlockSeal.Sample

/-- Epochs 2 and 1 of the store that was rescheduled, with epoch 1 in front. -/
def reordered : EpochStore := EpochStore.run (rescheduling ++ [⟨_, .get 1⟩]) vacant

end BlockSeal.Sample

namespace BlockSeal.EpochStore

/-- The two stores hold the epochs in different orders and resolve a time of epoch 2 to it. -/
theorem reordered_resolves :
    (run Sample.rescheduling Sample.vacant).Reachable ∧ Sample.reordered.Reachable ∧
    Sample.reordered.epochs.entries ≠
      (run Sample.rescheduling Sample.vacant).epochs.entries ∧
    ((run Sample.rescheduling Sample.vacant).resolve 32).1 = .ok (Sample.tenSeconds 2 30) ∧
    (Sample.reordered.resolve 32).1 = .ok (Sample.tenSeconds 2 30) := by
  have hreachable : (run Sample.rescheduling Sample.vacant).Reachable :=
    ⟨1, 10, 2, Sample.vacant, Sample.rescheduling, rfl, rfl⟩
  have hreordered : Sample.reordered.Reachable :=
    ⟨1, 10, 2, Sample.vacant, _, rfl, rfl⟩
  have hentries : Sample.reordered.epochs.entries =
      [(1, Sample.tenSeconds 1 15), (2, Sample.tenSeconds 2 30)] := rfl
  have hsame : ∀ epoch, Sample.reordered.peek epoch =
      (run Sample.rescheduling Sample.vacant).peek epoch :=
    peek_use hreachable.sound
      (show (run Sample.rescheduling Sample.vacant).peek 1 = some (Sample.tenSeconds 1 15) from rfl)
  obtain ⟨htimes, halike⟩ := resolve_unambiguous hreachable
  have hresolve := (htimes 32).2.2.1 (2, Sample.tenSeconds 2 30)
    (by rw [Sample.rescheduling_entries]; simp) (by decide)
  refine ⟨hreachable, hreordered, ?_, by rw [hresolve], ?_⟩
  · rw [hentries, Sample.rescheduling_entries]
    simp
  · rw [(halike _ hreordered hsame 32).2, hresolve]

end BlockSeal.EpochStore
