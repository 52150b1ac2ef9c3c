import BlockSeal.Proofs.Epoch.Replacement

/-! # An insertion happens as a whole or not at all

The check of an insertion looks at the stored epochs one after another and stops at the first one that
is the same or that overlaps. In a store that can be reached the stored epochs fit one another, so an
epoch that is stored already overlaps none of them, and where the check stops does not matter.

* `Scheduled.insert_of_peek`: an epoch that is stored already is left where it is.
* `Scheduled.insert_eq_ok_iff_overlaps`: which epochs are not refused.
* `Sound.insert_new_entries`: the entries after an insertion that is neither refused nor needless.
* `insert_atomic`: all of this for the stores that can be reached.
-/

set_option autoImplicit false

namespace BlockSeal.EpochStore

variable {s : EpochStore} {epoch : UInt64} {info : EpochInfo}

theorem Scheduled.insert_of_peek (hs : s.Scheduled) (hpeek : s.peek epoch = some info) :
    s.insert epoch info = (.ok (), s) := by
  have hok : (s.insert epoch info).1 = .ok () :=
    hs.insert_eq_ok_iff.2 ⟨hs.sound.checkShape hpeek, fun e he _ => hs.fits_of_peek hpeek e he⟩
  rcases s.insert_cases epoch info with hsame | ⟨_, hadmits, _⟩
  · exact Prod.ext hok hsame
  · -- What is the same as a stored epoch is not admitted beside it.
    have hdiffers := admits_eq_ok_true_iff.1 hadmits _ (hs.sound.peek_eq_some_iff.1 hpeek)
    rw [if_pos rfl] at hdiffers
    exact absurd rfl hdiffers

theorem Scheduled.insert_eq_ok_iff_overlaps (hs : s.Scheduled) :
    (s.insert epoch info).1 = .ok () ↔ s.checkShape epoch info = .ok () ∧
      (s.peek epoch = some info ∨ ∀ e ∈ s.epochs.entries, e.1 ≠ epoch →
        overlaps s.epochWidth info e.1 e.2 = false) := by
  rw [hs.insert_eq_ok_iff]
  refine and_congr_right fun hshape => ?_
  obtain rfl : info.epoch = epoch := (checkShape_eq_ok_iff.1 hshape).1
  constructor
  · intro hfits
    exact .inr fun e he hne => (hs.sound.overlaps_iff he hne).2 (hfits e he hne)
  · rintro (hpeek | hover) e he hne
    · exact hs.fits_of_peek hpeek e he
    · exact (hs.sound.overlaps_iff he hne).1 (hover e he hne)

theorem Sound.insert_new_entries (hs : s.Sound) (hpos : 0 < s.epochs.capacity)
    (hok : (s.insert epoch info).1 = .ok ()) (hnew : s.peek epoch ≠ some info) :
    ∃ (kept : List (UInt64 × EpochInfo)) (lost : Option (UInt64 × EpochInfo)),
      (s.insert epoch info).2 = { s with epochs.entries := (epoch, info) :: kept } ∧
      (s.epochs.entries.filter fun e => e.1 ≠ epoch) = kept ++ lost.toList ∧
      (lost.isSome = true ↔ s.contains epoch = false ∧ s.size = s.epochs.capacity) ∧
      ∀ e, lost = some e → s.epochs.entries.getLast? = some e := by
  rcases insert_of_ok hs hok with ⟨_, hpeek⟩ | huse
  · exact absurd hpeek hnew
  obtain ⟨kept, lost, htouch, hrest⟩ := Recency.exists_entries_touch hs.proper hpos epoch info
  exact ⟨kept, lost, by rw [huse, EpochStore.use, htouch], hrest⟩

/-- **An insertion.** In a store that can be reached, an insertion that is refused changes nothing, nor
does one of an epoch that is stored already. Any other one puts its epoch in front and leaves the
others behind it as they are and in their order, but for the one used longest ago if the number is
new and the store is full. The same insertion once more changes nothing. Refused is what is of another
shape and, unless it is stored already, what overlaps a stored epoch of another number. -/
theorem insert_atomic (hs : s.Reachable) (epoch : UInt64) (info : EpochInfo) :
    (∀ e, (s.insert epoch info).1 = .error e → (s.insert epoch info).2 = s) ∧
    (s.peek epoch = some info → s.insert epoch info = (.ok (), s)) ∧
    ((s.insert epoch info).1 = .ok () → s.peek epoch ≠ some info →
      ∃ (kept : List (UInt64 × EpochInfo)) (lost : Option (UInt64 × EpochInfo)),
        (s.insert epoch info).2 = { s with epochs.entries := (epoch, info) :: kept } ∧
        (s.epochs.entries.filter fun e => e.1 ≠ epoch) = kept ++ lost.toList ∧
        (lost.isSome = true ↔ s.contains epoch = false ∧ s.size = s.epochs.capacity) ∧
        ∀ e, lost = some e → s.epochs.entries.getLast? = some e) ∧
    ((s.insert epoch info).1 = .ok () →
      (s.insert epoch info).2.insert epoch info = (.ok (), (s.insert epoch info).2)) ∧
    ((s.insert epoch info).1 = .ok () ↔ info.epoch = epoch ∧
      info.validators.length = s.validatorSetSize.toNat ∧ info.slotDuration = s.slotDuration ∧
      (s.peek epoch = some info ∨ ∀ e ∈ s.epochs.entries, e.1 ≠ epoch →
        overlaps s.epochWidth info e.1 e.2 = false)) := by
  have hscheduled := hs.scheduled
  refine ⟨fun e => insert_of_error, hscheduled.insert_of_peek,
    hs.sound.insert_new_entries hs.capacity_pos, fun hok => ?_, ?_⟩
  · have hafter : (s.insert epoch info).2.Scheduled := hscheduled.perform (.insert epoch info)
    exact hafter.insert_of_peek (peek_insert hs.sound hs.capacity_pos hok)
  · rw [hscheduled.insert_eq_ok_iff_overlaps, checkShape_eq_ok_iff, and_assoc, and_assoc]

end BlockSeal.EpochStore

/-! ## A full store -/

namespace BlockSeal.Sample

/-- Epochs 2 and 1 in a store that has room for two. -/
def full : EpochStore := EpochStore.run rescheduling vacant

theorem full_reachable : full.Reachable := ⟨1, 10, 2, vacant, rescheduling, rfl, rfl⟩

end BlockSeal.Sample

namespace BlockSeal.EpochStore

/-- Epoch 3 takes the place of epoch 1, which was used longest ago. -/
theorem full_insert_atomic : Sample.full.Reachable ∧
    (Sample.full.insert 3 (Sample.tenSeconds 3 40)).1 = .ok () ∧
    Sample.full.peek 3 ≠ some (Sample.tenSeconds 3 40) ∧
    (Sample.full.insert 3 (Sample.tenSeconds 3 40)).2.epochs.entries =
      [(3, Sample.tenSeconds 3 40), (2, Sample.tenSeconds 2 30)] := by
  obtain ⟨-, -, hnew, -, hiff⟩ := insert_atomic Sample.full_reachable 3 (Sample.tenSeconds 3 40)
  have hentries : Sample.full.epochs.entries =
      [(2, Sample.tenSeconds 2 30), (1, Sample.tenSeconds 1 15)] := Sample.rescheduling_entries
  have hok : (Sample.full.insert 3 (Sample.tenSeconds 3 40)).1 = .ok () := by
    refine hiff.2 ⟨rfl, rfl, rfl, .inr ?_⟩
    rw [hentries]
    decide
  have hpeek : Sample.full.peek 3 ≠ some (Sample.tenSeconds 3 40) := nofun
  obtain ⟨kept, lost, hafter, hothers, hlost, hlast⟩ := hnew hok hpeek
  obtain ⟨e, rfl⟩ := Option.isSome_iff_exists.1 (hlost.2 ⟨rfl, rfl⟩)
  obtain rfl : (1, Sample.tenSeconds 1 15) = e := Option.some_inj.1 (hlast e rfl)
  have hkept : [(2, Sample.tenSeconds 2 30)] = kept := List.append_cancel_right hothers
  refine ⟨Sample.full_reachable, hok, hpeek, ?_⟩
  rw [hafter, hkept]

end BlockSeal.EpochStore
