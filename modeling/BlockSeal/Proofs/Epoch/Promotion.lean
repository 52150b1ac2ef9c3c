import BlockSeal.Proofs.Acceptance

/-! # What verification does to the store

Verification is meant to look at the store without changing it. It does so when the declared epoch
is stored; when it is not, the lookup by the header's time uses the epoch that it finds, and the
epoch that is dropped next can then be another one.

* `Promotes`: the headers whose verification changes the order of the epochs.
* `perform_verify_cases`: verification changes nothing, or brings one stored epoch to the front.
* `verify_store_eq_iff`: it changes nothing for the headers that do not promote, and whatever it
  does, every epoch stays what it is; a run in which no verification promotes answers every other
  call as it would without the verifications.
* `verify_drops_other`: a verification after which an insertion drops another epoch.
-/

set_option autoImplicit false

namespace BlockSeal.EpochStore

/-! ## One verification -/

/-- The header carries a seal whose epoch is not stored, while another stored epoch, and not the
one that was used last, covers the header's time. -/
def Promotes (s : EpochStore) (header : Header) : Prop :=
  ∃ declared bytes epoch info,
    SlotVerifier.readSeal s.validatorSetSize header = .ok (declared, bytes) ∧
      s.peek declared.epoch = none ∧
      s.epochs.find? (fun _ info => info.covers header.time) = some (epoch, info) ∧
      s.epochs.entries.head? ≠ some (epoch, info)

theorem use_eq_self_iff {s : EpochStore} (hs : s.Sound) {epoch : UInt64} {info : EpochInfo}
    (h : s.peek epoch = some info) :
    s.use epoch info = s ↔ s.epochs.entries.head? = some (epoch, info) := by
  rw [← Recency.touch_eq_self_iff hs.proper h]
  constructor
  · intro heq
    exact congrArg EpochStore.epochs heq
  · intro heq
    rw [use, heq]

/-- Verification leaves the store as it is, or it uses a stored epoch that covers the header's time
and that was not the last one used. -/
theorem perform_verify_cases {s : EpochStore} (hs : s.Sound) (tolerance : UInt64)
    (header : Header) :
    (¬ s.Promotes header ∧ (s.perform (.verify tolerance header)).2 = s) ∨
      s.Promotes header ∧ ∃ epoch info, s.peek epoch = some info ∧
        info.covers header.time = true ∧ s.epochs.entries.head? ≠ some (epoch, info) ∧
        (s.perform (.verify tolerance header)).2 = s.use epoch info := by
  have hperform : (s.perform (.verify tolerance header)).2 =
      (SlotVerifier.verify { store := s, tolerance := tolerance } header).2.store := rfl
  rw [hperform]
  cases hread : SlotVerifier.readSeal s.validatorSetSize header with
  | error e =>
    refine .inl ⟨?_, by rw [SlotVerifier.verify_of_readSeal_error hread]⟩
    rintro ⟨declared, bytes, _, _, h, _⟩
    rw [hread] at h
    cases h
  | ok read =>
    obtain ⟨declared, bytes⟩ := read
    cases hpeek : s.peek declared.epoch with
    | some info =>
      -- The declared epoch is only looked at.
      refine .inl ⟨?_, by rw [SlotVerifier.verify_of_peek hread hpeek]⟩
      rintro ⟨declared', bytes', _, _, h, hnone, _⟩
      rw [hread] at h
      cases h
      rw [hpeek] at hnone
      cases hnone
    | none =>
      -- The lookup by time uses what it finds.
      rw [SlotVerifier.verify_of_peek_none hread hpeek]
      cases hfind : s.epochs.find? (fun _ info => info.covers header.time) with
      | none =>
        refine .inl ⟨?_, by rw [resolve_of_find?_none hfind]⟩
        rintro ⟨_, _, _, _, _, _, h, _⟩
        rw [hfind] at h
        cases h
      | some found =>
        obtain ⟨epoch, info⟩ := found
        obtain ⟨hstored, hcovers, hresolve⟩ := resolve_of_find? hs hfind
        rw [hresolve]
        by_cases hhead : s.epochs.entries.head? = some (epoch, info)
        · refine .inl ⟨?_, (use_eq_self_iff hs hstored).2 hhead⟩
          rintro ⟨_, _, epoch', info', _, _, h, hother⟩
          rw [hfind] at h
          cases h
          exact hother hhead
        · exact .inr ⟨⟨declared, bytes, epoch, info, hread, hpeek, hfind, hhead⟩, epoch, info,
            hstored, hcovers, hhead, rfl⟩

/-! ## Runs without their verifications -/

/-- Whether a call is no verification that changes the order of the epochs. -/
def Call.IsCalm {α : Type} (s : EpochStore) : Call α → Prop
  | .verify _ header => ¬ s.Promotes header
  | _ => True

/-- Calls in turn among which no verification changes the order of the epochs. -/
def Calm : List (Σ α : Type, Call α) → EpochStore → Prop
  | [], _ => True
  | call :: calls, s => call.2.IsCalm s ∧ Calm calls (s.perform call.2).2

def withoutVerify (calls : List (Σ α : Type, Call α)) : List (Σ α : Type, Call α) :=
  calls.filter fun call => !call.2.isVerify

theorem perform_of_isVerify {α : Type} {s : EpochStore} (hs : s.Sound) {call : Call α}
    (hcalm : call.IsCalm s) (hverify : call.isVerify = true) : (s.perform call).2 = s := by
  cases call with
  | verify tolerance header =>
    rcases perform_verify_cases hs tolerance header with ⟨_, h⟩ | ⟨h, _⟩
    · exact h
    · exact absurd h hcalm
  | _ => cases hverify

/-- In a calm run the verifications can be left out: the store is the same in the end, and so are
the answers to all other calls. -/
theorem Calm.withoutVerify {calls : List (Σ α : Type, Call α)} {s : EpochStore} (hs : s.Sound)
    (h : Calm calls s) : run (withoutVerify calls) s = run calls s ∧
      outcomes (EpochStore.withoutVerify calls) s =
        (outcomes calls s).filter fun o => !o.call.isVerify := by
  induction calls generalizing s with
  | nil => exact ⟨rfl, rfl⟩
  | cons call calls ih =>
    obtain ⟨hcall, hcalls⟩ := h
    obtain ⟨hrun, houtcomes⟩ := ih (hs.perform call.2) hcalls
    cases hverify : call.2.isVerify with
    | true =>
      -- The verification is left out of one run, and in the other it changes nothing.
      have hsame := perform_of_isVerify hs hcall hverify
      rw [hsame] at hrun houtcomes
      have hdrop : EpochStore.withoutVerify (call :: calls) = EpochStore.withoutVerify calls :=
        List.filter_cons_of_neg (by simp [hverify])
      rw [hdrop, hrun, houtcomes]
      refine ⟨by rw [run, run, List.foldl_cons, hsame], ?_⟩
      rw [outcomes, List.filter_cons_of_neg (by simp [hverify]), hsame]
    | false =>
      have hkeep : EpochStore.withoutVerify (call :: calls) =
          call :: EpochStore.withoutVerify calls :=
        List.filter_cons_of_pos (by simp [hverify])
      rw [hkeep]
      refine ⟨hrun, ?_⟩
      rw [outcomes, houtcomes, outcomes, List.filter_cons_of_pos (by simp [hverify])]

/-- **When verification changes the store.** It does so exactly for the headers that promote; these
are not accepted, the epoch that covers their time goes to the front, and the others stay in order.
Every epoch stays what it is. When no verification in a run promotes, the run without its
verifications leads to the same store, with the same answers to all other calls. -/
theorem verify_store_eq_iff {s : EpochStore} (hs : s.Reachable) :
    (∀ tolerance header,
      ((s.perform (.verify tolerance header)).2 = s ↔ ¬ s.Promotes header) ∧
      (s.Promotes header → (s.perform (.verify tolerance header)).1 ≠ .ok () ∧
        ∃ epoch info, info.covers header.time = true ∧
          (s.perform (.verify tolerance header)).2.epochs.entries =
            (epoch, info) :: s.epochs.entries.filter fun e => e.1 ≠ epoch) ∧
      ∀ epoch, (s.perform (.verify tolerance header)).2.peek epoch = s.peek epoch) ∧
    ∀ calls, Calm calls s → run (withoutVerify calls) s = run calls s ∧
      outcomes (withoutVerify calls) s = (outcomes calls s).filter fun o => !o.call.isVerify := by
  refine ⟨fun tolerance header => ?_, fun calls h => h.withoutVerify hs.sound⟩
  rcases perform_verify_cases hs.sound tolerance header with
    ⟨hcalm, h⟩ | ⟨hpromotes, epoch, info, hpeek, hcovers, hhead, h⟩
  · rw [h]
    exact ⟨iff_of_true rfl hcalm, fun hpromotes => absurd hpromotes hcalm, fun _ => rfl⟩
  · rw [h]
    refine ⟨iff_of_false (fun heq => hhead ((use_eq_self_iff hs.sound hpeek).1 heq))
      (not_not_intro hpromotes), fun _ => ⟨?_, epoch, info, hcovers, ?_⟩, peek_use hs.sound hpeek⟩
    · obtain ⟨declared, bytes, _, _, hread, hnone, _⟩ := hpromotes
      exact (SlotVerifier.verify_undeclared_refused (v := { store := s, tolerance := tolerance })
        hs.sound hread hnone).1
    · exact Recency.entries_touch_of_peek hs.sound.proper hpeek

end BlockSeal.EpochStore

/-! ## A verification that decides what is dropped -/

namespace BlockSeal.Sample

/-- An epoch of one slot, which is the key's. -/
def shortEpoch (epoch : UInt64) : EpochInfo where
  epoch := epoch
  validators := [key.publicKey]
  epochStart := 10 * epoch
  slotDuration := 10

/-- A store with room for two of these epochs, and the first two in it. -/
def shortStore : EpochStore where
  validatorSetSize := 1
  slotDuration := 10
  epochs := { capacity := 2, entries := [(1, shortEpoch 1), (0, shortEpoch 0)] }

/-- A header for a time in epoch 0 that declares an epoch which is not stored. -/
def stray : Header where
  time := 5
  extra := SlotSeal.encode { slot := 7, epoch := 7, turn := 0, signature := some Octets.zero }

theorem shortStore_reachable : shortStore.Reachable :=
  ⟨1, 10, 2, { shortStore with epochs.entries := [] },
    [⟨_, .insert 0 (shortEpoch 0)⟩, ⟨_, .insert 1 (shortEpoch 1)⟩], rfl, rfl⟩

theorem shortStore_promotes_stray : shortStore.Promotes stray :=
  ⟨_, _, 0, shortEpoch 0,
    SlotVerifier.readSeal_eq_ok_iff.2 ⟨SlotSeal.decode_encode _, rfl, by decide⟩, rfl, rfl,
    by simp [shortStore]⟩

end BlockSeal.Sample

namespace BlockSeal.EpochStore

theorem verify_stray_ne : Sample.shortStore.Reachable ∧
    (Sample.shortStore.perform (.verify 0 Sample.stray)).2 ≠ Sample.shortStore :=
  ⟨Sample.shortStore_reachable, fun h =>
    ((verify_store_eq_iff Sample.shortStore_reachable).1 0 Sample.stray).1.1 h
      Sample.shortStore_promotes_stray⟩

/-- Epoch 0 is dropped for epoch 2, but epoch 1 is dropped when the header is verified before. -/
theorem verify_drops_other :
    (run [⟨_, .insert 2 (Sample.shortEpoch 2)⟩] Sample.shortStore).epochs.keys = [2, 1] ∧
      (run [⟨_, .verify 0 Sample.stray⟩, ⟨_, .insert 2 (Sample.shortEpoch 2)⟩]
        Sample.shortStore).epochs.keys = [2, 0] := by
  decide +kernel

end BlockSeal.EpochStore
