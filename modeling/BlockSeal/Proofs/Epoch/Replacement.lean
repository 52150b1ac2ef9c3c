import BlockSeal.Proofs.Designation
import BlockSeal.Proofs.Epoch.Insertion
import BlockSeal.Proofs.Recency.Dropped

/-! # What is stored under a number

The entries of a store are meant to be immutable. What is stored under a number does stay as long as
the number is stored, but for one case: whether an insertion is refused depends on the epochs of
other numbers only, and one that is not refused replaces what was stored.

* `Scheduled.insert_eq_ok_iff`: which insertions are not refused.
* `Call.stored?`, `lastStored?`: what one call, and the last of many, stored under a number.
* `Stays`: calls in turn after each of which a number is still stored.
* `Scheduled.peek_perform`, `peek_run`: the epoch under a number that stays stored is the one that
  was stored last.
* `contains_perform_eq_false_iff`: a number is no longer stored when it loses its place, and only
  then.
* `stored_until_replaced`: all of this for the stores that can be reached, and what it means for
  headers.
-/

set_option autoImplicit false

namespace BlockSeal.EpochStore

variable {α : Type} {s : EpochStore} {epoch : UInt64} {info : EpochInfo}

/-! ## One insertion -/

theorem Reachable.capacity_pos (hs : s.Reachable) : 0 < s.epochs.capacity := by
  obtain ⟨size, duration, capacity, empty, calls, hcreate, rfl⟩ := hs
  rw [(sizes_run (sound_create hcreate) calls).2.2]
  obtain ⟨_, _, hcapacity, rfl⟩ := create_eq_ok_iff.1 hcreate
  exact Nat.pos_of_ne_zero fun h => hcapacity (UInt64.toNat_inj.1 h)

theorem Scheduled.fits_of_peek (hs : s.Scheduled) (hpeek : s.peek epoch = some info) :
    ∀ e ∈ s.epochs.entries, info.Fits s.epochWidth e.2 := by
  have hmem := hs.sound.peek_eq_some_iff.1 hpeek
  have hepoch : info.epoch = epoch := (hs.sound.entry hmem).1
  intro e he
  have hnumber := (hs.sound.entry he).1
  constructor
  · intro hlt
    exact hs.precedes _ hmem e he (by rwa [hepoch, hnumber] at hlt)
  · intro hlt
    exact hs.precedes e he _ hmem (by rwa [hepoch, hnumber] at hlt)

/-- An epoch of the right shape is refused for an epoch of another number that it does not fit, and
for nothing else. -/
theorem Scheduled.insert_eq_ok_iff (hs : s.Scheduled) :
    (s.insert epoch info).1 = .ok () ↔ s.checkShape epoch info = .ok () ∧
      ∀ e ∈ s.epochs.entries, e.1 ≠ epoch → info.Fits s.epochWidth e.2 := by
  constructor
  · intro hok
    obtain ⟨hshape, admitted, hadmits⟩ := EpochStore.insert_eq_ok_iff.1 hok
    obtain rfl : info.epoch = epoch := (checkShape_eq_ok_iff.1 hshape).1
    refine ⟨hshape, fun e he hne => ?_⟩
    cases admitted with
    | true =>
      have hover := admits_eq_ok_true_iff.1 hadmits e he
      rw [if_neg hne] at hover
      exact (hs.sound.overlaps_iff he hne).1 hover
    | false =>
      have hmem := mem_of_admits_eq_ok_false hadmits
      exact hs.fits_of_peek (hs.sound.peek_eq_some_iff.2 hmem) e he
  · rintro ⟨hshape, hfits⟩
    obtain rfl : info.epoch = epoch := (checkShape_eq_ok_iff.1 hshape).1
    exact hs.sound.insert_of_fits hshape hfits

/-- An insertion that is not refused leaves its epoch under its number, either because it was there
or by storing it as the one used last. -/
theorem insert_of_ok (hs : s.Sound) (hok : (s.insert epoch info).1 = .ok ()) :
    (s.insert epoch info).2 = s ∧ s.peek epoch = some info ∨
      (s.insert epoch info).2 = s.use epoch info := by
  obtain ⟨hshape, admitted, hadmits⟩ := EpochStore.insert_eq_ok_iff.1 hok
  cases admitted with
  | true => exact .inr (by rw [insert_of_admits hshape hadmits])
  | false =>
    refine .inl ⟨?_, hs.peek_eq_some_iff.2 (mem_of_admits_eq_ok_false hadmits)⟩
    unfold insert Recency.putIf
    rw [hshape, hadmits]

theorem insert_of_error {e : Error} (h : (s.insert epoch info).1 = .error e) :
    (s.insert epoch info).2 = s := by
  rcases s.insert_cases epoch info with hsame | ⟨_, _, hok⟩
  · exact hsame
  · rw [hok] at h
    cases h

theorem peek_insert (hs : s.Sound) (hpos : 0 < s.epochs.capacity)
    (hok : (s.insert epoch info).1 = .ok ()) : (s.insert epoch info).2.peek epoch = some info := by
  rcases insert_of_ok hs hok with ⟨hsame, hpeek⟩ | huse
  · rw [hsame, hpeek]
  · rw [huse]
    exact Recency.peek_touch_self _ _ _ hpos

/-! ## One call -/

/-- What a call stored under the number `epoch`, by the answer to it. -/
def Call.stored? (epoch : UInt64) : Call α → α → Option EpochInfo
  | .insert number info, .ok () => if number = epoch then some info else none
  | _, _ => none

theorem stored?_eq_none {call : Call α} (hcall : call.inserted? = none) (answer : α) :
    call.stored? epoch answer = none := by
  cases call with
  | insert number info => cases hcall
  | _ => rfl

theorem contains_eq_isSome_peek (s : EpochStore) (number : UInt64) :
    s.contains number = (s.peek number).isSome := s.epochs.contains_eq_isSome_peek number

/-- **One call.** If `epoch` is stored after it, then as the call stored it, or else as it was. -/
theorem peek_perform (hs : s.Sound) (hpos : 0 < s.epochs.capacity) (call : Call α)
    (hstays : (s.perform call).2.contains epoch = true) :
    (s.perform call).2.peek epoch =
      (call.stored? epoch (s.perform call).1).or (s.peek epoch) := by
  cases hcall : call.inserted? with
  | none => rw [peek_perform_of_inserted?_none hs hcall, stored?_eq_none hcall, Option.none_or]
  | some inserted =>
    cases call with
    | insert number info =>
      simp only [perform] at hstays ⊢
      cases hanswer : (s.insert number info).1 with
      | error e =>
        rw [insert_of_error hanswer]
        rfl
      | ok done =>
        simp only [Call.stored?]
        split
        · rename_i hnumber
          subst hnumber
          rw [peek_insert hs hpos hanswer, Option.some_or]
        · rename_i hnumber
          rw [Option.none_or]
          rcases insert_of_ok hs hanswer with ⟨hsame, _⟩ | huse
          · rw [hsame]
          · rw [huse] at hstays ⊢
            have hpeek := Recency.peek_touch hs.proper hpos number info epoch
            rw [if_neg (Ne.symm hnumber)] at hpeek
            split at hpeek
            · -- A number that loses its place is not stored afterwards.
              rw [contains_eq_isSome_peek] at hstays
              rw [show (s.use number info).peek epoch = none from hpeek] at hstays
              cases hstays
            · exact hpeek
    | _ => cases hcall

/-- A stored number is stored no longer when an epoch of a new number is taken in while the store is
full and it is the one used longest ago, and in no other case. -/
theorem contains_perform_eq_false_iff (hs : s.Sound) (hpos : 0 < s.epochs.capacity)
    (call : Call α) (hstored : s.contains epoch = true) :
    (s.perform call).2.contains epoch = false ↔ ∃ number info,
      call.inserted? = some (number, info) ∧ (s.insert number info).1 = .ok () ∧
        s.epochs.dropped? number = some epoch := by
  cases hcall : call.inserted? with
  | none =>
    have hpeek := peek_perform_of_inserted?_none hs hcall epoch
    rw [contains_eq_isSome_peek, hpeek, ← contains_eq_isSome_peek, hstored]
    exact iff_of_false nofun nofun
  | some inserted =>
    cases call with
    | insert number info =>
      cases hcall
      simp only [perform, Option.some.injEq, Prod.mk.injEq]
      constructor
      · intro hgone
        cases hanswer : (s.insert number info).1 with
        | error e =>
          rw [insert_of_error hanswer, hstored] at hgone
          cases hgone
        | ok done =>
          refine ⟨number, info, ⟨rfl, rfl⟩, hanswer, ?_⟩
          rcases insert_of_ok hs hanswer with ⟨hsame, _⟩ | huse
          · rw [hsame, hstored] at hgone
            cases hgone
          · rw [huse] at hgone
            exact (Recency.contains_touch_eq_false_iff hs.proper hpos info hstored).1 hgone
      · rintro ⟨_, _, ⟨rfl, rfl⟩, hanswer, hdropped⟩
        rcases insert_of_ok hs hanswer with ⟨_, hpeek⟩ | huse
        · -- Nothing is dropped for a number that is stored.
          have hcontains : s.epochs.contains number = true := by
            rw [Recency.contains_eq_isSome_peek, show s.epochs.peek number = some info from hpeek]
            rfl
          rw [Recency.dropped?, if_neg (by simp [hcontains])] at hdropped
          cases hdropped
        · rw [huse]
          exact (Recency.contains_touch_eq_false_iff hs.proper hpos info hstored).2 hdropped
    | _ => cases hcall

/-! ## Calls in turn -/

/-- Whether `epoch` is stored after each of the calls. -/
def Stays (epoch : UInt64) : List (Σ α : Type, Call α) → EpochStore → Prop
  | [], _ => True
  | call :: calls, s =>
    (s.perform call.2).2.contains epoch = true ∧ Stays epoch calls (s.perform call.2).2

/-- What the calls stored last under the number `epoch`. -/
def lastStored? (epoch : UInt64) : List (Σ α : Type, Call α) → EpochStore → Option EpochInfo
  | [], _ => none
  | call :: calls, s =>
    (lastStored? epoch calls (s.perform call.2).2).or (call.2.stored? epoch (s.perform call.2).1)

theorem peek_run (hs : s.Sound) (hpos : 0 < s.epochs.capacity)
    {calls : List (Σ α : Type, Call α)} (hstays : Stays epoch calls s) :
    (run calls s).peek epoch = (lastStored? epoch calls s).or (s.peek epoch) := by
  induction calls generalizing s with
  | nil => rfl
  | cons call calls ih =>
    obtain ⟨hcall, hcalls⟩ := hstays
    have hcapacity : (s.perform call.2).2.epochs.capacity = s.epochs.capacity :=
      (sizes_run hs [call]).2.2
    have hrun := ih (hs.perform call.2) (by rwa [hcapacity]) hcalls
    rw [lastStored?, Option.or_assoc, ← peek_perform hs hpos call.2 hcall]
    exact hrun

theorem perform_verify (s : EpochStore) (tolerance : UInt64) (header : Header) :
    (s.perform (.verify tolerance header)).1 =
      (SlotVerifier.verify { store := s, tolerance := tolerance } header).1 := rfl

/-- Whether a header is accepted depends on the epoch that it declares, when this one is stored. -/
theorem verify_eq_of_peek {s' : EpochStore} {header : Header} {declared : SlotSeal}
    {bytes : SignatureBytes} (hsize : s'.validatorSetSize = s.validatorSetSize)
    (hread : SlotVerifier.readSeal s.validatorSetSize header = .ok (declared, bytes))
    (hpeek : s.peek declared.epoch = some info) (hpeek' : s'.peek declared.epoch = some info)
    (tolerance : UInt64) :
    (s'.perform (.verify tolerance header)).1 = (s.perform (.verify tolerance header)).1 := by
  have hread' := hread
  rw [← hsize] at hread'
  rw [perform_verify, perform_verify,
    SlotVerifier.verify_of_peek (v := { store := s, tolerance := tolerance }) hread hpeek,
    SlotVerifier.verify_of_peek (v := { store := s', tolerance := tolerance }) hread' hpeek']

/-- **What a number stands for while it is stored.** In a store that can be reached, an insertion that
is not refused leaves its epoch under its number. Whether it is refused depends on the shape of the
epoch and on the stored epochs of other numbers, so an epoch can be replaced. A number is stored until
an epoch of a new number is taken in, the store is full and the number is the one used longest ago. As
long as it is stored, it stands for the epoch that was stored last under it, and the headers that
declare it are judged as before unless that is another one. -/
theorem stored_until_replaced (hs : s.Reachable) (epoch : UInt64) :
    (∀ info, (s.insert epoch info).1 = .ok () ↔ s.checkShape epoch info = .ok () ∧
      ∀ e ∈ s.epochs.entries, e.1 ≠ epoch → info.Fits s.epochWidth e.2) ∧
    (∀ info, (s.insert epoch info).1 = .ok () →
      (s.insert epoch info).2.peek epoch = some info) ∧
    (∀ (α : Type) (call : Call α), s.contains epoch = true →
      ((s.perform call).2.contains epoch = false ↔ ∃ number info,
        call.inserted? = some (number, info) ∧ (s.insert number info).1 = .ok () ∧
          s.contains number = false ∧ s.size = s.epochs.capacity ∧
          s.epochs.keys.getLast? = some epoch)) ∧
    ∀ info calls, s.peek epoch = some info → Stays epoch calls s →
      (run calls s).peek epoch = some ((lastStored? epoch calls s).getD info) ∧
      ((lastStored? epoch calls s).getD info = info → ∀ header declared bytes,
        SlotVerifier.readSeal s.validatorSetSize header = .ok (declared, bytes) →
        declared.epoch = epoch → ∀ tolerance,
          ((run calls s).perform (.verify tolerance header)).1 =
            (s.perform (.verify tolerance header)).1) := by
  have hsound := hs.sound
  have hpos := hs.capacity_pos
  refine ⟨fun info => hs.scheduled.insert_eq_ok_iff, fun info => peek_insert hsound hpos, ?_, ?_⟩
  · intro α call hstored
    rw [contains_perform_eq_false_iff hsound hpos call hstored]
    have hdropped : ∀ number, s.epochs.dropped? number = some epoch ↔
        s.contains number = false ∧ s.size = s.epochs.capacity ∧
          s.epochs.keys.getLast? = some epoch := by
      intro number
      unfold Recency.dropped?
      split
      · rename_i hfull
        exact ⟨fun h => ⟨hfull.1, hfull.2, h⟩, fun h => h.2.2⟩
      · rename_i hroom
        exact iff_of_false (Option.some_ne_none epoch).symm fun h => hroom ⟨h.1, h.2.1⟩
    simp only [hdropped]
  · intro info calls hpeek hstays
    have hrun : (run calls s).peek epoch = some ((lastStored? epoch calls s).getD info) := by
      rw [peek_run hsound hpos hstays, hpeek, Option.or_some]
    refine ⟨hrun, ?_⟩
    rintro hsame header declared bytes hread rfl tolerance
    rw [hsame] at hrun
    exact verify_eq_of_peek (validatorSetSize_run hsound calls) hread hpeek hrun tolerance

end BlockSeal.EpochStore

/-! ## An epoch that starts later -/

namespace BlockSeal.Sample

/-- The stored epoch with another start. -/
def delayed : EpochInfo := { info with epochStart := 200 }

theorem delayed_ne : delayed ≠ info := fun h =>
  absurd (congrArg EpochInfo.epochStart h) (by decide)

/-- The store with it in the place of the first one. -/
def delayedStore : EpochStore := { store with epochs.entries := [(1, delayed)] }

theorem store_insert_delayed : store.insert 1 delayed = (.ok (), delayedStore) := by
  refine EpochStore.insert_of_admits (EpochStore.checkShape_eq_ok_iff.2 ⟨rfl, rfl, rfl⟩) ?_
  refine EpochStore.admits_eq_ok_true_iff.2 fun e he => ?_
  rw [show e = (1, info) from List.mem_singleton.1 he, if_pos rfl]
  exact delayed_ne.symm

/-- The epoch is inserted under the stored number, and the number stays stored. -/
def delaying : List (Σ α : Type, EpochStore.Call α) := [⟨_, .insert 1 delayed⟩, ⟨_, .peek 1⟩]

theorem perform_delayed : store.perform (.insert 1 delayed) = (.ok (), delayedStore) :=
  store_insert_delayed

theorem delayedStore_sound : delayedStore.Sound := by
  have h := store_reachable.sound.perform (.insert 1 delayed)
  rwa [perform_delayed] at h

end BlockSeal.Sample

namespace BlockSeal.EpochStore

theorem delaying_stored_until_replaced : Sample.store.Reachable ∧
    Sample.store.peek 1 = some Sample.info ∧ Stays 1 Sample.delaying Sample.store ∧
    (run Sample.delaying Sample.store).peek 1 = some Sample.delayed := by
  have hpeek : Sample.store.peek 1 = some Sample.info := rfl
  have hstays : Stays 1 Sample.delaying Sample.store := by
    simp only [Sample.delaying, Stays, Sample.perform_delayed]
    exact ⟨rfl, rfl, trivial⟩
  have hlast : lastStored? 1 Sample.delaying Sample.store = some Sample.delayed := by
    simp only [Sample.delaying, lastStored?, Sample.perform_delayed, Call.stored?]
    rfl
  obtain ⟨-, -, -, hruns⟩ := stored_until_replaced Sample.store_reachable 1
  refine ⟨Sample.store_reachable, hpeek, hstays, ?_⟩
  rw [(hruns Sample.info Sample.delaying hpeek hstays).1, hlast, Option.getD_some]

/-- Epoch 1 is stored and a header that declares it is accepted. Another epoch 1 is not refused, it
replaces the first one although its number is stored all the time, and the header is accepted no
longer. -/
theorem delayed_replaces : Sample.store.Reachable ∧
    Sample.store.peek 1 = some Sample.info ∧ Sample.delayed ≠ Sample.info ∧
    Sample.store.insert 1 Sample.delayed = (.ok (), Sample.delayedStore) ∧
    Sample.delayedStore.peek 1 = some Sample.delayed ∧
    (Sample.store.perform (.verify 0 Sample.sealed)).1 = .ok () ∧
    (Sample.delayedStore.perform (.verify 0 Sample.sealed)).1 ≠ .ok () := by
  have hpeek : Sample.delayedStore.peek 1 = some Sample.delayed := rfl
  rw [perform_verify, perform_verify]
  refine ⟨Sample.store_reachable, rfl, Sample.delayed_ne, Sample.store_insert_delayed, hpeek, ?_,
    fun haccepts => ?_⟩
  · have haccepts := SlotVerifier.verify_of_accepted Sample.store_reachable.sound
      Sample.sealed_accepted
    exact congrArg Prod.fst haccepts
  · obtain ⟨s, bytes, info, ha⟩ := SlotVerifier.accepted_of_verify
      (v := { store := Sample.delayedStore, tolerance := 0 }) Sample.delayedStore_sound haccepts
    have hdecoded := ha.decoded
    rw [Sample.sealed_accepted.decoded, Except.ok.injEq] at hdecoded
    subst hdecoded
    have hstored := ha.peek Sample.delayedStore_sound
    obtain rfl : Sample.delayed = info := Option.some_inj.1 (hpeek.symm.trans hstored)
    -- The header's time is 115, and the slot that it declares starts at 210 now.
    have hearly : min (200 + 1 * 10) (UInt64.size - 1) ≤ min (115 + 0) (UInt64.size - 1) :=
      ha.not_early
    exact absurd hearly (by decide)

end BlockSeal.EpochStore
