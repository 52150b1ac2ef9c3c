import BlockSeal.Proofs.Epoch.Lookup

/-! # Taking epochs in

An epoch is taken in when it fits each stored epoch of another number. Which of two epochs is the
earlier one is told apart when one of them comes in, yet fitting is the same relation from both
sides; so epochs that there is room for can come in any order.

* `Sound.insert_of_fits`, `Sound.insert_new_iff`: which epochs are taken in.
* `insertAll`, `TakesAll`: epochs that are inserted one after another.
* `TakesAll.entries`, `takesAll_iff`: the store after such epochs, and when all of them are taken in.
* `insertAll_perm`: the order does not matter.
-/

set_option autoImplicit false

namespace BlockSeal

namespace EpochStore

variable {s : EpochStore} {info : EpochInfo} {infos : List EpochInfo}

/-! ## One epoch -/

/-- An epoch of the right shape that fits the stored epochs of other numbers is not refused. -/
theorem Sound.insert_of_fits (hs : s.Sound) (hshape : s.checkShape info.epoch info = .ok ())
    (hfits : ∀ e ∈ s.epochs.entries, e.1 ≠ info.epoch → info.Fits s.epochWidth e.2) :
    (s.insert info.epoch info).1 = .ok () := by
  refine insert_eq_ok_iff.2 ⟨hshape, exists_admits_eq_ok fun e he hne => ?_⟩
  exact (hs.overlaps_iff he hne).2 (hfits e he hne)

/-- An epoch whose number is not stored. -/
theorem Sound.insert_new_iff (hs : s.Sound) (hnew : ∀ e ∈ s.epochs.entries, e.1 ≠ info.epoch) :
    (s.insert info.epoch info).1 = .ok () ↔ s.checkShape info.epoch info = .ok () ∧
      ∀ e ∈ s.epochs.entries, info.Fits s.epochWidth e.2 := by
  constructor
  · intro hok
    obtain ⟨hshape, admitted, hadmits⟩ := insert_eq_ok_iff.1 hok
    cases admitted with
    | false => exact absurd rfl (hnew _ (mem_of_admits_eq_ok_false hadmits))
    | true =>
      refine ⟨hshape, fun e he => (hs.overlaps_iff he (hnew e he)).1 ?_⟩
      have hover := admits_eq_ok_true_iff.1 hadmits e he
      rwa [if_neg (hnew e he)] at hover
  · rintro ⟨hshape, hfits⟩
    exact hs.insert_of_fits hshape fun e he _ => hfits e he

/-- It comes in front of the others while there is room. -/
theorem Sound.insert_new (hs : s.Sound) (hnew : ∀ e ∈ s.epochs.entries, e.1 ≠ info.epoch)
    (hroom : s.size < s.epochs.capacity) (hok : (s.insert info.epoch info).1 = .ok ()) :
    (s.insert info.epoch info).2 = s.use info.epoch info ∧
      (s.use info.epoch info).epochs.entries = (info.epoch, info) :: s.epochs.entries := by
  obtain ⟨hshape, hfits⟩ := (hs.insert_new_iff hnew).1 hok
  have hadmits : admits s.epochWidth info.epoch info s.epochs.entries = .ok true := by
    refine admits_eq_ok_true_iff.2 fun e he => ?_
    rw [if_neg (hnew e he)]
    exact (hs.overlaps_iff he (hnew e he)).2 (hfits e he)
  rw [insert_of_admits hshape hadmits]
  exact ⟨rfl, Recency.entries_touch_of_absent hnew hroom info⟩

/-! ## Many epochs -/

/-- The insertion of an epoch under its number. -/
def insertion (info : EpochInfo) : Σ α : Type, Call α := ⟨_, .insert info.epoch info⟩

/-- The store after insertions in turn. -/
def insertAll (infos : List EpochInfo) (s : EpochStore) : EpochStore := run (infos.map insertion) s

/-- Whether none of the epochs is refused when they are inserted in turn. -/
def TakesAll : List EpochInfo → EpochStore → Prop
  | [], _ => True
  | info :: infos, s => (s.insert info.epoch info).1 = .ok () ∧
      TakesAll infos (s.insert info.epoch info).2

/-- There is room for epochs beside the stored ones, and all the numbers differ. -/
structure Awaits (s : EpochStore) (infos : List EpochInfo) : Prop where
  sound : s.Sound
  room : s.size + infos.length ≤ s.epochs.capacity
  numbers : (infos.map EpochInfo.epoch).Nodup
  absent : ∀ info ∈ infos, ∀ e ∈ s.epochs.entries, e.1 ≠ info.epoch

theorem Awaits.insert_head (h : s.Awaits (info :: infos))
    (hok : (s.insert info.epoch info).1 = .ok ()) :
    (s.insert info.epoch info).2 = s.use info.epoch info ∧
      (s.use info.epoch info).epochs.entries = (info.epoch, info) :: s.epochs.entries ∧
      (s.use info.epoch info).Awaits infos := by
  have hnew := h.absent info List.mem_cons_self
  have hroom := h.room
  rw [List.length_cons] at hroom
  obtain ⟨hafter, hentries⟩ := h.sound.insert_new hnew (by omega) hok
  obtain ⟨hhead, htail⟩ := List.nodup_cons.1 h.numbers
  have hshape := (insert_eq_ok_iff.1 hok).1
  refine ⟨hafter, hentries, h.sound.use hshape, ?_, htail, ?_⟩
  · have hsize : (s.use info.epoch info).size = s.size + 1 := congrArg List.length hentries
    rw [hsize]
    change s.size + 1 + infos.length ≤ s.epochs.capacity
    omega
  · intro other hother e he
    rw [hentries] at he
    rcases List.mem_cons.1 he with rfl | he
    · exact fun hsame => hhead (List.mem_map.2 ⟨other, hother, hsame.symm⟩)
    · exact h.absent other (List.mem_cons_of_mem _ hother) e he

/-- The store after epochs all of which were taken in: they stand in front, the latest first. -/
theorem TakesAll.entries (htakes : TakesAll infos s) (h : s.Awaits infos) :
    (insertAll infos s).epochs.entries =
      (infos.map fun info => (info.epoch, info)).reverse ++ s.epochs.entries := by
  induction infos generalizing s with
  | nil => rfl
  | cons info infos ih =>
    obtain ⟨hok, hrest⟩ := htakes
    obtain ⟨hafter, hentries, hawaits⟩ := h.insert_head hok
    rw [hafter] at hrest
    have hstep : insertAll (info :: infos) s = insertAll infos (s.use info.epoch info) :=
      congrArg (insertAll infos) hafter
    rw [hstep, ih hrest hawaits, hentries, List.map_cons, List.reverse_cons, List.append_assoc]
    rfl

/-- All epochs are taken in when each has the right shape and fits the stored ones, and any two of
them fit each other. -/
theorem takesAll_iff (h : s.Awaits infos) :
    TakesAll infos s ↔
      (∀ info ∈ infos, s.checkShape info.epoch info = .ok () ∧
        ∀ e ∈ s.epochs.entries, info.Fits s.epochWidth e.2) ∧
      infos.Pairwise (EpochInfo.Fits s.epochWidth) := by
  induction infos generalizing s with
  | nil => simp [TakesAll]
  | cons info infos ih =>
    have hhead := h.sound.insert_new_iff (h.absent info List.mem_cons_self)
    rw [TakesAll, List.forall_mem_cons, List.pairwise_cons]
    constructor
    · rintro ⟨hok, hrest⟩
      obtain ⟨hafter, hentries, hawaits⟩ := h.insert_head hok
      rw [hafter] at hrest
      obtain ⟨heach, hpairs⟩ := (ih hawaits).1 hrest
      rw [hentries] at heach
      refine ⟨⟨hhead.1 hok, fun other hother => ?_⟩, fun other hother => ?_, hpairs⟩
      · obtain ⟨hshape, hfits⟩ := heach other hother
        exact ⟨hshape, fun e he => hfits e (List.mem_cons_of_mem _ he)⟩
      · exact ((heach other hother).2 _ List.mem_cons_self).symm
    · rintro ⟨⟨hinfo, heach⟩, hfirst, hpairs⟩
      have hok := hhead.2 hinfo
      obtain ⟨hafter, hentries, hawaits⟩ := h.insert_head hok
      refine ⟨hok, ?_⟩
      rw [hafter]
      refine (ih hawaits).2 ⟨fun other hother => ?_, hpairs⟩
      obtain ⟨hshape, hfits⟩ := heach other hother
      rw [hentries]
      refine ⟨hshape, List.forall_mem_cons.2 ⟨?_, hfits⟩⟩
      exact (hfirst other hother).symm

/-! ## Any order -/

theorem awaits_of_create {size duration capacity : UInt64} {empty : EpochStore}
    (hcreate : create size duration capacity = .ok empty)
    (hnumbers : (infos.map EpochInfo.epoch).Nodup) (hroom : infos.length ≤ capacity.toNat) :
    empty.Awaits infos := by
  have hsound := sound_create hcreate
  obtain ⟨_, _, _, rfl⟩ := create_eq_ok_iff.1 hcreate
  refine ⟨hsound, ?_, hnumbers, nofun⟩
  change 0 + infos.length ≤ capacity.toNat
  omega

theorem Awaits.perm {reordered : List EpochInfo} (h : s.Awaits infos)
    (hperm : reordered.Perm infos) : s.Awaits reordered where
  sound := h.sound
  room := by
    rw [hperm.length_eq]
    exact h.room
  numbers := (hperm.map EpochInfo.epoch).nodup_iff.2 h.numbers
  absent := fun info hinfo => h.absent info (hperm.mem_iff.1 hinfo)

theorem Awaits.takesAll_perm {reordered : List EpochInfo} (h : s.Awaits infos)
    (hperm : reordered.Perm infos) : TakesAll reordered s ↔ TakesAll infos s := by
  rw [takesAll_iff h, takesAll_iff (h.perm hperm), hperm.pairwise_iff EpochInfo.Fits.symm]
  exact and_congr_left' (forall_congr' fun info => imp_congr_left hperm.mem_iff)

/-- **The order of insertions.** Epochs with numbers of their own, no more than there is room for,
are inserted into an empty store in two orders. All of them are taken in in one order exactly when
they are in the other, and then both stores hold each of them and no other epoch, cover and resolve
every time alike, and give the same answer to the verification of every header. -/
theorem insertAll_perm {size duration capacity : UInt64} {empty : EpochStore}
    {reordered : List EpochInfo} (hcreate : create size duration capacity = .ok empty)
    (hnumbers : (infos.map EpochInfo.epoch).Nodup) (hroom : infos.length ≤ capacity.toNat)
    (hperm : reordered.Perm infos) :
    (TakesAll reordered empty ↔ TakesAll infos empty) ∧
    (TakesAll infos empty →
      (∀ epoch info, (insertAll infos empty).peek epoch = some info ↔
        info ∈ infos ∧ info.epoch = epoch) ∧
      (∀ epoch, (insertAll reordered empty).peek epoch = (insertAll infos empty).peek epoch) ∧
      (∀ time,
        (insertAll reordered empty).hasCoverage time = (insertAll infos empty).hasCoverage time ∧
        ((insertAll reordered empty).resolve time).1 = ((insertAll infos empty).resolve time).1) ∧
      ∀ tolerance header,
        ((insertAll reordered empty).perform (.verify tolerance header)).1 =
          ((insertAll infos empty).perform (.verify tolerance header)).1) := by
  have hawaits := awaits_of_create hcreate hnumbers hroom
  have htakesAll := hawaits.takesAll_perm hperm
  have hsizes := fun infos : List EpochInfo =>
    sizes_run (sound_create hcreate) (infos.map insertion)
  have hscheduled : ∀ infos : List EpochInfo, (insertAll infos empty).Scheduled :=
    fun infos => (scheduled_create hcreate).run _
  -- Whatever the order, the stored epochs are those that were inserted.
  have hpeek : ∀ {infos : List EpochInfo}, empty.Awaits infos → TakesAll infos empty →
      ∀ epoch info, (insertAll infos empty).peek epoch = some info ↔
        info ∈ infos ∧ info.epoch = epoch := by
    intro infos hawaits htakes epoch info
    have hentries := htakes.entries hawaits
    obtain ⟨_, _, _, rfl⟩ := create_eq_ok_iff.1 hcreate
    rw [(hscheduled infos).sound.peek_eq_some_iff, hentries]
    simp
  refine ⟨htakesAll, fun htakes => ?_⟩
  have hinfos := hpeek hawaits htakes
  have hreordered := hpeek (hawaits.perm hperm) (htakesAll.2 htakes)
  have hsame : ∀ epoch, (insertAll reordered empty).peek epoch =
      (insertAll infos empty).peek epoch := by
    intro epoch
    apply Option.ext
    intro info
    rw [hreordered, hinfos, hperm.mem_iff]
  refine ⟨hinfos, hsame, ?_, ?_⟩
  · intro time
    exact (hscheduled infos).resolve_congr (hscheduled reordered) hsame time
  · intro tolerance header
    exact (hscheduled infos).verify_congr (hscheduled reordered)
      ((hsizes reordered).1.trans (hsizes infos).1.symm) hsame tolerance header

end EpochStore

/-! ## Two epochs -/

namespace Sample

/-- Between the two there are more epochs than there is time for. -/
def farApart : List EpochInfo := [tenSeconds 1 15, tenSeconds UInt64.maxValue UInt64.maxValue]

theorem farApart_takesAll : EpochStore.TakesAll farApart vacant := ⟨rfl, rfl, trivial⟩

end Sample

namespace EpochStore

/-- The two are taken in in the other order, too, and then a time of the first is resolved to it,
although the order of the entries is another one. -/
theorem farApart_perm : create 1 10 2 = .ok Sample.vacant ∧
    (insertAll Sample.farApart.reverse Sample.vacant).epochs.entries ≠
      (insertAll Sample.farApart Sample.vacant).epochs.entries ∧
    TakesAll Sample.farApart.reverse Sample.vacant ∧
    ((insertAll Sample.farApart.reverse Sample.vacant).resolve 20).1 =
      .ok (Sample.tenSeconds 1 15) := by
  have hcreate : create 1 10 2 = .ok Sample.vacant := rfl
  obtain ⟨htakesAll, hstores⟩ := insertAll_perm hcreate (by decide) (by decide)
    (List.reverse_perm Sample.farApart)
  obtain ⟨-, -, hresolve, -⟩ := hstores Sample.farApart_takesAll
  refine ⟨hcreate, by decide +kernel, htakesAll.2 Sample.farApart_takesAll, ?_⟩
  rw [(hresolve 20).2]
  rfl

end EpochStore

end BlockSeal
