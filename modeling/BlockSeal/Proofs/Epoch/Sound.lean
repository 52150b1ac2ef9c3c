import BlockSeal.Epoch.Store
import BlockSeal.Proofs.Recency

/-! # Stores of epochs that are in order

* `use`: a store with one of its epochs, or a new one, as the one that was used last. All that an
  operation does to a store is this.
* `Sound`: a store in which the epochs have keys of their own, which are their numbers, and all
  have the shape that the store asks for.
* `resolve_of_find?`, `resolve_of_find?_none`: what a time is resolved to in a sound store.
-/

set_option autoImplicit false

namespace BlockSeal.EpochStore

/-! ## What the operations do -/

/-- The store with an epoch as the one that was used last. -/
def use (s : EpochStore) (epoch : UInt64) (info : EpochInfo) : EpochStore :=
  { s with epochs := s.epochs.touch epoch info }

theorem checkShape_eq_ok_iff {s : EpochStore} {epoch : UInt64} {info : EpochInfo} :
    s.checkShape epoch info = .ok () ↔ info.epoch = epoch ∧
      info.validators.length = s.validatorSetSize.toNat ∧ info.slotDuration = s.slotDuration := by
  unfold checkShape
  split
  · rename_i h
    simp [h]
  split
  · rename_i h
    simp [h]
  split
  · rename_i h
    simp [h]
  · rename_i h₀ h₁ h₂
    simp only [ne_eq, not_not] at h₀ h₁ h₂
    simp [h₀, h₁, h₂]

/-- In an epoch of the right shape there is a validator for every turn below the size. -/
theorem exists_validator {s : EpochStore} {epoch turn : UInt64} {info : EpochInfo}
    (h : s.checkShape epoch info = .ok ()) (hturn : turn.toNat < s.validatorSetSize.toNat) :
    ∃ signer, info.validator turn = some signer := by
  have hlength := (checkShape_eq_ok_iff.1 h).2.1
  exact ⟨_, List.getElem?_eq_getElem (by rw [hlength]; exact hturn)⟩

/-- An epoch of the right shape that the stored ones admit is taken in, or nothing changes. -/
theorem insert_cases (s : EpochStore) (epoch : UInt64) (info : EpochInfo) :
    (s.insert epoch info).2 = s ∨
      s.checkShape epoch info = .ok () ∧
        admits s.epochWidth epoch info s.epochs.entries = .ok true ∧
        s.insert epoch info = (.ok (), s.use epoch info) := by
  unfold insert
  cases hshape : s.checkShape epoch info with
  | error e => exact .inl rfl
  | ok u =>
    unfold Recency.putIf
    cases admits s.epochWidth epoch info s.epochs.entries with
    | error e => exact .inl rfl
    | ok admitted =>
      cases admitted with
      | false => exact .inl rfl
      | true => exact .inr ⟨rfl, rfl, rfl⟩

theorem insert_eq_ok_iff {s : EpochStore} {epoch : UInt64} {info : EpochInfo} :
    (s.insert epoch info).1 = .ok () ↔ s.checkShape epoch info = .ok () ∧
      ∃ admitted, admits s.epochWidth epoch info s.epochs.entries = .ok admitted := by
  unfold insert
  cases hshape : s.checkShape epoch info with
  | error e => simp
  | ok u =>
    unfold Recency.putIf
    cases admits s.epochWidth epoch info s.epochs.entries with
    | error e => simp
    | ok admitted => cases admitted <;> simp

theorem insert_of_admits {s : EpochStore} {epoch : UInt64} {info : EpochInfo}
    (hshape : s.checkShape epoch info = .ok ())
    (hadmits : admits s.epochWidth epoch info s.epochs.entries = .ok true) :
    s.insert epoch info = (.ok (), s.use epoch info) := by
  unfold insert Recency.putIf
  rw [hshape, hadmits]
  rfl

theorem get_of_peek {s : EpochStore} {epoch : UInt64} {info : EpochInfo}
    (h : s.peek epoch = some info) : s.get epoch = (some info, s.use epoch info) := by
  have h' : s.epochs.peek epoch = some info := h
  simp only [get, Recency.get, h']
  rfl

theorem get_of_peek_none {s : EpochStore} {epoch : UInt64} (h : s.peek epoch = none) :
    s.get epoch = (none, s) := by
  have h' : s.epochs.peek epoch = none := h
  simp only [get, Recency.get, h']

/-! ## Stores in order -/

/-- Keys of their own for the epochs, and the shape that the store asks for under their keys. -/
structure Sound (s : EpochStore) : Prop where
  proper : s.epochs.Proper
  shaped : ∀ epoch info, (epoch, info) ∈ s.epochs.entries → s.checkShape epoch info = .ok ()

theorem Sound.peek_eq_some_iff {s : EpochStore} (hs : s.Sound) {epoch : UInt64} {info : EpochInfo} :
    s.peek epoch = some info ↔ (epoch, info) ∈ s.epochs.entries :=
  Recency.peek_eq_some_iff hs.proper

theorem Sound.checkShape {s : EpochStore} (hs : s.Sound) {epoch : UInt64} {info : EpochInfo}
    (h : s.peek epoch = some info) : s.checkShape epoch info = .ok () :=
  hs.shaped epoch info (hs.peek_eq_some_iff.1 h)

/-- A store is made for sizes that are not zero, and it is empty. -/
theorem create_eq_ok_iff {size duration capacity : UInt64} {s : EpochStore} :
    create size duration capacity = .ok s ↔ size ≠ 0 ∧ duration ≠ 0 ∧ capacity ≠ 0 ∧
      s = { validatorSetSize := size, slotDuration := duration
            epochs := { capacity := capacity.toNat } } := by
  unfold create Recency.create
  by_cases hsize : size = 0
  · simp [hsize]
  by_cases hduration : duration = 0
  · simp [hsize, hduration]
  by_cases hcapacity : capacity = 0
  · simp [hsize, hduration, hcapacity, Except.map]
  · simp [hsize, hduration, hcapacity, Except.map, eq_comm]

theorem sound_create {size duration capacity : UInt64} {s : EpochStore}
    (h : create size duration capacity = .ok s) : s.Sound := by
  obtain ⟨_, _, _, rfl⟩ := create_eq_ok_iff.1 h
  refine ⟨⟨Nat.zero_le _, List.nodup_nil⟩, ?_⟩
  intro epoch info hmem
  cases hmem

theorem Sound.use {s : EpochStore} (hs : s.Sound) {epoch : UInt64} {info : EpochInfo}
    (h : s.checkShape epoch info = .ok ()) : (s.use epoch info).Sound := by
  refine ⟨Recency.proper_touch hs.proper.nodup_keys epoch info, fun e i hmem => ?_⟩
  rcases Recency.mem_entries_touch hmem with he | hmem
  · cases he
    exact h
  · exact hs.shaped e i hmem

/-- Using a stored epoch leaves every epoch what it is. -/
theorem peek_use {s : EpochStore} (hs : s.Sound) {epoch : UInt64} {info : EpochInfo}
    (h : s.peek epoch = some info) (e : UInt64) : (s.use epoch info).peek e = s.peek e :=
  Recency.peek_touch_of_peek hs.proper h e

/-- The epoch that a time is resolved to is one that can be looked up, and it counts as used. -/
theorem resolve_of_find? {s : EpochStore} (hs : s.Sound) {time epoch : UInt64} {info : EpochInfo}
    (h : s.epochs.find? (fun _ info => info.covers time) = some (epoch, info)) :
    s.peek epoch = some info ∧ info.covers time = true ∧
      s.resolve time = (.ok info, s.use epoch info) := by
  obtain ⟨hpeek, hcovers⟩ := Recency.peek_of_find? hs.proper h
  refine ⟨hpeek, hcovers, ?_⟩
  simp only [resolve, h, get_of_peek (show s.peek epoch = some info from hpeek)]

theorem resolve_of_find?_none {s : EpochStore} {time : UInt64}
    (h : s.epochs.find? (fun _ info => info.covers time) = none) :
    s.resolve time = (.error (.epochNotFound time), s) := by
  simp only [resolve, h]

theorem resolve_store {s : EpochStore} (hs : s.Sound) (time : UInt64) :
    (s.resolve time).2 = s ∨
      ∃ epoch info, s.peek epoch = some info ∧ (s.resolve time).2 = s.use epoch info := by
  cases h : s.epochs.find? (fun _ info => info.covers time) with
  | none => exact .inl (by rw [resolve_of_find?_none h])
  | some e =>
    obtain ⟨epoch, info⟩ := e
    obtain ⟨hpeek, _, hresolve⟩ := resolve_of_find? hs h
    exact .inr ⟨epoch, info, hpeek, by rw [hresolve]⟩

end BlockSeal.EpochStore
