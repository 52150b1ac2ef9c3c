import BlockSeal.Proofs.Epoch.Sound
import BlockSeal.SlotVerifier

/-! # Runs of calls on the store of epochs

* `verify_of_peek`, `verify_of_peek_none`: verification by the declared epoch, and by the header's
  time when that epoch is not stored.
* `Call`, `perform`: one call on a store, with its answer and the store after it.
* `run`, `outcomes`: what a list of calls, one after another, makes of a store and answers.
* `Reachable`: the stores that calls can lead to from an empty one.
* `perform_cases`, `Reachable.sound`: one call at most uses a stored epoch or takes in the one that it
  inserts, of the right shape, so every store that can be reached is sound.
* `peek_perform_of_inserted?_none`: all calls but insertions leave every epoch what it is.
-/

set_option autoImplicit false

namespace BlockSeal

namespace SlotVerifier

/-! ## Preparation and verification -/

theorem prepare_store (v : SlotVerifier) (header : Header) :
    (v.prepare header).2 = { v with store := (v.store.resolve header.time).2 } := by
  unfold prepare
  split
  · rename_i h
    rw [h]
  · rename_i h
    rw [h]
    split <;> rfl

theorem verify_of_readSeal_error {v : SlotVerifier} {header : Header} {e : Error}
    (h : readSeal v.store.validatorSetSize header = .error e) : v.verify header = (.error e, v) := by
  simp only [verify, h]

theorem verify_of_peek {v : SlotVerifier} {header : Header} {s : SlotSeal} {bytes : SignatureBytes}
    {info : EpochInfo} (h : readSeal v.store.validatorSetSize header = .ok (s, bytes))
    (hpeek : v.store.peek s.epoch = some info) :
    v.verify header = (inspect v.tolerance header s bytes info, v) := by
  simp only [verify, h, epochFor, hpeek]

theorem verify_of_peek_none {v : SlotVerifier} {header : Header} {s : SlotSeal}
    {bytes : SignatureBytes} (h : readSeal v.store.validatorSetSize header = .ok (s, bytes))
    (hpeek : v.store.peek s.epoch = none) :
    v.verify header =
      ((v.store.resolve header.time).1.bind (inspect v.tolerance header s bytes),
        { v with store := (v.store.resolve header.time).2 }) := by
  simp only [verify, h, epochFor, hpeek]
  cases v.store.resolve header.time with
  | mk result store => cases result <;> rfl

theorem verify_store (v : SlotVerifier) (header : Header) :
    (v.verify header).2.store = v.store ∨
      (v.verify header).2.store = (v.store.resolve header.time).2 := by
  cases h : readSeal v.store.validatorSetSize header with
  | error e => exact .inl (by rw [verify_of_readSeal_error h])
  | ok read =>
    obtain ⟨s, bytes⟩ := read
    cases hpeek : v.store.peek s.epoch with
    | some info => exact .inl (by rw [verify_of_peek h hpeek])
    | none => exact .inr (by rw [verify_of_peek_none h hpeek])

end SlotVerifier

namespace EpochStore

/-! ## Calls -/

/-- A call on a store, by the type of its answer. -/
inductive Call : Type → Type
  | insert (epoch : UInt64) (info : EpochInfo) : Call (Except Error Unit)
  | get (epoch : UInt64) : Call (Option EpochInfo)
  | peek (epoch : UInt64) : Call (Option EpochInfo)
  | contains (epoch : UInt64) : Call Bool
  | hasCoverage (time : UInt64) : Call Bool
  | resolve (time : UInt64) : Call (Except Error EpochInfo)
  | prepare (header : Header) : Call (Except Error (SlotSeal × Header))
  | verify (tolerance : UInt64) (header : Header) : Call (Except Error Unit)

def Call.isVerify {α : Type} : Call α → Bool
  | .verify _ _ => true
  | _ => false

/-- What a call asks the store to take in. -/
def Call.inserted? {α : Type} : Call α → Option (UInt64 × EpochInfo)
  | .insert epoch info => some (epoch, info)
  | _ => none

def perform {α : Type} (s : EpochStore) : Call α → α × EpochStore
  | .insert epoch info => s.insert epoch info
  | .get epoch => s.get epoch
  | .peek epoch => (s.peek epoch, s)
  | .contains epoch => (s.contains epoch, s)
  | .hasCoverage time => (s.hasCoverage time, s)
  | .resolve time => s.resolve time
  | .prepare header =>
    let (result, v) := SlotVerifier.prepare { store := s, tolerance := 0 } header
    (result, v.store)
  | .verify tolerance header =>
    let (result, v) := SlotVerifier.verify { store := s, tolerance := tolerance } header
    (result, v.store)

def run (calls : List (Σ α : Type, Call α)) (s : EpochStore) : EpochStore :=
  calls.foldl (fun s call => (s.perform call.2).2) s

/-- A call and the answer to it. -/
structure Outcome where
  {α : Type}
  call : Call α
  answer : α

/-- Calls in turn, each with the answer to it. -/
def outcomes : List (Σ α : Type, Call α) → EpochStore → List Outcome
  | [], _ => []
  | call :: calls, s => ⟨call.2, (s.perform call.2).1⟩ :: outcomes calls (s.perform call.2).2

/-- Whether calls can lead to a store from an empty one. -/
def Reachable (s : EpochStore) : Prop :=
  ∃ size duration capacity empty calls,
    create size duration capacity = .ok empty ∧ s = run calls empty

theorem run_append (before after : List (Σ α : Type, Call α)) (s : EpochStore) :
    run (before ++ after) s = run after (run before s) :=
  List.foldl_append

/-! ## Every store that can be reached is in order -/

/-- **One call.** A call leaves the store as it is, uses an epoch that is stored, or takes in the
epoch that it inserts, which has the right shape and which the stored ones admit. -/
theorem perform_cases {α : Type} {s : EpochStore} (hs : s.Sound) (call : Call α) :
    (s.perform call).2 = s ∨
      (∃ epoch info, s.peek epoch = some info ∧ (s.perform call).2 = s.use epoch info) ∨
      ∃ epoch info, call.inserted? = some (epoch, info) ∧ s.checkShape epoch info = .ok () ∧
        admits s.epochWidth epoch info s.epochs.entries = .ok true ∧
        (s.perform call).2 = s.use epoch info := by
  have hresolve : ∀ time, (s.resolve time).2 = s ∨
      (∃ epoch info, s.peek epoch = some info ∧ (s.resolve time).2 = s.use epoch info) ∨
      ∃ epoch info, call.inserted? = some (epoch, info) ∧ s.checkShape epoch info = .ok () ∧
        admits s.epochWidth epoch info s.epochs.entries = .ok true ∧
        (s.resolve time).2 = s.use epoch info := by
    intro time
    rcases resolve_store hs time with h | h
    · exact .inl h
    · exact .inr (.inl h)
  cases call with
  | insert epoch info =>
    rcases s.insert_cases epoch info with h | ⟨hshape, hadmits, h⟩
    · exact .inl h
    · exact .inr (.inr ⟨epoch, info, rfl, hshape, hadmits, by rw [perform, h]⟩)
  | get epoch =>
    cases hpeek : s.peek epoch with
    | none => exact .inl (by rw [perform, get_of_peek_none hpeek])
    | some info => exact .inr (.inl ⟨epoch, info, hpeek, by rw [perform, get_of_peek hpeek]⟩)
  | peek epoch => exact .inl rfl
  | contains epoch => exact .inl rfl
  | hasCoverage time => exact .inl rfl
  | resolve time => exact hresolve time
  | prepare header =>
    have h := SlotVerifier.prepare_store { store := s, tolerance := 0 } header
    simp only [perform, h]
    exact hresolve header.time
  | verify tolerance header =>
    simp only [perform]
    rcases SlotVerifier.verify_store { store := s, tolerance := tolerance } header with h | h
    · exact .inl h
    · rw [h]
      exact hresolve header.time

/-- A call that inserts nothing leaves every epoch what it is. -/
theorem peek_perform_of_inserted?_none {α : Type} {s : EpochStore} (hs : s.Sound) {call : Call α}
    (hcall : call.inserted? = none) (epoch : UInt64) :
    (s.perform call).2.peek epoch = s.peek epoch := by
  rcases perform_cases hs call with h | ⟨other, info, hpeek, h⟩ | ⟨_, _, hinserted, _⟩
  · rw [h]
  · rw [h, peek_use hs hpeek]
  · rw [hcall] at hinserted
    cases hinserted

/-- Whichever it is, at most one epoch of the right shape is used. -/
theorem perform_store {α : Type} {s : EpochStore} (hs : s.Sound) (call : Call α) :
    (s.perform call).2 = s ∨ ∃ epoch info, s.checkShape epoch info = .ok () ∧
      (s.perform call).2 = s.use epoch info := by
  rcases perform_cases hs call with
    h | ⟨epoch, info, hpeek, h⟩ | ⟨epoch, info, _, hshape, _, h⟩
  · exact .inl h
  · exact .inr ⟨epoch, info, hs.checkShape hpeek, h⟩
  · exact .inr ⟨epoch, info, hshape, h⟩

theorem Sound.perform {α : Type} {s : EpochStore} (hs : s.Sound) (call : Call α) :
    (s.perform call).2.Sound := by
  rcases perform_store hs call with h | ⟨epoch, info, hshape, h⟩
  · rwa [h]
  · rw [h]
    exact hs.use hshape

theorem Sound.run {s : EpochStore} (hs : s.Sound) (calls : List (Σ α : Type, Call α)) :
    (EpochStore.run calls s).Sound := by
  induction calls generalizing s with
  | nil => exact hs
  | cons call calls ih => exact ih (hs.perform call.2)

/-- The sizes that a store is made for stay. -/
theorem sizes_run {s : EpochStore} (hs : s.Sound) (calls : List (Σ α : Type, Call α)) :
    (EpochStore.run calls s).validatorSetSize = s.validatorSetSize ∧
      (EpochStore.run calls s).slotDuration = s.slotDuration ∧
      (EpochStore.run calls s).epochs.capacity = s.epochs.capacity := by
  induction calls generalizing s with
  | nil => exact ⟨rfl, rfl, rfl⟩
  | cons call calls ih =>
    obtain ⟨hsize, hduration, hcapacity⟩ := ih (hs.perform call.2)
    have hcall : (s.perform call.2).2.validatorSetSize = s.validatorSetSize ∧
        (s.perform call.2).2.slotDuration = s.slotDuration ∧
        (s.perform call.2).2.epochs.capacity = s.epochs.capacity := by
      rcases perform_store hs call.2 with h | ⟨epoch, info, _, h⟩
      · rw [h]
        exact ⟨rfl, rfl, rfl⟩
      · rw [h]
        exact ⟨rfl, rfl, rfl⟩
    exact ⟨hsize.trans hcall.1, hduration.trans hcall.2.1, hcapacity.trans hcall.2.2⟩

theorem validatorSetSize_run {s : EpochStore} (hs : s.Sound)
    (calls : List (Σ α : Type, Call α)) :
    (EpochStore.run calls s).validatorSetSize = s.validatorSetSize := (sizes_run hs calls).1

/-- **Every run.** The stores that can be reached are in order. -/
theorem Reachable.sound {s : EpochStore} (hs : s.Reachable) : s.Sound := by
  obtain ⟨size, duration, capacity, empty, calls, hcreate, rfl⟩ := hs
  exact (sound_create hcreate).run calls

theorem Reachable.run {s : EpochStore} (hs : s.Reachable) (calls : List (Σ α : Type, Call α)) :
    (EpochStore.run calls s).Reachable := by
  obtain ⟨size, duration, capacity, empty, before, hcreate, rfl⟩ := hs
  exact ⟨size, duration, capacity, empty, before ++ calls, hcreate, (run_append _ _ _).symm⟩

end EpochStore

end BlockSeal
