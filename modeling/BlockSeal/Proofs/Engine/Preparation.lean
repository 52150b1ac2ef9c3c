import BlockSeal.Proofs.Engine.Verdicts
import BlockSeal.Proofs.Epoch.Partition
import BlockSeal.Proofs.SlotNumbers

/-! # Headers that are made ready

A caller hands in its header to be written in place, and a refusal that comes late could leave it half
written. `prepare` answers a new header instead, so the writing in place stands here beside it, with all
that it reads, and the one thing that it writes, in their order.

* `InPlace`: an operation on a header and an engine. What it wrote stays if it is refused later on.
* `prepareInPlace_eq`: the header is the one that `prepare` answers, or the old one if it is refused.
* `SlotVerifier.exists_prepare_iff`, `SlotVerifier.slot_within_of_prepare`: which times have a slot, and
  what is written for them.
* `prepareInPlace_readies`: all this for every engine whose store can be reached.
-/

set_option autoImplicit false

namespace BlockSeal

/-! ## Writing in place -/

abbrev InPlace : Type → Type := EStateM Error (Header × Engine)

namespace InPlace

/-- The epoch that covers the header's time, which counts as used. -/
def coveringEpoch (v : SlotVerifier) : InPlace EpochInfo := do
  let (header, e) ← get
  set (header, e.withVerifier (.slot (v.resolving header.time)))
  match (v.store.resolve header.time).1 with
  | .ok info => return info
  | .error err => throw err

def writeSlot (v : SlotVerifier) : InPlace Unit := do
  let info ← coveringEpoch v
  let (header, e) ← get
  match info.turnAt header.time with
  | none => throw (.epochNotFound header.time)
  | some turn =>
    -- Whatever refuses the header has done so by now.
    let s := (v.resolving header.time).slotOf info turn
    set ({ header with extra := s.encode }, e)

def prepare (chain : Chain) : InPlace Unit := do
  let (header, e) ← get
  if header.number = 0 then throw .unknownAncestor
  if (chain.header? header.parentHash (header.number - 1)).isNone then throw .unknownAncestor
  match e.verifier with
  | .slot v => writeSlot v
  | _ => return

theorem run_writeSlot (v : SlotVerifier) (header : Header) (e : Engine) :
    (writeSlot v).run (header, e) = match v.prepare header with
      | (.ok (_, prepared), v') => .ok () (prepared, e.withVerifier (.slot v'))
      | (.error err, v') => .error err (header, e.withVerifier (.slot v')) := by
  unfold writeSlot coveringEpoch SlotVerifier.prepare SlotVerifier.resolving
  simp only [EStateM.run_bind, EStateM.run_get, EStateM.run_set]
  cases hresolve : v.store.resolve header.time with
  | mk result store =>
    cases result with
    | error err => rfl
    | ok info =>
      simp only [EStateM.run_pure, hresolve]
      cases info.turnAt header.time with
      | none => rfl
      | some turn => rfl

end InPlace

/-- Makes a header ready in place. The answer comes with the header and the engine as they are then. -/
def Engine.prepareInPlace (e : Engine) (chain : Chain) (header : Header) :
    EStateM.Result Error (Header × Engine) Unit :=
  (InPlace.prepare chain).run (header, e)

theorem Engine.prepareInPlace_eq (e : Engine) (chain : Chain) (header : Header) :
    e.prepareInPlace chain header = match e.prepare chain header with
      | (.ok prepared, e') => .ok () (prepared, e')
      | (.error err, e') => .error err (header, e') := by
  unfold prepareInPlace InPlace.prepare prepare
  simp only [EStateM.run_bind, EStateM.run_get]
  by_cases hnumber : header.number = 0
  · simp [hnumber]
  cases hparent : chain.header? header.parentHash (header.number - 1) with
  | none => simp [hnumber]
  | some parent =>
    simp only [hnumber, Option.isNone_some, Bool.false_eq_true, or_self, if_false]
    cases e.verifier with
    | slot v =>
      simp only [InPlace.run_writeSlot]
      cases v.prepare header with
      | mk result v' =>
        cases result with
        | error err => rfl
        | ok written => rfl
    | _ => rfl

/-! ## The parent -/

/-- The header that this one names as its parent is known, at the number before. -/
def Chain.HasParent (chain : Chain) (header : Header) : Prop :=
  1 ≤ header.number ∧
    ∃ parent ∈ chain, parent.number = header.number - 1 ∧ parent.hash = header.parentHash

theorem Chain.hasParent_iff {chain : Chain} {header : Header} : chain.HasParent header ↔
    ¬ (header.number = 0 ∨ (chain.header? header.parentHash (header.number - 1)).isNone) := by
  have hnumber : 1 ≤ header.number ↔ header.number ≠ 0 := by
    rw [UInt64.le_iff_toNat_le, ne_eq, ← UInt64.toNat_inj]
    exact Nat.one_le_iff_ne_zero
  rw [not_or, HasParent, hnumber, Bool.not_eq_true, Option.isNone_eq_false_iff, header?,
    List.find?_isSome]
  simp only [Bool.and_eq_true, decide_eq_true_eq]

namespace Engine

variable {e e' : Engine} {chain : Chain} {header prepared held : Header} {err : Error}

/-- In slot mode a header with a known parent is up to the verifier, and otherwise it is ready. -/
theorem prepare_eq_ok_iff : e.prepare chain header = (.ok prepared, e') ↔
    chain.HasParent header ∧ match e.verifier with
      | .slot v => ∃ s, (v.prepare header).1 = .ok (s, prepared) ∧
          e' = e.withVerifier (.slot (v.prepare header).2)
      | _ => prepared = header ∧ e' = e := by
  unfold prepare
  by_cases hparent : chain.HasParent header
  swap
  · rw [if_pos (not_not.1 fun h => hparent (Chain.hasParent_iff.2 h))]
    exact ⟨fun h => (by cases h), fun h => absurd h.1 hparent⟩
  rw [if_neg (Chain.hasParent_iff.1 hparent), and_iff_right hparent]
  cases e.verifier with
  | slot v =>
    cases hv : v.prepare header with
    | mk result v' =>
      cases result with
      | error err => simp [hv]
      | ok written =>
        obtain ⟨s, prepared'⟩ := written
        simp only [hv, Prod.mk.injEq, Except.ok.injEq]
        constructor
        · rintro ⟨rfl, rfl⟩
          exact ⟨s, ⟨rfl, rfl⟩, rfl⟩
        · rintro ⟨_, ⟨_, rfl⟩, rfl⟩
          exact ⟨rfl, rfl⟩
  | _ => simp [eq_comm]

theorem prepareInPlace_eq_ok_iff : e.prepareInPlace chain header = .ok () (held, e') ↔
    e.prepare chain header = (.ok held, e') := by
  rw [prepareInPlace_eq]
  cases e.prepare chain header with
  | mk result after =>
    cases result with
    | error err => simp
    | ok prepared => simp

theorem prepareInPlace_eq_error_iff : e.prepareInPlace chain header = .error err (held, e') ↔
    e.prepare chain header = (.error err, e') ∧ held = header := by
  rw [prepareInPlace_eq]
  cases e.prepare chain header with
  | mk result after =>
    cases result with
    | error err' =>
      simp only [EStateM.Result.error.injEq, Prod.mk.injEq, Except.error.injEq]
      constructor
      · rintro ⟨rfl, rfl, rfl⟩
        exact ⟨⟨rfl, rfl⟩, rfl⟩
      · rintro ⟨⟨rfl, rfl⟩, rfl⟩
        exact ⟨rfl, rfl, rfl⟩
    | ok prepared => simp

end Engine

/-! ## The slot -/

namespace SlotVerifier

variable {v : SlotVerifier} {header prepared : Header} {s : SlotSeal}

theorem exists_prepare_iff (hv : v.store.Scheduled) :
    (∃ written, (v.prepare header).1 = .ok written) ↔
      ∃ entry ∈ v.store.epochs.entries, entry.2.covers header.time = true := by
  constructor
  · rintro ⟨⟨s, prepared⟩, h⟩
    obtain ⟨info, _, hresolve, _⟩ := (prepare_eq_ok_iff hv.sound).1 h
    obtain ⟨epoch, hpeek, hcovers⟩ := hv.resolve_eq_ok_iff.1 hresolve
    exact ⟨(epoch, info), hv.sound.peek_eq_some_iff.1 hpeek, hcovers⟩
  · rintro ⟨entry, hmem, hcovers⟩
    obtain ⟨turn, hturn⟩ := EpochInfo.turnAt_of_covers hcovers
    have hresolve : (v.store.resolve header.time).1 = .ok entry.2 :=
      hv.resolve_eq_ok_iff.2 ⟨entry.1, hv.sound.peek_eq_some_iff.2 hmem, hcovers⟩
    exact ⟨(v.slotOf entry.2 turn, _),
      (prepare_eq_ok_iff hv.sound).2 ⟨entry.2, turn, hresolve, hturn, rfl, rfl⟩⟩

/-- The seal that is written names a stored epoch and the slot of it in which the time lies. -/
theorem slot_within_of_prepare (hv : v.store.Scheduled)
    (h : (v.prepare header).1 = .ok (s, prepared)) :
    prepared = { header with extra := s.encode } ∧ s.signature = none ∧
      ∃ info, v.store.peek s.epoch = some info ∧ s.turn.toNat < info.validators.length ∧
        (info.slotWindow s.turn).contains header.time = true := by
  obtain ⟨info, turn, hresolve, hturn, rfl, rfl⟩ := (prepare_eq_ok_iff hv.sound).1 h
  obtain ⟨epoch, hpeek, _⟩ := hv.resolve_eq_ok_iff.1 hresolve
  obtain ⟨hlt, hcontains⟩ := EpochInfo.turnAt_eq_some_iff.1 hturn
  have hepoch := (EpochStore.checkShape_eq_ok_iff.1 (hv.sound.checkShape hpeek)).1
  refine ⟨rfl, rfl, info, ?_, hlt, hcontains⟩
  change v.store.peek info.epoch = some info
  rw [hepoch, hpeek]

theorem peek_prepare (hv : v.store.Sound) (header : Header) (epoch : UInt64) :
    (v.prepare header).2.store.peek epoch = v.store.peek epoch := by
  rw [prepare_store]
  exact EpochStore.peek_perform_of_inserted?_none hv
    (show (EpochStore.Call.resolve header.time).inserted? = none from rfl) epoch

end SlotVerifier

/-! ## Every engine -/

namespace Engine

variable {e e' : Engine} {chain : Chain} {header prepared : Header}

theorem exists_prepare_iff (hstore : ∀ v, e.verifier = .slot v → v.store.Scheduled) :
    (∃ prepared e', e.prepare chain header = (.ok prepared, e')) ↔ chain.HasParent header ∧
      ∀ v, e.verifier = .slot v →
        ∃ entry ∈ v.store.epochs.entries, entry.2.covers header.time = true := by
  simp only [prepare_eq_ok_iff]
  cases hv : e.verifier with
  | slot v =>
    have hcovered : (∃ written, (v.prepare header).1 = .ok written) ↔
        ∃ entry ∈ v.store.epochs.entries, entry.2.covers header.time = true :=
      SlotVerifier.exists_prepare_iff (hstore v hv)
    constructor
    · rintro ⟨prepared, _, hparent, s, hs, _⟩
      refine ⟨hparent, fun v' hv' => ?_⟩
      cases hv'
      exact hcovered.1 ⟨_, hs⟩
    · rintro ⟨hparent, h⟩
      obtain ⟨⟨s, prepared⟩, hs⟩ := hcovered.2 (h v rfl)
      exact ⟨prepared, _, hparent, s, hs, rfl⟩
  | _ => simp

theorem slot_of_prepare_eq_ok {v : SlotVerifier} (hv : e.verifier = .slot v)
    (hstore : v.store.Scheduled) (h : e.prepare chain header = (.ok prepared, e')) :
    ∃ (s : SlotSeal) (info : EpochInfo), prepared = { header with extra := s.encode } ∧
      s.signature = none ∧
      v.store.peek s.epoch = some info ∧ e'.verifier.epoch? s.epoch = some info ∧
      s.turn.toNat < info.validators.length ∧
      (info.slotWindow s.turn).contains header.time = true := by
  obtain ⟨-, hwritten⟩ := prepare_eq_ok_iff.1 h
  simp only [hv] at hwritten
  obtain ⟨s, hs, rfl⟩ := hwritten
  obtain ⟨hprepared, hunsigned, info, hpeek, hturn, hcontains⟩ :=
    SlotVerifier.slot_within_of_prepare hstore hs
  have hafter : (v.prepare header).2.store.peek s.epoch = some info := by
    rw [SlotVerifier.peek_prepare hstore.sound, hpeek]
  exact ⟨s, info, hprepared, hunsigned, hpeek, hafter, hturn, hcontains⟩

/-- **Making a header ready.** A header that is written in place becomes the one that `prepare` answers,
and a refusal leaves it as it was. In an engine whose store can be reached, a header is made ready
exactly when its parent is known and, in slot mode, a stored epoch covers its time. Nothing but the
metadata is written, and outside slot mode not even that. In slot mode they declare, without a
signature, a stored epoch and one of its turns, and the time lies in the slot of this turn. An epoch
that is found for a time has a slot for it, so preparation is never refused for want of a slot. -/
theorem prepareInPlace_readies {e : Engine}
    (hstore : ∀ v, e.verifier = .slot v → v.store.Reachable) (chain : Chain) (header : Header) :
    (∀ held e', e.prepareInPlace chain header = .ok () (held, e') ↔
      e.prepare chain header = (.ok held, e')) ∧
    (∀ err held e', e.prepareInPlace chain header = .error err (held, e') ↔
      e.prepare chain header = (.error err, e') ∧ held = header) ∧
    ((∃ prepared e', e.prepare chain header = (.ok prepared, e')) ↔ 1 ≤ header.number ∧
      (∃ parent ∈ chain, parent.number = header.number - 1 ∧ parent.hash = header.parentHash) ∧
      ∀ v, e.verifier = .slot v →
        ∃ entry ∈ v.store.epochs.entries, entry.2.covers header.time = true) ∧
    (∀ prepared e', e.prepare chain header = (.ok prepared, e') →
      prepared = { header with extra := prepared.extra } ∧
      ((∀ v, e.verifier ≠ .slot v) → prepared.extra = header.extra) ∧
      ∀ v, e.verifier = .slot v → ∃ s info, SlotSeal.decode prepared.extra = .ok s ∧
        s.signature = none ∧ v.store.peek s.epoch = some info ∧
        e'.verifier.epoch? s.epoch = some info ∧ s.turn.toNat < info.validators.length ∧
        (info.slotWindow s.turn).contains header.time = true) ∧
    ∀ v info, e.verifier = .slot v → (v.store.resolve header.time).1 = .ok info →
      ∃ turn, info.turnAt header.time = some turn := by
  refine ⟨fun _ _ => prepareInPlace_eq_ok_iff, fun _ _ _ => prepareInPlace_eq_error_iff, ?_, ?_, ?_⟩
  · rw [exists_prepare_iff fun v hv => (hstore v hv).scheduled, Chain.HasParent, and_assoc]
  · intro prepared e' h
    obtain ⟨-, hwritten⟩ := prepare_eq_ok_iff.1 h
    cases hv : e.verifier with
    | slot v =>
      obtain ⟨s, info, rfl, hslot⟩ := slot_of_prepare_eq_ok hv (hstore v hv).scheduled h
      refine ⟨rfl, fun hne => absurd rfl (hne v), fun v' hv' => ?_⟩
      cases hv'
      exact ⟨s, info, SlotSeal.decode_encode s, hslot⟩
    | _ =>
      simp only [hv] at hwritten
      obtain ⟨rfl, -⟩ := hwritten
      exact ⟨rfl, fun _ => rfl, fun _ hv' => (by cases hv')⟩
  · intro v info hv hresolve
    obtain ⟨_, _, hcovers⟩ := (hstore v hv).scheduled.resolve_eq_ok_iff.1 hresolve
    exact EpochInfo.turnAt_of_covers hcovers

/-- A draft gets its slot, and comes back as it was when its parent is unknown. -/
theorem draft_readies : (∀ v, Sample.engine.verifier = .slot v → v.store.Reachable) ∧
    Sample.engine.prepareInPlace [Sample.parent] Sample.draft = .ok ()
      (Sample.header, Sample.engine.withVerifier (.slot (Sample.verifier.resolving 115))) ∧
    Sample.header.extra ≠ Sample.draft.extra ∧
    (∃ s info, SlotSeal.decode Sample.header.extra = .ok s ∧
      Sample.store.peek s.epoch = some info ∧ (info.slotWindow s.turn).contains 115 = true) ∧
    Sample.engine.prepareInPlace [] Sample.draft =
      .error .unknownAncestor (Sample.draft, Sample.engine) := by
  have hstore : ∀ v, Sample.engine.verifier = .slot v → v.store.Reachable := by
    intro v hv
    cases hv
    exact Sample.store_reachable
  obtain ⟨hok, -, -, hwritten, -⟩ := prepareInPlace_readies hstore [Sample.parent] Sample.draft
  obtain ⟨-, herror, -, -, -⟩ := prepareInPlace_readies hstore [] Sample.draft
  obtain ⟨-, -, hslot⟩ := hwritten _ _ Sample.engine_prepare
  obtain ⟨s, info, hdecode, -, hpeek, -, -, hcontains⟩ := hslot Sample.verifier rfl
  refine ⟨hstore, (hok _ _).2 Sample.engine_prepare, ?_, ⟨s, info, hdecode, hpeek, hcontains⟩, ?_⟩
  · decide
  · exact (herror _ _ _).2 ⟨rfl, rfl⟩

end Engine

end BlockSeal
