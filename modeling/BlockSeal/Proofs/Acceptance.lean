import BlockSeal.Proofs.Epoch.Run
import BlockSeal.Proofs.Epoch.Slots
import BlockSeal.Proofs.Keys
import BlockSeal.Proofs.SlotSeal

/-! # When the seal of a header is accepted

* `checkTurn_eq_ok_iff`, `readSeal_eq_ok_iff`, `timely_iff`, `inspect_eq_ok_iff`: what each part of
  verification asks for.
* `Accepted`: all of it, said of a header and the store, and as numbers wherever words are added
  and multiplied.
* `verify_accepts_iff`: against every store that can be reached, verification accepts exactly the
  headers that are `Accepted`; the lookup by the header's time never ends in acceptance, and the
  signer of a seal whose numbers agree is never missing.
-/

set_option autoImplicit false

namespace BlockSeal.SlotVerifier

/-! ## The parts of verification -/

theorem checkTurn_eq_ok_iff {size : UInt64} {s : SlotSeal} :
    checkTurn size s = .ok () ↔ s.turn.toNat < size.toNat ∧
      s.slot.toNat = min (s.epoch.toNat * size.toNat) (UInt64.size - 1) + s.turn.toNat := by
  have hstart := UInt64.toNat_mulCapped s.epoch size
  unfold checkTurn
  simp only [UInt64.le_iff_toNat_le, UInt64.lt_iff_toNat_lt]
  split
  · rename_i h
    simp only [reduceCtorEq, false_iff, not_and]
    omega
  rename_i hturn
  split
  · rename_i h
    simp only [reduceCtorEq, false_iff, not_and]
    omega
  rename_i hslot
  have hsub : (s.slot - s.epoch.mulCapped size).toNat =
      s.slot.toNat - (s.epoch.mulCapped size).toNat :=
    UInt64.toNat_sub_of_le _ _ (UInt64.le_iff_toNat_le.2 (by omega))
  split
  · rename_i h
    simp only [reduceCtorEq, false_iff, not_and]
    omega
  split
  · rename_i h
    simp only [reduceCtorEq, false_iff, not_and]
    intro _ heq
    exact h (UInt64.toNat_inj.1 (by omega))
  · rename_i h
    simp only [ne_eq, not_not] at h
    have := congrArg UInt64.toNat h
    simp only [true_iff]
    omega

theorem readSeal_eq_ok_iff {size : UInt64} {header : Header} {s : SlotSeal}
    {bytes : SignatureBytes} :
    readSeal size header = .ok (s, bytes) ↔ SlotSeal.decode header.extra = .ok s ∧
      s.signature = some bytes ∧ checkTurn size s = .ok () := by
  unfold readSeal
  cases SlotSeal.decode header.extra with
  | error e => simp
  | ok t =>
    cases hsig : t.signature with
    | none =>
      simp only [hsig, reduceCtorEq, Except.ok.injEq, false_iff, not_and]
      rintro rfl h
      rw [hsig] at h
      cases h
    | some b =>
      cases hcheck : checkTurn size t with
      | error e =>
        simp only [hsig, hcheck, reduceCtorEq, Except.ok.injEq, false_iff, not_and]
        rintro rfl _ h
        rw [hcheck] at h
        cases h
      | ok u =>
        simp only [hsig, hcheck, Except.ok.injEq, Prod.mk.injEq]
        constructor
        · rintro ⟨rfl, rfl⟩
          exact ⟨rfl, hsig, hcheck⟩
        · rintro ⟨rfl, h, _⟩
          rw [hsig, Option.some.injEq] at h
          exact ⟨rfl, h⟩

theorem timely_iff {tolerance : UInt64} {w : Window} {time : UInt64} :
    timely tolerance w time = true ↔
      w.start.toNat ≤ min (time.toNat + tolerance.toNat) (UInt64.size - 1) ∧
        time.toNat < min (w.stop.toNat + tolerance.toNat) (UInt64.size - 1) := by
  simp only [timely, Bool.and_eq_true, decide_eq_true_eq, UInt64.le_iff_toNat_le,
    UInt64.lt_iff_toNat_lt, UInt64.toNat_addCapped]

theorem inspect_eq_ok_iff {tolerance : UInt64} {header : Header} {s : SlotSeal}
    {bytes : SignatureBytes} {info : EpochInfo} :
    inspect tolerance header s bytes info = .ok () ↔ s.epoch = info.epoch ∧
      timely tolerance (info.slotWindow s.turn) header.time = true ∧
      header.mixDigest = SignatureBytes.commitment bytes ∧
      ∃ signer signature, info.validator s.turn = some signer ∧
        Signature.ofBytes bytes.toList = .ok signature ∧
        signature.verify signer (s.preSealHash header).toList = true := by
  unfold inspect
  simp only
  split
  · rename_i h
    simp only [reduceCtorEq, false_iff, not_and]
    intro hepoch htimely
    simp [hepoch, htimely] at h
  rename_i hdeclared
  simp only [not_or, ne_eq, Decidable.not_not, Bool.not_eq_true', Bool.not_eq_false] at hdeclared
  cases hsigner : info.validator s.turn with
  | none => simp
  | some signer =>
    dsimp only
    split
    · rename_i hcommit
      simp only [reduceCtorEq, false_iff, not_and]
      exact fun _ _ h => absurd h hcommit
    rename_i hcommit
    cases hsig : Signature.ofBytes bytes.toList with
    | error e => simp
    | ok signature =>
      dsimp only
      split
      · rename_i hverify
        simp only [true_iff]
        exact ⟨hdeclared.1, hdeclared.2, Decidable.not_not.1 hcommit, signer, signature, rfl, rfl,
          hverify⟩
      · rename_i hverify
        simp only [reduceCtorEq, false_iff, not_and]
        rintro _ _ _ ⟨signer', signature', h, h', hv⟩
        cases h
        cases h'
        exact hverify hv

theorem inspect_ne_turnOutOfRange {tolerance : UInt64} {header : Header} {s : SlotSeal}
    {bytes : SignatureBytes} {info : EpochInfo} {signer : PublicKey}
    (hsigner : info.validator s.turn = some signer) (turn : UInt64) (count : Nat) :
    inspect tolerance header s bytes info ≠ .error (.turnOutOfRange turn count) := by
  unfold inspect
  rw [hsigner]
  dsimp only
  split
  · simp
  split
  · simp
  cases hsig : Signature.ofBytes bytes.toList with
  | error e =>
    unfold Signature.ofBytes at hsig
    split at hsig
    · cases hsig
    · cases hsig
      simp
  | ok signature =>
    dsimp only
    split
    · simp
    · simp

/-! ## Without the declared epoch -/

/-- An epoch other than the declared one is refused before anything else is looked at. -/
theorem inspect_of_ne {tolerance : UInt64} {header : Header} {s : SlotSeal}
    {bytes : SignatureBytes} {info : EpochInfo} (h : s.epoch ≠ info.epoch) :
    inspect tolerance header s bytes info = .error (.staleOrFutureSlot s.slot header.time
      (info.slotWindow s.turn).start (info.slotWindow s.turn).stop) := by
  unfold inspect
  rw [if_pos (.inl h)]

/-- When the declared epoch is not stored, no epoch covers the header's time, or one does that is
not the declared one. -/
theorem verify_undeclared {v : SlotVerifier} (hv : v.store.Sound) {header : Header} {s : SlotSeal}
    {bytes : SignatureBytes} (h : readSeal v.store.validatorSetSize header = .ok (s, bytes))
    (hpeek : v.store.peek s.epoch = none) :
    (v.verify header).1 = .error (.epochNotFound header.time) ∨
      ∃ start stop, (v.verify header).1 = .error (.staleOrFutureSlot s.slot header.time start stop) := by
  rw [verify_of_peek_none h hpeek]
  cases hfind : v.store.epochs.find? (fun _ info => info.covers header.time) with
  | none =>
    rw [EpochStore.resolve_of_find?_none hfind]
    exact .inl rfl
  | some e =>
    obtain ⟨epoch, info⟩ := e
    obtain ⟨hstored, _, hresolve⟩ := EpochStore.resolve_of_find? hv hfind
    have hepoch : info.epoch = epoch :=
      (EpochStore.checkShape_eq_ok_iff.1 (hv.checkShape hstored)).1
    have hne : s.epoch ≠ info.epoch := by
      intro heq
      rw [heq, hepoch, hstored] at hpeek
      cases hpeek
    rw [hresolve]
    exact .inr ⟨_, _, inspect_of_ne hne⟩

/-- So the header is not accepted, and what it is refused for is not its turn. -/
theorem verify_undeclared_refused {v : SlotVerifier} (hv : v.store.Sound) {header : Header}
    {s : SlotSeal} {bytes : SignatureBytes}
    (h : readSeal v.store.validatorSetSize header = .ok (s, bytes))
    (hpeek : v.store.peek s.epoch = none) :
    (v.verify header).1 ≠ .ok () ∧
      ∀ turn count, (v.verify header).1 ≠ .error (.turnOutOfRange turn count) := by
  rcases verify_undeclared hv h hpeek with he | ⟨start, stop, he⟩
  · rw [he]
    simp
  · rw [he]
    simp

/-! ## Acceptance -/

/-- The header has the seal `s` with the signature `bytes`, the store has the epoch `info` that the
seal declares, and they fit each other, the header's time and the header's mix digest. -/
structure Accepted (v : SlotVerifier) (header : Header) (s : SlotSeal) (bytes : SignatureBytes)
    (info : EpochInfo) : Prop where
  decoded : SlotSeal.decode header.extra = .ok s
  signed : s.signature = some bytes
  turn_lt : s.turn.toNat < v.store.validatorSetSize.toNat
  slot_eq : s.slot.toNat =
    min (s.epoch.toNat * v.store.validatorSetSize.toNat) (UInt64.size - 1) + s.turn.toNat
  stored : (s.epoch, info) ∈ v.store.epochs.entries
  not_early :
    min (info.epochStart.toNat + s.turn.toNat * v.store.slotDuration.toNat) (UInt64.size - 1) ≤
      min (header.time.toNat + v.tolerance.toNat) (UInt64.size - 1)
  not_late : header.time.toNat <
    min (min (info.epochStart.toNat + (s.turn.toNat + 1) * v.store.slotDuration.toNat)
      (UInt64.size - 1) + v.tolerance.toNat) (UInt64.size - 1)
  committed : header.mixDigest.toList = bytes.toList.take 32
  valid : ∃ signer signature, info.validators[s.turn.toNat]? = some signer ∧
    Signature.ofBytes bytes.toList = .ok signature ∧
    signature.verify signer (s.preSealHash header).toList = true

/-- Inspection against a stored epoch, after the seal has been read, asks for the rest. -/
theorem accepted_iff_of_peek {v : SlotVerifier} (hv : v.store.Sound) {header : Header}
    {s : SlotSeal} {bytes : SignatureBytes} {info : EpochInfo}
    (h : readSeal v.store.validatorSetSize header = .ok (s, bytes))
    (hpeek : v.store.peek s.epoch = some info) :
    inspect v.tolerance header s bytes info = .ok () ↔ Accepted v header s bytes info := by
  obtain ⟨hepoch, _, hduration⟩ := EpochStore.checkShape_eq_ok_iff.1 (hv.checkShape hpeek)
  obtain ⟨hdecode, hsigned, hcheck⟩ := readSeal_eq_ok_iff.1 h
  obtain ⟨hturn, hslot⟩ := checkTurn_eq_ok_iff.1 hcheck
  have hcommit : header.mixDigest = SignatureBytes.commitment bytes ↔
      header.mixDigest.toList = bytes.toList.take 32 := Octets.ext_iff
  rw [inspect_eq_ok_iff, timely_iff, EpochInfo.toNat_slotWindow_start,
    EpochInfo.toNat_slotWindow_stop, hduration, hcommit]
  constructor
  · rintro ⟨_, ⟨hearly, hlate⟩, hcommitted, hvalid⟩
    exact ⟨hdecode, hsigned, hturn, hslot, (Recency.peek_eq_some_iff hv.proper).1 hpeek, hearly,
      hlate, hcommitted, hvalid⟩
  · intro ha
    exact ⟨hepoch.symm, ⟨ha.not_early, ha.not_late⟩, ha.committed, ha.valid⟩

theorem accepted_of_verify {v : SlotVerifier} (hv : v.store.Sound) {header : Header}
    (h : (v.verify header).1 = .ok ()) : ∃ s bytes info, Accepted v header s bytes info := by
  cases hread : readSeal v.store.validatorSetSize header with
  | error e =>
    rw [verify_of_readSeal_error hread] at h
    cases h
  | ok read =>
    obtain ⟨s, bytes⟩ := read
    cases hpeek : v.store.peek s.epoch with
    | none => exact absurd h (verify_undeclared_refused hv hread hpeek).1
    | some info =>
      rw [verify_of_peek hread hpeek] at h
      exact ⟨s, bytes, info, (accepted_iff_of_peek hv hread hpeek).1 h⟩

theorem Accepted.peek {v : SlotVerifier} {header : Header} {s : SlotSeal} {bytes : SignatureBytes}
    {info : EpochInfo} (ha : Accepted v header s bytes info) (hv : v.store.Sound) :
    v.store.peek s.epoch = some info := (Recency.peek_eq_some_iff hv.proper).2 ha.stored

theorem verify_of_accepted {v : SlotVerifier} (hv : v.store.Sound) {header : Header} {s : SlotSeal}
    {bytes : SignatureBytes} {info : EpochInfo} (ha : Accepted v header s bytes info) :
    v.verify header = (.ok (), v) := by
  have hread : readSeal v.store.validatorSetSize header = .ok (s, bytes) :=
    readSeal_eq_ok_iff.2
      ⟨ha.decoded, ha.signed, checkTurn_eq_ok_iff.2 ⟨ha.turn_lt, ha.slot_eq⟩⟩
  have hpeek := ha.peek hv
  rw [verify_of_peek hread hpeek, (accepted_iff_of_peek hv hread hpeek).2 ha]

/-- A header made ready for a slot, with the signature that the slot's validator makes of it. -/
theorem accepted_finished {v : SlotVerifier} (hv : v.store.Sound) {header : Header}
    {declared : SlotSeal} {info : EpochInfo} {key : SecretKey} (nonce : Nonce)
    (hunsigned : declared.signature = none) (hextra : header.extra = declared.encode)
    (hpeek : v.store.peek declared.epoch = some info)
    (hslot : declared.slot.toNat =
      min (declared.epoch.toNat * v.store.validatorSetSize.toNat) (UInt64.size - 1) +
        declared.turn.toNat)
    (htime : info.turnAt header.time = some declared.turn)
    (hkey : info.validator declared.turn = some key.publicKey)
    (hsigns : key.Signs (declared.preSealHash header).toList) :
    Accepted v
      (declared.finished header (key.sign (declared.preSealHash header).toList).octets nonce)
      (declared.withSignature (key.sign (declared.preSealHash header).toList).octets)
      (key.sign (declared.preSealHash header).toList).octets info := by
  obtain ⟨_, hlength, hduration⟩ := EpochStore.checkShape_eq_ok_iff.1 (hv.checkShape hpeek)
  obtain ⟨hturn, hstart, hstop⟩ := EpochInfo.turnAt_eq_some htime
  have hlast := (info.slotWindow declared.turn).stop.toNat_lt_size
  have htop := header.time.toNat_lt_size
  rw [EpochInfo.toNat_slotWindow_start, hduration] at hstart
  rw [EpochInfo.toNat_slotWindow_stop, hduration] at hstop hlast
  rw [hlength] at hturn
  refine ⟨?_, rfl, hturn, hslot, (Recency.peek_eq_some_iff hv.proper).1 hpeek, ?_, ?_, rfl,
    key.publicKey, _, hkey, hsigns.readable, ?_⟩
  · exact SlotSeal.decode_encode _
  · change min (info.epochStart.toNat + declared.turn.toNat * v.store.slotDuration.toNat)
      (UInt64.size - 1) ≤ min (header.time.toNat + v.tolerance.toNat) (UInt64.size - 1)
    omega
  · change header.time.toNat <
      min (min (info.epochStart.toNat + (declared.turn.toNat + 1) * v.store.slotDuration.toNat)
        (UInt64.size - 1) + v.tolerance.toNat) (UInt64.size - 1)
    omega
  · rw [SlotSeal.preSealHash_finished hunsigned hextra]
    exact hsigns.valid

/-- **Acceptance.** Against a store that can be reached, verification accepts exactly the headers
with a seal and an epoch as `Accepted` says. The lookup by the header's time never ends in
acceptance, and once the numbers of the seal agree, no turn is refused for want of a validator. -/
theorem verify_accepts_iff {v : SlotVerifier} (hv : v.store.Reachable) (header : Header) :
    ((v.verify header).1 = .ok () ↔ ∃ s bytes info, Accepted v header s bytes info) ∧
      ∀ s bytes, readSeal v.store.validatorSetSize header = .ok (s, bytes) →
        (v.store.peek s.epoch = none → (v.verify header).1 ≠ .ok ()) ∧
        ∀ turn count, (v.verify header).1 ≠ .error (.turnOutOfRange turn count) := by
  have hs := hv.sound
  refine ⟨⟨accepted_of_verify hs, ?_⟩, fun s bytes h => ⟨fun hpeek => ?_, fun turn count => ?_⟩⟩
  · rintro ⟨s, bytes, info, ha⟩
    rw [verify_of_accepted hs ha]
  · exact (verify_undeclared_refused hs h hpeek).1
  · cases hpeek : v.store.peek s.epoch with
    | none => exact (verify_undeclared_refused hs h hpeek).2 turn count
    | some info =>
      have hturn := (checkTurn_eq_ok_iff.1 (readSeal_eq_ok_iff.1 h).2.2).1
      obtain ⟨signer, hsigner⟩ := EpochStore.exists_validator (hs.checkShape hpeek) hturn
      rw [verify_of_peek h hpeek]
      exact inspect_ne_turnOutOfRange hsigner turn count

end BlockSeal.SlotVerifier

/-! ## A header that is accepted -/

namespace BlockSeal.Sample

def key : SecretKey := ⟨3⟩

/-- An epoch of two slots, the second of which is the key's. -/
def info : EpochInfo where
  epoch := 1
  validators := [(⟨2⟩ : SecretKey).publicKey, key.publicKey]
  epochStart := 100
  slotDuration := 10

def store : EpochStore where
  validatorSetSize := 2
  slotDuration := 10
  epochs := { capacity := 3, entries := [(1, info)] }

def verifier : SlotVerifier where
  store := store
  tolerance := 0

/-- What is declared for a time in the key's slot. -/
def declared : SlotSeal where
  slot := 3
  epoch := 1
  turn := 1

def parent : Header := {}

/-- A header for a time in the key's slot. -/
def draft : Header where
  parentHash := parent.hash
  number := 1
  time := 115

def header : Header := { draft with extra := declared.encode }

def message : Bytes := (declared.preSealHash header).toList

theorem store_reachable : store.Reachable :=
  ⟨2, 10, 3, { store with epochs.entries := [] }, [⟨_, .insert 1 info⟩], rfl, rfl⟩

set_option maxRecDepth 100000 in
/-- The pairing is worked out here, and nowhere else. -/
theorem key_decode_verify : Signature.decode (key.sign message).encode = .ok (key.sign message) ∧
    (key.sign message).verify key.publicKey message = true := by
  decide +kernel

theorem key_signs : key.Signs message where
  readable := by rw [Signature.ofBytes, key_decode_verify.1]
  valid := key_decode_verify.2

def sealed : Header := declared.finished header (key.sign message).octets Octets.zero

theorem sealed_accepted : SlotVerifier.Accepted verifier sealed
    (declared.withSignature (key.sign message).octets) (key.sign message).octets info :=
  SlotVerifier.accepted_finished store_reachable.sound Octets.zero rfl rfl rfl (by decide)
    (by decide) rfl key_signs

end BlockSeal.Sample

namespace BlockSeal.SlotVerifier

/-- A sealed header is accepted against a store with its epoch. -/
theorem verify_accepts_sealed : Sample.store.Reachable ∧
    (Sample.verifier.verify Sample.sealed).1 = .ok () :=
  ⟨Sample.store_reachable, (verify_accepts_iff (v := Sample.verifier) Sample.store_reachable
    Sample.sealed).1.2 ⟨_, _, _, Sample.sealed_accepted⟩⟩

end BlockSeal.SlotVerifier
