import BlockSeal.Proofs.Acceptance
import BlockSeal.Proofs.Engine.Run
import BlockSeal.Proofs.Hex

/-! # A slot is sealed from end to end

* `Assigned`: the validator of the slot that a header's time falls into, with the validator's key.
* `prepare_assigned`, `pushBlock_slot`, `submit_slot`: what the three steps of sealing do to a header
  in slot mode: the metadata goes in, the block is handed to the workers, the signature comes back.
* `submitSignature_delivers`: when nothing but quiet calls comes in between, the validator's
  signature of the work is accepted, one block is delivered, and its header is accepted too.
-/

set_option autoImplicit false

namespace BlockSeal

/-! ## Signatures as text -/

/-- A signature that is handed in as text arrives as its bytes. -/
theorem Engine.signatureOfText?_text (s : Signature) :
    signatureOfText? (Hex.text s.encode) = some s.octets := by
  unfold signatureOfText?
  rw [Hex.decode_text]
  exact Octets.ofList?_toList s.octets

/-- The solution that a signature is sent in with. -/
def Submission.signed (nonce : Nonce) (sealHash : Hash) (signature : SignatureBytes) : Submission where
  nonce := nonce
  mixDigest := SignatureBytes.commitment signature
  sealHash := sealHash
  signature := some signature

/-! ## The slot of a header -/

namespace SlotVerifier

/-- The epoch and the turn of the slot that the header's time falls into, with a slot number that
is no larger than the largest word, and the key of the validator whose slot it is. -/
structure Assigned (v : SlotVerifier) (header : Header) (info : EpochInfo) (turn : UInt64)
    (key : SecretKey) : Prop where
  resolved : (v.store.resolve header.time).1 = .ok info
  turnAt : info.turnAt header.time = some turn
  fits : info.epoch.toNat * v.store.validatorSetSize.toNat + turn.toNat ≤ UInt64.size - 1
  validator : info.validator turn = some key.publicKey

def slotOf (v : SlotVerifier) (info : EpochInfo) (turn : UInt64) : SlotSeal where
  slot := (info.epoch.mulCapped v.store.validatorSetSize).addCapped turn
  epoch := info.epoch
  turn := turn

/-- The verifier after the epoch of a time has been looked up. -/
def resolving (v : SlotVerifier) (time : UInt64) : SlotVerifier :=
  { v with store := (v.store.resolve time).2 }

theorem sound_resolving {v : SlotVerifier} (hv : v.store.Sound) (time : UInt64) :
    (v.resolving time).store.Sound := hv.run [⟨_, .resolve time⟩]

theorem validatorSetSize_resolving {v : SlotVerifier} (hv : v.store.Sound) (time : UInt64) :
    (v.resolving time).store.validatorSetSize = v.store.validatorSetSize :=
  EpochStore.validatorSetSize_run hv [⟨_, .resolve time⟩]

theorem prepare_assigned {v : SlotVerifier} (hv : v.store.Sound) {header : Header}
    {info : EpochInfo} {turn : UInt64} {key : SecretKey} (h : v.Assigned header info turn key) :
    v.prepare header = (.ok (v.slotOf info turn,
      { header with extra := (v.slotOf info turn).encode }), v.resolving header.time) := by
  have hsize : (v.store.resolve header.time).2.validatorSetSize = v.store.validatorSetSize :=
    validatorSetSize_resolving hv header.time
  have hresolved := h.resolved
  unfold prepare resolving slotOf
  cases hr : v.store.resolve header.time with
  | mk result store =>
    rw [hr] at hresolved hsize
    change result = .ok info at hresolved
    rw [hresolved]
    simp only [h.turnAt]
    rw [hsize]

theorem toNat_slotOf {v : SlotVerifier} {header : Header} {info : EpochInfo} {turn : UInt64}
    {key : SecretKey} (h : v.Assigned header info turn key) : (v.slotOf info turn).slot.toNat =
      min (info.epoch.toNat * v.store.validatorSetSize.toNat) (UInt64.size - 1) + turn.toNat := by
  have hfits := h.fits
  simp only [slotOf, UInt64.toNat_addCapped, UInt64.toNat_mulCapped]
  omega

end SlotVerifier

/-! ## The seal hash in slot mode -/

theorem SealVerifier.sealHash_slot {v : SlotVerifier} {header : Header} {s : SlotSeal}
    (h : header.extra = s.encode) : (slot v).sealHash header = s.preSealHash header := by
  simp only [sealHash, sealPreimage, h, SlotSeal.decode_encode]
  rfl

/-! ## The steps in slot mode -/

namespace Sealer

/-- A block that is pushed becomes the candidate, and the work names what its seal commits to. -/
theorem pushWork_slot {s : Sealer} {v : SlotVerifier} (hv : s.verifier = .slot v) (block : Block)
    (sink : SinkName) : ∃ work s', s.pushWork block sink = (.ok work, s') ∧
      work.sealHash = (SealVerifier.slot v).sealHash block.header ∧
      s'.verifier = s.verifier ∧ s'.current = some { block := block, work := work } ∧
      s'.results = some sink ∧ s'.sinks = s.sinks := by
  simp only [pushWork, hv, SealVerifier.workPackage, SealVerifier.workContents, Except.map]
  exact ⟨_, _, rfl, rfl, rfl, rfl, rfl, rfl⟩

theorem submit_slot {s : Sealer} {v : SlotVerifier} {c : Candidate} {sealHash : Hash}
    {signature : SignatureBytes} {nonce : Nonce} {metadata : SlotSeal} {sink : SinkName}
    {queue : Queue Block} (hv : s.verifier = .slot v) (hcurrent : s.current = some c)
    (hhash : sealHash = c.work.sealHash) (hextra : c.block.header.extra = metadata.encode)
    (hverify : v.verify (metadata.finished c.block.header signature nonce) = (.ok (), v))
    (hresults : s.results = some sink) (hsink : s.sink? sink = some queue)
    (hread : queue.isRead = true) (hroom : queue.waiting.length < queue.capacity) :
    s.submit (.signed nonce sealHash signature) = (.ok (), s.setSink sink { queue with
      waiting := queue.waiting ++
        [c.block.withSeal (metadata.finished c.block.header signature nonce)] }) := by
  have happlied : (SealVerifier.slot v).applySubmission c.block.header
      (.signed nonce sealHash signature) = .ok (metadata.finished c.block.header signature nonce) := by
    simp only [SealVerifier.applySubmission, Submission.signed, hextra, SlotSeal.decode_encode,
      Except.map, SlotSeal.finished]
  have hverified : (SealVerifier.slot v).verify
      (metadata.finished c.block.header signature nonce) = (.ok (), .slot v) := by
    simp only [SealVerifier.verify, hverify]
    rfl
  have hissued : (Submission.signed nonce sealHash signature).sealHash = c.work.sealHash := hhash
  rw [submit_of_verified hcurrent hissued (by rw [hv, happlied]) (by rw [hv, hverified]) hresults
    hsink hread hroom, hv, hverified, ← hv]

end Sealer

namespace Engine

theorem prepare_slot {e e' : Engine} {v : SlotVerifier} {chain : Chain} {header prepared : Header}
    {s : SlotSeal} {v' : SlotVerifier} (hv : e.verifier = .slot v)
    (hprepare : v.prepare header = (.ok (s, prepared), v'))
    {answer : Header} (h : e.prepare chain header = (.ok answer, e')) :
    answer = prepared ∧ e' = e.withVerifier (.slot v') := by
  unfold prepare at h
  split at h
  · cases h
  simp only [hv, hprepare, Prod.mk.injEq, Except.ok.injEq] at h
  exact ⟨h.1.symm, h.2.symm⟩

theorem pushBlock_slot {e e' : Engine} {v : SlotVerifier} {block : Block} {sink : SinkName}
    {work : WorkPackage} (hv : e.verifier = .slot v)
    (h : e.pushBlock block sink = (.ok work, e')) :
    work.sealHash = (SealVerifier.slot v).sealHash block.header ∧ e'.config = e.config ∧
      e'.verifier = e.verifier ∧
      e'.coordinator.sealer.current = some { block := block, work := work } ∧
      e'.coordinator.sealer.results = some sink ∧
      e'.coordinator.sealer.sinks = e.coordinator.sealer.sinks := by
  obtain ⟨issued, s', hpush, hhash, hverifier, hcurrent, hresults, hsinks⟩ :=
    Sealer.pushWork_slot (s := e.coordinator.sealer) hv block sink
  by_cases henabled : e.config.remoteEnabled = true
  · rw [pushBlock, withRemote_of_enabled henabled] at h
    simp only [Coordinator.pushWork, Coordinator.request, Sealer.handle, hpush, Failure.lift] at h
    split at h
    · cases h
    · cases h
      exact ⟨hhash, rfl, hverifier, hcurrent, hresults, hsinks⟩
  · rw [pushBlock, withRemote, remote, if_neg henabled] at h
    cases h

theorem submitSignature_of_submit {e : Engine} {s : Sealer} {nonce : Nonce} {sealHash : Hash}
    {signature : Signature} (henabled : e.config.remoteEnabled = true)
    (hopen : e.coordinator.isClosed = false)
    (hsubmit : e.coordinator.sealer.submit (.signed nonce sealHash signature.octets) =
      (.ok (), s)) :
    e.submitSignature nonce sealHash (Hex.text signature.encode) =
      (.accepted, { e with coordinator := { e.coordinator with sealer := s } }) := by
  have hremote := remote_eq_ok_iff.2 ⟨henabled, rfl⟩
  have hrequest : e.coordinator.request (.submitWork (.signed nonce sealHash signature.octets)) =
      (.ok (), { e.coordinator with sealer := s }) := by
    simp only [Coordinator.request, hopen, Bool.false_eq_true, if_false, Sealer.handle, hsubmit]
  simp only [submitSignature, hremote, signatureOfText?_text]
  change e.submitSolution (.signed nonce sealHash signature.octets) = _
  simp only [submitSolution, hremote, Coordinator.submitSeal, hrequest]

/-- The candidate of an engine in slot mode, with the signature that the slot's validator makes of
it: the solution is accepted, and the candidate is delivered with an acceptable header. -/
theorem submitSignature_candidate {e : Engine} {v : SlotVerifier} {c : Candidate}
    {declared : SlotSeal} {info : EpochInfo} {key : SecretKey} {sink : SinkName}
    {queue : Queue Block} (henabled : e.config.remoteEnabled = true)
    (hopen : e.coordinator.isClosed = false) (hv : e.verifier = .slot v) (hsound : v.store.Sound)
    (hcurrent : e.coordinator.sealer.current = some c)
    (hresults : e.coordinator.sealer.results = some sink)
    (hsink : e.coordinator.sealer.sink? sink = some queue) (hread : queue.isRead = true)
    (hroom : queue.waiting.length < queue.capacity)
    (hunsigned : declared.signature = none) (hextra : c.block.header.extra = declared.encode)
    (hhash : c.work.sealHash = declared.preSealHash c.block.header)
    (hpeek : v.store.peek declared.epoch = some info)
    (hslot : declared.slot.toNat =
      min (declared.epoch.toNat * v.store.validatorSetSize.toNat) (UInt64.size - 1) +
        declared.turn.toNat)
    (htime : info.turnAt c.block.header.time = some declared.turn)
    (hkey : info.validator declared.turn = some key.publicKey)
    (hsigns : key.Signs c.work.sealHash.toList) (nonce : Nonce) :
    ∃ (signature : SignatureBytes) (e' : Engine),
      e.submitSignature nonce c.work.sealHash
        (Hex.text (key.sign c.work.sealHash.toList).encode) = (.accepted, e') ∧
      e'.coordinator.sealer = e.coordinator.sealer.setSink sink { queue with
        waiting := queue.waiting ++
          [c.block.withSeal (declared.finished c.block.header signature nonce)] } ∧
      (e'.verifySeal (declared.finished c.block.header signature nonce)).1 = .ok () ∧
      e'.sealHash (declared.finished c.block.header signature nonce) = c.work.sealHash := by
  rw [hhash] at hsigns ⊢
  have haccepted := SlotVerifier.accepted_finished hsound nonce hunsigned hextra hpeek hslot htime
    hkey hsigns
  have hverify := SlotVerifier.verify_of_accepted hsound haccepted
  have hsubmit := Sealer.submit_slot hv hcurrent hhash.symm hextra hverify hresults hsink hread hroom
  have haccept := submitSignature_of_submit henabled hopen hsubmit
  refine ⟨_, _, haccept, rfl, ?_, ?_⟩
  · change (e.verifier.verify _).1 = .ok ()
    rw [hv]
    simp only [SealVerifier.verify, hverify]
    rfl
  · change e.verifier.sealHash _ = _
    rw [hv, SealVerifier.sealHash_slot (s := declared.withSignature _) rfl,
      SlotSeal.preSealHash_finished hunsigned hextra]

/-- **Sealing from end to end.** A header is made ready in slot mode and its block handed to the
workers; then come calls that push no other block and no accepted solution. If the engine is not
closed, still has the epoch, and the sink has room, then the validator of the slot, who reads the
message off the work and sends back a signature of it, is accepted with any nonce: one block is
delivered, to the sink, with the same transactions. Its header is accepted, has the message for its
seal hash, and is the prepared one but for metadata, mix digest and nonce. -/
theorem submitSignature_delivers {e e₁ e₂ : Engine} {v : SlotVerifier} {chain : Chain}
    {header prepared : Header} {info : EpochInfo} {turn : UInt64} {key : SecretKey}
    {transactions : List Bytes} {sink : SinkName} {work : WorkPackage}
    {calls : List (Σ α : Type, Call α)} {store : EpochStore} {queue : Queue Block} {message : Hash}
    (henabled : e.config.remoteEnabled = true)
    (hv : e.verifier = .slot v) (hreachable : v.store.Reachable)
    (hassigned : v.Assigned header info turn key)
    (hprepare : e.prepare chain header = (.ok prepared, e₁))
    (hpush : e₁.pushBlock { header := prepared, transactions := transactions } sink =
      (.ok work, e₂))
    (hquiet : Quiet calls e₂)
    (hopen : (run calls e₂).coordinator.isClosed = false)
    (hstore : (run calls e₂).store = .ok store) (hstill : store.peek info.epoch = some info)
    (hsink : e₂.coordinator.sealer.sink? sink = some queue) (hread : queue.isRead = true)
    (hroom : queue.waiting.length < queue.capacity)
    (hmessage : work.strings.head?.map Hex.decode = some (.ok message.toList))
    (hsigns : key.Signs message.toList) (nonce : Nonce) :
    ∃ (delivered : Block) (e₃ : Engine),
      (run calls e₂).submitSignature nonce message
        (Hex.text (key.sign message.toList).encode) = (.accepted, e₃) ∧
      e₃.coordinator.sealer.sink? sink =
        some { queue with waiting := queue.waiting ++ [delivered] } ∧
      (∀ other, other ≠ sink →
        e₃.coordinator.sealer.sink? other = e₂.coordinator.sealer.sink? other) ∧
      (e₃.verifySeal delivered.header).1 = .ok () ∧
      e₃.sealHash delivered.header = message ∧
      delivered.transactions = transactions ∧
      delivered.header = { prepared with
        extra := delivered.header.extra
        mixDigest := delivered.header.mixDigest
        nonce := nonce } := by
  have hsound := hreachable.sound
  -- The header and the block go in, and the quiet calls keep them there.
  obtain ⟨hprepared, rfl⟩ :=
    prepare_slot hv (SlotVerifier.prepare_assigned hsound hassigned) hprepare
  obtain ⟨hhash, hconfig, hverifier, hcurrent, hresults, -⟩ :=
    pushBlock_slot (v := v.resolving header.time) rfl hpush
  have hkeeps := hquiet.keeps
  obtain ⟨storeCalls, hv₃⟩ := hkeeps.sealer.verifier (v.resolving header.time) hverifier
  have hextra : prepared.extra = (v.slotOf info turn).encode := by rw [hprepared]
  have htime : prepared.time = header.time := by rw [hprepared]
  have hunsigned : (v.slotOf info turn).signature = none := rfl
  -- The store after all calls is sound, has the same sizes, and still has the epoch.
  have hresolved := SlotVerifier.sound_resolving hsound header.time
  have hsound₃ := hresolved.run storeCalls
  have hsize₃ := (EpochStore.validatorSetSize_run hresolved storeCalls).trans
    (SlotVerifier.validatorSetSize_resolving hsound header.time)
  have hpeek : (EpochStore.run storeCalls (v.resolving header.time).store).peek info.epoch =
      some info := by
    simp only [Engine.store, verifier, hv₃, SealVerifier.store?, Except.ok.injEq] at hstore
    rw [hstore]
    exact hstill
  -- The message is the seal hash of the work.
  have hmessage' : message = work.sealHash := by
    simp only [WorkPackage.strings, List.head?_cons, Option.map_some, Hex.decode_text,
      Option.some.injEq, Except.ok.injEq] at hmessage
    exact (Octets.ext hmessage).symm
  subst hmessage'
  have hsink₃ : (run calls e₂).coordinator.sealer.sink? sink = some queue := by
    rw [← hsink]
    simp only [Sealer.sink?, hkeeps.sealer.sinks]
  obtain ⟨signature, e₃, haccepted, hsealer, hverified, hsealHash⟩ :=
    submitSignature_candidate (by rw [hkeeps.config, hconfig]; exact henabled) hopen hv₃ hsound₃
      (hkeeps.sealer.current.trans hcurrent) (hkeeps.sealer.results.trans hresults)
      hsink₃ hread hroom hunsigned hextra (hhash.trans (SealVerifier.sealHash_slot hextra))
      hpeek (by rw [hsize₃]; exact SlotVerifier.toNat_slotOf hassigned)
      (by rw [htime]; exact hassigned.turnAt) hassigned.validator hsigns nonce
  refine ⟨Block.withSeal { header := prepared, transactions := transactions }
      ((v.slotOf info turn).finished prepared signature nonce),
    e₃, haccepted, ?_, fun other hother => ?_, hverified, hsealHash, rfl, rfl⟩
  · rw [hsealer, Sealer.sink?_setSink_self hsink₃]
  · rw [hsealer, Sealer.sink?_setSink_ne hother]
    simp only [Sealer.sink?, hkeeps.sealer.sinks]

end Engine

end BlockSeal

/-! ## A slot that is sealed -/

namespace BlockSeal.Sample

/-- An engine with the verifier, and a sink for one block. -/
def engine : Engine where
  config := {
    mode := .slot, validatorSetSize := 2, slotDuration := 10, slotTolerance := 0
    epochCacheCapacity := 3 }
  coordinator := { sealer := {
    verifier := .slot verifier
    hashRate := { maxWorkers := 1024, window := 10 }
    staleThreshold := 7
    sinks := [("blocks", { capacity := 1 })] } }

/-- The engine with the block of the header for its candidate. -/
def handedIn : Except Error WorkPackage × Engine :=
  (engine.withVerifier (.slot (verifier.resolving 115))).pushBlock { header := header } "blocks"

/-- A worker looks at the work, reports a rate, and sends a text that is no signature. -/
def calls : List (Σ α : Type, Engine.Call α) := [
  ⟨_, .getWork⟩,
  ⟨_, .submitHashRate Octets.zero 1⟩,
  ⟨_, .submitSignature Octets.zero Octets.zero "0x0102"⟩]

theorem assigned : verifier.Assigned draft info 1 key where
  resolved := rfl
  turnAt := by decide
  fits := by decide
  validator := rfl

theorem engine_prepare : engine.prepare [parent] draft =
    (.ok header, engine.withVerifier (.slot (verifier.resolving 115))) := by
  have hparent : Chain.header? [parent] draft.parentHash (draft.number - 1) = some parent := by
    have hnumber : parent.number = draft.number - 1 := by decide
    simp only [Chain.header?, List.find?_cons, hnumber]
    simp [draft]
  have hprepare := SlotVerifier.prepare_assigned store_reachable.sound assigned
  have hslot : verifier.slotOf info 1 = declared := by decide
  have hnumber : draft.number ≠ 0 := by decide
  unfold Engine.prepare
  rw [hparent]
  have hv : engine.verifier = .slot verifier := rfl
  simp only [hnumber, hv, Option.isNone_some, Bool.false_eq_true, or_self, if_false]
  rw [hprepare, hslot]
  rfl

theorem quiet_calls : Engine.Quiet calls handedIn.2 := by
  refine ⟨trivial, trivial, ?_, trivial⟩
  have hmalformed : Engine.signatureOfText? "0x0102" = none := by decide
  simp only [Engine.perform, Engine.Call.IsQuiet, Engine.submitSignature, hmalformed]
  split <;> simp

end BlockSeal.Sample

namespace BlockSeal.Engine

/-- One block is delivered for the key's signature, and its header is accepted. -/
theorem sample_delivers : ∃ (delivered : Block) (e : Engine),
    (run Sample.calls Sample.handedIn.2).submitSignature Octets.zero
      (Sample.declared.preSealHash Sample.header)
      (Hex.text (Sample.key.sign Sample.message).encode) = (.accepted, e) ∧
    e.coordinator.sealer.sink? "blocks" = some { capacity := 1, waiting := [delivered] } ∧
    (e.verifySeal delivered.header).1 = .ok () := by
  obtain ⟨work, hwork⟩ : ∃ work, Sample.handedIn.1 = .ok work := ⟨_, rfl⟩
  have hpush : (Sample.engine.withVerifier (.slot (Sample.verifier.resolving 115))).pushBlock
      { header := Sample.header } "blocks" = (.ok work, Sample.handedIn.2) := by
    rw [← hwork]
    rfl
  have hhash : work.sealHash = Sample.declared.preSealHash Sample.header :=
    (pushBlock_slot (v := Sample.verifier.resolving 115) rfl hpush).1.trans
      (SealVerifier.sealHash_slot rfl)
  have hmessage : work.strings.head?.map Hex.decode =
      some (.ok (Sample.declared.preSealHash Sample.header).toList) := by
    simp only [WorkPackage.strings, List.head?_cons, Option.map_some, Hex.decode_text, hhash]
  obtain ⟨delivered, e, haccepted, hsink, -, hverified, -⟩ :=
    submitSignature_delivers (e := Sample.engine) (v := Sample.verifier) rfl rfl
      Sample.store_reachable Sample.assigned Sample.engine_prepare hpush Sample.quiet_calls rfl rfl
      (by rfl) rfl rfl (by decide) hmessage Sample.key_signs Octets.zero
  exact ⟨delivered, e, haccepted, hsink, hverified⟩

end BlockSeal.Engine
