import BlockSeal.Proofs.Header
import BlockSeal.Proofs.SlotSeal
import BlockSeal.SealVerifier

/-! # The seal hash before and after sealing

A worker commits to the seal hash of the header it is given, and the sealed header is checked
against its own. Both are digests of the same bytes, but for one kind of header: sealing writes the
metadata anew, and metadata that is read without being the written form becomes other bytes.

* `applySubmission_slot_eq_ok_iff`, `applySubmission_of_ne_slot`: what a solution makes of a header.
* `SealVerifier.Respells`: the headers whose unsigned metadata is not in its written form.
* `SlotSeal.preimage_eq_iff`: when the signed bytes are those of the metadata written anew.
* `applySubmission_sealPreimage_iff`: sealing keeps the bytes under the seal hash exactly for the
  headers that are not respelled.
* `sealHash_stray_ne`: a header whose seal hash is another one after sealing.
-/

set_option autoImplicit false

namespace BlockSeal

namespace SlotSeal

/-- The signed bytes are those with the metadata written anew, unless it is unsigned and not in its
written form. -/
theorem preimage_eq_iff {header : Header} {s : SlotSeal} :
    { header with extra := s.unsealed.encode }.encodeUnsealed = s.preimage header ↔
      (s.signature = none → header.extra = s.encode) := by
  obtain ⟨slot, epoch, turn, signature⟩ := s
  cases signature with
  | some signature =>
    constructor
    · intro _ hnone
      cases hnone
    · intro _
      rfl
  | none =>
    have hpreimage : preimage header ⟨slot, epoch, turn, none⟩ = header.encodeUnsealed := rfl
    rw [hpreimage]
    constructor
    · intro h _
      have hsame := congrArg Header.extra (Header.encodeUnsealed_eq_iff.1 h.symm)
      exact hsame
    · intro h
      have hextra : header.extra = encode ⟨slot, epoch, turn, none⟩ := h rfl
      change Header.encodeUnsealed { header with extra := encode ⟨slot, epoch, turn, none⟩ } = _
      rw [← hextra]

end SlotSeal

namespace SealVerifier

variable {v : SealVerifier} {w : SlotVerifier} {header sealed : Header} {submission : Submission}
  {s : SlotSeal}

/-! ## What a solution makes of a header -/

theorem applySubmission_slot_eq_ok_iff :
    (slot w).applySubmission header submission = .ok sealed ↔
      ∃ signature s, submission.signature = some signature ∧
        SlotSeal.decode header.extra = .ok s ∧
        sealed = s.finished header signature submission.nonce := by
  unfold applySubmission
  cases submission.signature with
  | none => simp
  | some signature =>
    cases SlotSeal.decode header.extra with
    | error e => simp [Except.map]
    | ok s => simp [Except.map, SlotSeal.finished, eq_comm]

theorem applySubmission_of_ne_slot (hv : ∀ w, v ≠ slot w) :
    v.applySubmission header submission =
      .ok { header with nonce := submission.nonce, mixDigest := submission.mixDigest } := by
  cases v with
  | slot w => exact absurd rfl (hv w)
  | _ => rfl

/-! ## The bytes under the seal hash -/

/-- The header's metadata is read as an unsigned seal, but it is not the seal's written form. -/
def Respells (v : SealVerifier) (header : Header) : Prop :=
  ∃ w s, v = slot w ∧ SlotSeal.decode header.extra = .ok s ∧ s.signature = none ∧
    header.extra ≠ s.encode

theorem not_respells_iff (hdecode : SlotSeal.decode header.extra = .ok s) :
    ¬ (slot w).Respells header ↔ (s.signature = none → header.extra = s.encode) := by
  constructor
  · intro h hnone
    by_contra hne
    exact h ⟨w, s, rfl, hdecode, hnone, hne⟩
  · intro h hrespells
    obtain ⟨_, s', _, hdecode', hnone, hne⟩ := hrespells
    rw [hdecode, Except.ok.injEq] at hdecode'
    subst hdecode'
    exact hne (h hnone)

theorem sealPreimage_of_ne_slot (hv : ∀ w, v ≠ slot w) :
    v.sealPreimage header = header.encodeUnsealed := by
  cases v with
  | slot w => exact absurd rfl (hv w)
  | _ => rfl

theorem sealPreimage_slot (hdecode : SlotSeal.decode header.extra = .ok s) :
    (slot w).sealPreimage header = s.preimage header := by
  simp only [sealPreimage, hdecode]

/-- A sealed header has the bytes of the header whose metadata is written anew. -/
theorem preimage_finished (header : Header) (s : SlotSeal) (signature : SignatureBytes)
    (nonce : Nonce) :
    (s.unsealed.withSignature signature).preimage (s.finished header signature nonce) =
      { header with extra := s.unsealed.encode }.encodeUnsealed := by
  have hsealed : (s.unsealed.withSignature signature).isSealed = true := rfl
  have hunsealed : (s.unsealed.withSignature signature).unsealed = s.unsealed := rfl
  rw [SlotSeal.preimage, if_pos hsealed, hunsealed]
  simp only [Header.encodeUnsealed, Header.unsealedItems, SlotSeal.finished, SlotSeal.applied]

theorem decode_extra_finished (header : Header) (s : SlotSeal) (signature : SignatureBytes)
    (nonce : Nonce) :
    SlotSeal.decode (s.finished header signature nonce).extra =
      .ok (s.unsealed.withSignature signature) :=
  SlotSeal.decode_encode _

theorem sealHash_of_workPackage {work : WorkPackage} (h : v.workPackage header = .ok work) :
    work.sealHash = v.sealHash header := by
  unfold workPackage at h
  cases hcontents : v.workContents header with
  | error e =>
    rw [hcontents] at h
    cases h
  | ok contents =>
    rw [hcontents] at h
    cases h
    rfl

theorem sealPreimage_eq_iff_of_applySubmission
    (happlied : v.applySubmission header submission = .ok sealed) :
    v.sealPreimage sealed = v.sealPreimage header ↔ ¬ v.Respells header := by
  by_cases hv : ∀ w, v ≠ slot w
  · have hsealed : v.applySubmission header submission = _ := applySubmission_of_ne_slot hv
    rw [happlied, Except.ok.injEq] at hsealed
    rw [sealPreimage_of_ne_slot hv, sealPreimage_of_ne_slot hv, hsealed]
    refine iff_of_true rfl ?_
    intro hrespells
    obtain ⟨w, _, hw, _⟩ := hrespells
    exact hv w hw
  · simp only [not_forall, ne_eq, not_not] at hv
    obtain ⟨w, rfl⟩ := hv
    obtain ⟨signature, s, _, hdecode, rfl⟩ := applySubmission_slot_eq_ok_iff.1 happlied
    rw [sealPreimage_slot hdecode, sealPreimage_slot (decode_extra_finished ..), preimage_finished,
      not_respells_iff hdecode, SlotSeal.preimage_eq_iff]

/-- **The seal hash of a sealed header.** Sealing keeps the bytes under the seal hash exactly when
the header's metadata is not respelled, and then it keeps the hash. In slot mode the seal of the
sealed header carries the signature that was handed in, which is checked over the digest of just
these bytes; so, but for respelled metadata, it is checked over the seal hash that the work named. -/
theorem applySubmission_sealPreimage_iff
    (happlied : v.applySubmission header submission = .ok sealed) :
    (v.sealPreimage sealed = v.sealPreimage header ↔ ¬ v.Respells header) ∧
    (¬ v.Respells header → v.sealHash sealed = v.sealHash header) ∧
    ∀ w work, v = slot w → v.workPackage header = .ok work →
      ∃ s, SlotSeal.decode sealed.extra = .ok s ∧ s.signature = submission.signature ∧
        s.signature.isSome = true ∧ s.preimage sealed = v.sealPreimage sealed ∧
        (¬ v.Respells header → s.preSealHash sealed = work.sealHash) := by
  have hpreimage := sealPreimage_eq_iff_of_applySubmission happlied
  have hhash : ¬ v.Respells header → v.sealHash sealed = v.sealHash header := by
    intro h
    rw [sealHash, sealHash, hpreimage.2 h]
  refine ⟨hpreimage, hhash, ?_⟩
  intro w work hw hwork
  subst hw
  obtain ⟨signature, s, hsignature, _, rfl⟩ := applySubmission_slot_eq_ok_iff.1 happlied
  have hdecode := decode_extra_finished header s signature submission.nonce
  have hsealed := sealPreimage_slot (w := w) hdecode
  refine ⟨_, hdecode, hsignature.symm, rfl, hsealed.symm, ?_⟩
  intro h
  rw [sealHash_of_workPackage hwork, ← hhash h, SlotSeal.preSealHash, sealHash, hsealed]

end SealVerifier

/-! ## A header that is respelled -/

namespace Sample

def slotMode : SealVerifier := .slot {
  store := { validatorSetSize := 4, slotDuration := 10, epochs := { capacity := 1 } }
  tolerance := 0 }

/-- A solution whose signature is never looked at. -/
def blank : Submission where
  nonce := Octets.zero
  mixDigest := Octets.zero
  sealHash := Octets.zero
  signature := some Octets.zero

def metadata : SlotSeal := { slot := 1, epoch := 2, turn := 3 }

/-- The metadata with a byte behind it that is no item. -/
def strayed : Header := { number := 3, extra := [0xc4, 1, 2, 3, 0x81] }

/-- The metadata in its written form. -/
def written : Header := { strayed with extra := metadata.encode }

def filled (header : Header) : Header := metadata.finished header Octets.zero Octets.zero

end Sample

namespace SealVerifier

/-- Of two headers that hold the same metadata, sealing changes the bytes under the seal hash of
the one that is respelled. -/
theorem strayed_sealPreimage_ne :
    Sample.slotMode.applySubmission Sample.written Sample.blank = .ok (Sample.filled Sample.written) ∧
    Sample.slotMode.sealHash (Sample.filled Sample.written) = Sample.slotMode.sealHash Sample.written ∧
    Sample.slotMode.applySubmission Sample.strayed Sample.blank = .ok (Sample.filled Sample.strayed) ∧
    Sample.slotMode.sealPreimage (Sample.filled Sample.strayed) ≠ Sample.slotMode.sealPreimage Sample.strayed := by
  have hdecode : SlotSeal.decode Sample.written.extra = .ok Sample.metadata :=
    SlotSeal.decode_encode _
  have hwritten : Sample.slotMode.applySubmission Sample.written Sample.blank =
      .ok (Sample.filled Sample.written) :=
    applySubmission_slot_eq_ok_iff.2 ⟨_, _, rfl, hdecode, rfl⟩
  have hstrayed : Sample.slotMode.applySubmission Sample.strayed Sample.blank =
      .ok (Sample.filled Sample.strayed) := rfl
  refine ⟨hwritten, (applySubmission_sealPreimage_iff hwritten).2.1 ?_, hstrayed, ?_⟩
  · exact (not_respells_iff hdecode).2 fun _ => rfl
  · intro heq
    exact (applySubmission_sealPreimage_iff hstrayed).1.1 heq ⟨_, _, rfl, rfl, rfl, by decide⟩

/-- The seal hash of the respelled header is another one after sealing. -/
theorem sealHash_stray_ne :
    Sample.slotMode.applySubmission Sample.strayed Sample.blank = .ok (Sample.filled Sample.strayed) ∧
    Sample.slotMode.sealHash (Sample.filled Sample.strayed) ≠ Sample.slotMode.sealHash Sample.strayed := by
  constructor
  · rfl
  · decide +kernel

end SealVerifier

end BlockSeal
