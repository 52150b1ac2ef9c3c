import BlockSeal.Proofs.Pow.Datasets
import BlockSeal.Proofs.SlotSeal
import BlockSeal.SealVerifier

/-! # What a header is refused for

Verification, work and solutions are refused for what is in the header or in the solution, and never
because the engine is in a state that it should not be in.

* `Error.isInvalidState`: the refusals that are about the state.
* `SlotVerifier.isInvalidState_of_verify`, `PowVerifier.isInvalidState_of_verify`: both verifiers.
* `SealVerifier.isInvalidState_of_verify`, `isInvalidState_of_applySubmission`,
  `isInvalidState_of_workPackage`: all modes.
-/

set_option autoImplicit false

namespace BlockSeal

def Error.isInvalidState : Error → Bool
  | .invalidState _ => true
  | _ => false

variable {header : Header} {e : Error}

theorem eq_error_of_map {α β : Type} {r : Except Error α} {f : α → β} (h : r.map f = .error e) :
    r = .error e := by
  cases r with
  | ok a => cases h
  | error err =>
    cases h
    rfl

theorem Failure.lift_eq_refused_iff {α : Type} {r : Except Error α} :
    Failure.lift r = .error (.refused e) ↔ r = .error e := by
  cases r <;> simp [Failure.lift]

theorem isInvalidState_of_targetFor {difficulty : UInt64} (h : targetFor difficulty = .error e) :
    e.isInvalidState = false := by
  unfold targetFor at h
  split at h
  · cases h
    rfl
  · cases h

theorem SlotSeal.isInvalidState_of_decode {b : Bytes} (h : decode b = .error e) :
    e.isInvalidState = false := by
  obtain ⟨fault, rfl⟩ := malformed_of_decode h
  rfl

theorem EpochStore.isInvalidState_of_resolve {s : EpochStore} {time : UInt64}
    (h : (s.resolve time).1 = .error e) : e.isInvalidState = false := by
  unfold resolve at h
  split at h
  · cases h
    rfl
  · split at h
    · cases h
      rfl
    · cases h

namespace SlotVerifier

variable {v : SlotVerifier} {size tolerance : UInt64} {s : SlotSeal} {bytes : SignatureBytes}

theorem isInvalidState_of_checkTurn (h : checkTurn size s = .error e) :
    e.isInvalidState = false := by
  simp only [checkTurn] at h
  split at h
  · cases h
    rfl
  split at h
  · cases h
    rfl
  split at h
  · cases h
    rfl
  split at h
  · cases h
    rfl
  · cases h

theorem isInvalidState_of_readSeal (h : readSeal size header = .error e) :
    e.isInvalidState = false := by
  unfold readSeal at h
  split at h
  · rename_i hdecode
    cases h
    exact SlotSeal.isInvalidState_of_decode hdecode
  split at h
  · cases h
    rfl
  split at h
  · rename_i hturn
    cases h
    exact isInvalidState_of_checkTurn hturn
  · cases h

theorem isInvalidState_of_inspect {info : EpochInfo}
    (h : inspect tolerance header s bytes info = .error e) : e.isInvalidState = false := by
  simp only [inspect, Signature.ofBytes] at h
  split at h
  · cases h
    rfl
  split at h
  · cases h
    rfl
  split at h
  · cases h
    rfl
  split at h
  · rename_i hbytes
    cases h
    split at hbytes
    · cases hbytes
    · cases hbytes
      rfl
  split at h
  · cases h
  · cases h
    rfl

theorem isInvalidState_of_verify (h : (v.verify header).1 = .error e) :
    e.isInvalidState = false := by
  unfold verify at h
  split at h
  · rename_i hread
    cases h
    exact isInvalidState_of_readSeal hread
  split at h
  · rename_i s bytes _ err store hepoch
    cases h
    unfold epochFor at hepoch
    split at hepoch
    · cases hepoch
    · exact EpochStore.isInvalidState_of_resolve (congrArg Prod.fst hepoch)
  · exact isInvalidState_of_inspect h

end SlotVerifier

theorem PowVerifier.isInvalidState_of_verify {v : PowVerifier}
    (h : (v.verify header).1 = .error (.refused e)) : e.isInvalidState = false := by
  rw [verify_answer] at h
  split at h
  · rename_i htarget
    cases h
    exact isInvalidState_of_targetFor htarget
  split at h
  · cases h
  unfold judge at h
  split at h
  · cases h
    rfl
  split at h
  · cases h
    rfl
  · cases h

namespace SealVerifier

variable {v : SealVerifier}

theorem isInvalidState_of_verify (h : (v.verify header).1 = .error (.refused e)) :
    e.isInvalidState = false := by
  cases v with
  | pow v => exact PowVerifier.isInvalidState_of_verify h
  | slot v => exact SlotVerifier.isInvalidState_of_verify (Failure.lift_eq_refused_iff.1 h)
  | fake fail =>
    simp only [verify] at h
    split at h
    · cases h
      rfl
    · cases h
  | fullFake => cases h

theorem isInvalidState_of_applySubmission {submission : Submission}
    (h : v.applySubmission header submission = .error e) : e.isInvalidState = false := by
  cases v with
  | slot v =>
    simp only [applySubmission] at h
    split at h
    · cases h
      rfl
    · exact SlotSeal.isInvalidState_of_decode (eq_error_of_map h)
  | _ => cases h

theorem isInvalidState_of_workPackage (h : v.workPackage header = .error e) :
    e.isInvalidState = false := by
  have hcontents := eq_error_of_map h
  cases v with
  | slot v => cases hcontents
  | _ => exact isInvalidState_of_targetFor (eq_error_of_map hcontents)

end SealVerifier

end BlockSeal
