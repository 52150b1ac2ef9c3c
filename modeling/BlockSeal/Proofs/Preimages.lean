import BlockSeal.Proofs.Header
import BlockSeal.Proofs.SlotSeal

/-! # What the digests of a header commit to

A header is digested in three forms: whole, without mix digest and nonce, and, for a signature, with
its metadata written without the signature. What can be said of the digests themselves hangs on the
digest function; what stands under them is said here.

* `SlotSeal.encode_injective`: metadata is written in one way for one seal only.
* `SlotSeal.preimage_of_isSealed_eq_iff`: the bytes that a signature commits to tell the ten fields
  that are not part of the seal, and which slot is sealed.
* `preimages_commit`: what each of the three forms tells, and that the whole form is never taken for
  another one.
-/

set_option autoImplicit false

namespace BlockSeal

namespace SlotSeal

theorem encode_injective {s t : SlotSeal} (h : s.encode = t.encode) : s = t := by
  have hread := decode_encode s
  rw [h, decode_encode t, Except.ok.injEq] at hread
  exact hread.symm

theorem unsealed_eq_iff {s t : SlotSeal} :
    s.unsealed = t.unsealed ↔ s.slot = t.slot ∧ s.epoch = t.epoch ∧ s.turn = t.turn := by
  simp only [unsealed, mk.injEq, and_true]

theorem preimage_of_isSealed_eq_iff {a b : Header} {s t : SlotSeal} (hs : s.isSealed = true)
    (ht : t.isSealed = true) :
    s.preimage a = t.preimage b ↔
      a = { b with extra := a.extra, mixDigest := a.mixDigest, nonce := a.nonce } ∧
        s.unsealed = t.unsealed := by
  rw [preimage, preimage, if_pos hs, if_pos ht, Header.encodeUnsealed_eq_iff]
  constructor
  · intro h
    have hmetadata := congrArg Header.extra h
    have hfields := congrArg (fun header => { header with extra := a.extra }) h
    exact ⟨hfields, encode_injective hmetadata⟩
  · rintro ⟨hfields, hmetadata⟩
    have hsame := congrArg (fun header => { header with extra := t.unsealed.encode }) hfields
    rw [hmetadata]
    exact hsame

end SlotSeal

/-- **What is committed to.** Headers are the same if their wire forms are; they are the same but for
mix digest and nonce exactly if their forms without these are; and no header's wire form is another
header's form without them. The bytes that signatures are made over are the same exactly if the
headers are the same but for `extra`, mix digest and nonce, and the seals are for the same slot, epoch
and turn. All this holds whatever the length of `extra`. -/
theorem preimages_commit :
    (∀ a b : Header, a.encode = b.encode ↔ a = b) ∧
    (∀ a b : Header, a.encodeUnsealed = b.encodeUnsealed ↔
      a = { b with mixDigest := a.mixDigest, nonce := a.nonce }) ∧
    (∀ a b : Header, a.encode ≠ b.encodeUnsealed) ∧
    ∀ (a b : Header) (s t : SlotSeal), s.isSealed = true → t.isSealed = true →
      (s.preimage a = t.preimage b ↔
        a = { b with extra := a.extra, mixDigest := a.mixDigest, nonce := a.nonce } ∧
          s.slot = t.slot ∧ s.epoch = t.epoch ∧ s.turn = t.turn) := by
  refine ⟨fun a b => ⟨Header.encode_injective, congrArg Header.encode⟩,
    fun a b => Header.encodeUnsealed_eq_iff, Header.encode_ne_encodeUnsealed, ?_⟩
  intro a b s t hs ht
  rw [SlotSeal.preimage_of_isSealed_eq_iff hs ht, SlotSeal.unsealed_eq_iff]

namespace Sample

/-- A seal of slot 6 for the given turn of epoch 1, signed with so many equal bytes. -/
def signedBy (turn : UInt64) (byte : UInt8) : SlotSeal where
  slot := 6
  epoch := 1
  turn := turn
  signature := some (Octets.replicate 96 byte)

end Sample

/-- Signed anew, with other bytes in the seal's own fields, a header has the same bytes to be signed;
for another turn it has not. -/
theorem preimage_signedBy :
    (Sample.signedBy 2 7).preimage { number := 3, nonce := Octets.replicate 8 1 } =
      (Sample.signedBy 2 9).preimage { number := 3, extra := [0x80] } ∧
    (Sample.signedBy 2 7).preimage { number := 3 } ≠ (Sample.signedBy 1 7).preimage { number := 3 } := by
  obtain ⟨-, -, -, hsigned⟩ := preimages_commit
  refine ⟨(hsigned _ _ _ _ rfl rfl).2 ⟨rfl, rfl, rfl, rfl⟩, fun h => ?_⟩
  have hturn : (2 : UInt64) = 1 := ((hsigned _ _ _ _ rfl rfl).1 h).2.2.2
  exact absurd hturn (by decide)

end BlockSeal
