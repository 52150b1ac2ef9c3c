import BlockSeal.Keys

/-! # Signatures as bytes

* `Signature.length_encode`: the width of a signature's bytes.
* `SecretKey.Signs`: what is relied on of the signature scheme, for one key and one message.
-/

set_option autoImplicit false

namespace BlockSeal

namespace Bls.Point

variable {F : Type} [CurveField F]

@[simp] theorem length_marked (mark : UInt8) (l : Bytes) : (marked mark l).length = l.length := by
  cases l <;> rfl

/-- The compressed form of a point is as wide as one coordinate. -/
theorem length_encode (hwidth : ∀ x : F, (CurveField.toBytes x).length = CurveField.width F)
    (a : Point F) : a.encode.length = CurveField.width F := by
  cases a with
  | infinity => rw [encode, length_marked, List.length_replicate]
  | affine x y => rw [encode, length_marked, hwidth]

end Bls.Point

namespace Signature

theorem length_encode (s : Signature) : s.encode.length = 96 := by
  refine Bls.Point.length_encode (fun x => ?_) s.point
  change (bigEndian 48 x.im.toNat ++ bigEndian 48 x.re.toNat).length = 96
  rw [List.length_append, length_bigEndian, length_bigEndian]

def octets (s : Signature) : SignatureBytes := ⟨s.encode, s.length_encode⟩

end Signature

/-- The signature of a message can be read back from its bytes, and it is accepted under the public
half of the key. -/
structure SecretKey.Signs (k : SecretKey) (message : Bytes) : Prop where
  readable : Signature.ofBytes (k.sign message).encode = .ok (k.sign message)
  valid : (k.sign message).verify k.publicKey message = true

end BlockSeal
