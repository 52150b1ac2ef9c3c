import BlockSeal.Bls.HashToCurve
import BlockSeal.Bls.Pairing

/-! # Short keys, long signatures

The signature scheme of the proof-of-possession suite: public keys are points over `Fp` in 48
bytes, signatures points over `Fp2` in 96 bytes.

* `SecretKey.derive`: a key from keying material.
* `SecretKey.publicKey`, `SecretKey.sign`: the key's public half, and its signatures.
* `PublicKey.decode`, `Signature.decode`: only finite points of the prime-order groups are read.
* `Signature.verify`: the pairing equation `e(key, H(message)) = e(g, signature)`.
-/

set_option autoImplicit false

namespace BlockSeal

open Bls

/-- The use that seal signatures are made for; it separates them from signatures made for others. -/
def signatureDomain : Bytes :=
  utf8 "BLS_SIG_BLS12381G2_XMD:SHA-256_SSWU_RO_POP_".toList

def generator : Point Fp := .affine
  (Fp.ofNat
    0x17f1d3a73197d7942695638c4fa9ac0fc3688c4f9774b905a14e3a3f171bac586c55e83ff97a1aeffb3af00adb22c6bb)
  (Fp.ofNat
    0x08b3f481e3aaa0f1a09e30ed741d8ae4fcf5e095d5d00af600db18cb2c04b3edd03cc744a2888ae40caa232946c5e7e1)

/-! ## Public keys -/

structure PublicKey where
  point : Point Fp
deriving DecidableEq

namespace PublicKey

def decode (l : Bytes) : Except PointError PublicKey := (Point.decodeInGroup l).map PublicKey.mk

def encode (k : PublicKey) : Bytes := k.point.encode

end PublicKey

/-! ## Signatures -/

structure Signature where
  point : Point Fp2
deriving DecidableEq

namespace Signature

def decode (l : Bytes) : Except PointError Signature := (Point.decodeInGroup l).map Signature.mk

def encode (s : Signature) : Bytes := s.point.encode

/-- Whether `s` is the signature of `message` under the key `k`. -/
def verify (s : Signature) (k : PublicKey) (message : Bytes) : Bool :=
  pairingProductIsOne [
    (k.point, Point.ofProjective (hashToPoint message signatureDomain)),
    (generator.neg, s.point)]

end Signature

/-! ## Secret keys -/

structure SecretKey where
  scalar : Nat

namespace SecretKey

/-- The scalar drawn from keying material with the given salt; the salt is hashed until the scalar
is not zero, at most `tries` more times. -/
def scalarFrom (material : Bytes) : (tries : Nat) → (salt : Bytes) → Nat
  | 0, _ => 0
  | tries + 1, salt =>
    let salt := (Sha256.hash salt).toList
    let key := (Sha256.extract salt (material ++ [0])).toList
    let scalar := bigEndianNat (Sha256.expand key [0, 48] 48) % order
    if scalar = 0 then scalarFrom material tries salt else scalar

/-- The key derived from keying material of at least 32 bytes. -/
def derive (material : Bytes) : Except PointError SecretKey :=
  if material.length < 32 then .error .badEncoding
  else .ok ⟨scalarFrom material 256 (utf8 "BLS-SIG-KEYGEN-SALT-".toList)⟩

def publicKey (k : SecretKey) : PublicKey := ⟨generator.nsmul k.scalar⟩

def sign (k : SecretKey) (message : Bytes) : Signature :=
  ⟨Point.ofProjective ((hashToPoint message signatureDomain).nsmul k.scalar)⟩

end SecretKey

end BlockSeal
