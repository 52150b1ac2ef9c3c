import BlockSeal.Digest.Basic

/-! # SHA-256, and keys drawn from it

* `hash`: the SHA-256 digest of a byte string.
* `mac`: the keyed hash HMAC over it.
* `extract`, `expand`: the two steps of the key derivation HKDF.

The schedule and the rounds are folds over lists of words, so every definition is structurally
recursive.
-/

set_option autoImplicit false

namespace BlockSeal.Sha256

/-! ## Rounds -/

structure State where
  a : UInt32
  b : UInt32
  c : UInt32
  d : UInt32
  e : UInt32
  f : UInt32
  g : UInt32
  h : UInt32
deriving DecidableEq, Inhabited

def initial : State :=
  ⟨0x6a09e667, 0xbb67ae85, 0x3c6ef372, 0xa54ff53a, 0x510e527f, 0x9b05688c, 0x1f83d9ab, 0x5be0cd19⟩

def roundConstants : List UInt32 := [
  0x428a2f98, 0x71374491, 0xb5c0fbcf, 0xe9b5dba5, 0x3956c25b, 0x59f111f1, 0x923f82a4, 0xab1c5ed5,
  0xd807aa98, 0x12835b01, 0x243185be, 0x550c7dc3, 0x72be5d74, 0x80deb1fe, 0x9bdc06a7, 0xc19bf174,
  0xe49b69c1, 0xefbe4786, 0x0fc19dc6, 0x240ca1cc, 0x2de92c6f, 0x4a7484aa, 0x5cb0a9dc, 0x76f988da,
  0x983e5152, 0xa831c66d, 0xb00327c8, 0xbf597fc7, 0xc6e00bf3, 0xd5a79147, 0x06ca6351, 0x14292967,
  0x27b70a85, 0x2e1b2138, 0x4d2c6dfc, 0x53380d13, 0x650a7354, 0x766a0abb, 0x81c2c92e, 0x92722c85,
  0xa2bfe8a1, 0xa81a664b, 0xc24b8b70, 0xc76c51a3, 0xd192e819, 0xd6990624, 0xf40e3585, 0x106aa070,
  0x19a4c116, 0x1e376c08, 0x2748774c, 0x34b0bcb5, 0x391c0cb3, 0x4ed8aa4a, 0x5b9cca4f, 0x682e6ff3,
  0x748f82ee, 0x78a5636f, 0x84c87814, 0x8cc70208, 0x90befffa, 0xa4506ceb, 0xbef9a3f7, 0xc67178f2]

def round (s : State) (w k : UInt32) : State :=
  let big₁ := s.e.rotateRight 6 ^^^ s.e.rotateRight 11 ^^^ s.e.rotateRight 25
  let choice := (s.e &&& s.f) ^^^ (~~~s.e &&& s.g)
  let t₁ := s.h + big₁ + choice + k + w
  let big₀ := s.a.rotateRight 2 ^^^ s.a.rotateRight 13 ^^^ s.a.rotateRight 22
  let majority := (s.a &&& s.b) ^^^ (s.a &&& s.c) ^^^ (s.b &&& s.c)
  ⟨t₁ + (big₀ + majority), s.a, s.b, s.c, s.d + t₁, s.e, s.f, s.g⟩

/-- The schedule word that follows sixteen others. -/
def nextWord (w₀ w₁ w₉ w₁₄ : UInt32) : UInt32 :=
  let small₀ := w₁.rotateRight 7 ^^^ w₁.rotateRight 18 ^^^ (w₁ >>> 3)
  let small₁ := w₁₄.rotateRight 17 ^^^ w₁₄.rotateRight 19 ^^^ (w₁₄ >>> 10)
  w₀ + small₀ + w₉ + small₁

/-- The rounds for the constants `ks`, with the next sixteen schedule words at hand. -/
def rounds : (ks : List UInt32) → (window : List UInt32) → State → State
  | k :: ks, w₀ :: w₁ :: w₂ :: w₃ :: w₄ :: w₅ :: w₆ :: w₇ :: w₈ :: w₉ :: w₁₀ :: w₁₁ :: w₁₂ :: w₁₃ :: w₁₄
      :: w₁₅ :: _, s =>
    rounds ks [w₁, w₂, w₃, w₄, w₅, w₆, w₇, w₈, w₉, w₁₀, w₁₁, w₁₂, w₁₃, w₁₄, w₁₅,
      nextWord w₀ w₁ w₉ w₁₄] (round s w₀ k)
  | _, _, s => s

def absorb (s : State) (block : List UInt32) : State :=
  let t := rounds roundConstants block s
  ⟨s.a + t.a, s.b + t.b, s.c + t.c, s.d + t.d, s.e + t.e, s.f + t.f, s.g + t.g, s.h + t.h⟩

/-! ## Padding and output -/

def words : Bytes → List UInt32
  | a :: b :: c :: d :: r =>
    ((a.toUInt32 <<< 24) ||| (b.toUInt32 <<< 16) ||| (c.toUInt32 <<< 8) ||| d.toUInt32) :: words r
  | _ => []

/-- The bytes filled up to full blocks: a one bit, zeros, and the length in bits. -/
def padded (bytes : Bytes) : Bytes :=
  bytes ++ 0x80 :: List.replicate ((119 - bytes.length % 64) % 64) 0
    ++ bigEndian 8 (8 * bytes.length)

def wordBytes (x : UInt32) : Bytes :=
  [(x >>> 24).toUInt8, (x >>> 16).toUInt8, (x >>> 8).toUInt8, x.toUInt8]

def hash (bytes : Bytes) : Octets 32 :=
  let s := (cutEvery 16 (words (padded bytes))).foldl absorb initial
  ⟨wordBytes s.a ++ wordBytes s.b ++ wordBytes s.c ++ wordBytes s.d
    ++ wordBytes s.e ++ wordBytes s.f ++ wordBytes s.g ++ wordBytes s.h, rfl⟩

/-! ## Keyed hashing and key derivation -/

/-- The keyed hash of `bytes`; a key longer than a block is hashed first. -/
def mac (key bytes : Bytes) : Octets 32 :=
  let key := if key.length > 64 then (hash key).toList else key
  let key := key ++ List.replicate (64 - key.length) 0
  hash (key.map (· ^^^ 0x5c) ++ (hash (key.map (· ^^^ 0x36) ++ bytes)).toList)

def extract (salt material : Bytes) : Octets 32 := mac salt material

/-- The blocks of key material from number `i` on, `previous` being the block before. -/
def expandBlocks (key info : Bytes) : (count : Nat) → (i : Nat) → (previous : Bytes) → Bytes
  | 0, _, _ => []
  | count + 1, i, previous =>
    let block := (mac key (previous ++ info ++ [UInt8.ofNat i])).toList
    block ++ expandBlocks key info count (i + 1) block

def expand (key info : Bytes) (n : Nat) : Bytes :=
  (expandBlocks key info (n / 32 + 1) 1 []).take n

end BlockSeal.Sha256
