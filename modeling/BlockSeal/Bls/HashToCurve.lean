import BlockSeal.Bls.Curve
import BlockSeal.Digest.Sha256

/-! # Messages as points

`hashToPoint` sends a message to a point of the group of signatures, in the steps of the suite
`BLS12381G2_XMD:SHA-256_SSWU_RO_`:

* `expandMessage`: the message as uniform bytes;
* `fieldElements`: the bytes as two elements of `Fp2`;
* `mapToIsogenous`, `isogeny`: each element as a point of a curve that maps to the one wanted;
* `cofactor`: the multiple that moves the sum of both points into the group of prime order.
-/

set_option autoImplicit false

namespace BlockSeal.Bls

/-! ## Uniform bytes -/

/-- The blocks of the expansion from number `i` on, `previous` being the block before. -/
def expandMessageBlocks (start tag : Bytes) : (count : Nat) → (i : Nat) → (previous : Bytes) → Bytes
  | 0, _, _ => []
  | count + 1, i, previous =>
    let block := (Sha256.hash (List.zipWith (· ^^^ ·) start previous ++ UInt8.ofNat i :: tag)).toList
    block ++ expandMessageBlocks start tag count (i + 1) block

/-- `32 * count` uniform bytes drawn from `message`, for the use named by `tag`. -/
def expandMessage (message tag : Bytes) (count : Nat) : Bytes :=
  let tag := tag ++ [UInt8.ofNat tag.length]
  let start := (Sha256.hash (List.replicate 64 0 ++ message ++ bigEndian 2 (32 * count) ++ 0 :: tag)).toList
  expandMessageBlocks start tag count 1 (List.replicate 32 0)

def fieldElements (message tag : Bytes) : Fp2 × Fp2 :=
  let bytes := expandMessage message tag 8
  let at64 (i : Nat) : Nat := bigEndianNat ((bytes.drop (64 * i)).take 64)
  (Fp2.ofNats (at64 0) (at64 1), Fp2.ofNats (at64 2) (at64 3))

/-! ## The map to an isogenous curve -/

/-- The linear coefficient of the isogenous curve `y² = x³ + a x + b`. -/
def isogenousA : Fp2 := Fp2.ofNats 0 240

def isogenousB : Fp2 := Fp2.ofNats 1012 1012

/-- The non-square that the map is built on. -/
def nonSquare : Fp2 := -Fp2.ofNats 2 1

/-- The point of the isogenous curve that belongs to `t`: of two candidates for `x` at least one
is on the curve, and `y` takes the parity of `t`. -/
def mapToIsogenous (t : Fp2) : Fp2 × Fp2 :=
  let g (x : Fp2) : Fp2 := (x * x + isogenousA) * x + isogenousB
  let withParity (y : Fp2) : Fp2 := if y.parity = t.parity then y else -y
  let s := nonSquare * (t * t)
  let d := s * s + s
  let x₁ :=
    if d = Fp2.zero then isogenousB * (nonSquare * isogenousA).inv
    else -isogenousB * isogenousA.inv * (Fp2.one + d.inv)
  match (g x₁).sqrt? with
  | some y => (x₁, withParity y)
  | none =>
    let x₂ := s * x₁
    (x₂, withParity ((g x₂).sqrt?.getD Fp2.zero))

def evalPolynomial (coefficients : List Fp2) (x : Fp2) : Fp2 :=
  coefficients.foldr (fun c acc => c + acc * x) Fp2.zero

def xNumerator : List Fp2 := [
  Fp2.ofNats
    0x5c759507e8e333ebb5b7a9a47d7ed8532c52d39fd3a042a88b58423c50ae15d5c2638e343d9c71c6238aaaaaaaa97d6
    0x5c759507e8e333ebb5b7a9a47d7ed8532c52d39fd3a042a88b58423c50ae15d5c2638e343d9c71c6238aaaaaaaa97d6,
  Fp2.ofNats 0
    0x11560bf17baa99bc32126fced787c88f984f87adf7ae0c7f9a208c6b4f20a4181472aaa9cb8d555526a9ffffffffc71a,
  Fp2.ofNats
    0x11560bf17baa99bc32126fced787c88f984f87adf7ae0c7f9a208c6b4f20a4181472aaa9cb8d555526a9ffffffffc71e
    0x8ab05f8bdd54cde190937e76bc3e447cc27c3d6fbd7063fcd104635a790520c0a395554e5c6aaaa9354ffffffffe38d,
  Fp2.ofNats
    0x171d6541fa38ccfaed6dea691f5fb614cb14b4e7f4e810aa22d6108f142b85757098e38d0f671c7188e2aaaaaaaa5ed1
    0]

def xDenominator : List Fp2 := [
  Fp2.ofNats 0
    0x1a0111ea397fe69a4b1ba7b6434bacd764774b84f38512bf6730d2a0f6b0f6241eabfffeb153ffffb9feffffffffaa63,
  Fp2.ofNats 0xc
    0x1a0111ea397fe69a4b1ba7b6434bacd764774b84f38512bf6730d2a0f6b0f6241eabfffeb153ffffb9feffffffffaa9f,
  Fp2.one]

def yNumerator : List Fp2 := [
  Fp2.ofNats
    0x1530477c7ab4113b59a4c18b076d11930f7da5d4a07f649bf54439d87d27e500fc8c25ebf8c92f6812cfc71c71c6d706
    0x1530477c7ab4113b59a4c18b076d11930f7da5d4a07f649bf54439d87d27e500fc8c25ebf8c92f6812cfc71c71c6d706,
  Fp2.ofNats 0
    0x5c759507e8e333ebb5b7a9a47d7ed8532c52d39fd3a042a88b58423c50ae15d5c2638e343d9c71c6238aaaaaaaa97be,
  Fp2.ofNats
    0x11560bf17baa99bc32126fced787c88f984f87adf7ae0c7f9a208c6b4f20a4181472aaa9cb8d555526a9ffffffffc71c
    0x8ab05f8bdd54cde190937e76bc3e447cc27c3d6fbd7063fcd104635a790520c0a395554e5c6aaaa9354ffffffffe38f,
  Fp2.ofNats
    0x124c9ad43b6cf79bfbf7043de3811ad0761b0f37a1e26286b0e977c69aa274524e79097a56dc4bd9e1b371c71c718b10
    0]

def yDenominator : List Fp2 := [
  Fp2.ofNats
    0x1a0111ea397fe69a4b1ba7b6434bacd764774b84f38512bf6730d2a0f6b0f6241eabfffeb153ffffb9feffffffffa8fb
    0x1a0111ea397fe69a4b1ba7b6434bacd764774b84f38512bf6730d2a0f6b0f6241eabfffeb153ffffb9feffffffffa8fb,
  Fp2.ofNats 0
    0x1a0111ea397fe69a4b1ba7b6434bacd764774b84f38512bf6730d2a0f6b0f6241eabfffeb153ffffb9feffffffffa9d3,
  Fp2.ofNats 0x12
    0x1a0111ea397fe69a4b1ba7b6434bacd764774b84f38512bf6730d2a0f6b0f6241eabfffeb153ffffb9feffffffffaa99,
  Fp2.one]

/-- The image of a point of the isogenous curve on the curve of signatures. -/
def isogeny (x y : Fp2) : Projective Fp2 :=
  let xd := evalPolynomial xDenominator x
  let yd := evalPolynomial yDenominator x
  ⟨evalPolynomial xNumerator x * yd, y * evalPolynomial yNumerator x * xd, xd * yd⟩

/-! ## The group of prime order -/

/-- The multiple that moves any point of the curve into the group of prime order. -/
def cofactor : Nat :=
  0xbc69f08f2ee75b3584c6a0ea91b352888e2a8e9145ad7689986ff031508ffe1329c2f178731db956d82bf015d1212b02ec0ec69d7477c1ae954cbc06689f6a359894c0adebbf6b4e8020005aaa95551

/-- The point of the group of signatures that stands for `message`, for the use named by `tag`. -/
def hashToPoint (message tag : Bytes) : Projective Fp2 :=
  let (t₀, t₁) := fieldElements message tag
  let (x₀, y₀) := mapToIsogenous t₀
  let (x₁, y₁) := mapToIsogenous t₁
  ((isogeny x₀ y₀).add (isogeny x₁ y₁)).nsmul cofactor

end BlockSeal.Bls
