import BlockSeal.Octets

/-! # The fields of the pairing-friendly curve BLS12-381

* `Fp`: the integers modulo the prime `p`, each by its representative below `p`.
* `Fp2`: `Fp` extended by a square root `u` of minus one.
* `power`: powers by squaring; inverses and square roots are powers, and a square root is handed
  out only after it has been squared and compared (`Fp.sqrt?`, `Fp2.sqrt?`).

The curve belongs to a family with one parameter, minus `seed`: `order_eq` and `p_eq` state both
primes through it.
-/

set_option autoImplicit false

namespace BlockSeal.Bls

/-- The size of the (negative) curve parameter. -/
def seed : Nat := 0xd201000000010000

def order : Nat := 0x73eda753299d7d483339d80809a1d80553bda402fffe5bfeffffffff00000001

def p : Nat :=
  0x1a0111ea397fe69a4b1ba7b6434bacd764774b84f38512bf6730d2a0f6b0f6241eabfffeb153ffffb9feffffffffaaab

theorem order_eq : order + seed * seed = seed * seed * (seed * seed) + 1 := by decide

theorem p_eq : 3 * (p + seed) = (seed + 1) * (seed + 1) * order := by decide

/-! ## Powers -/

def binaryDigits (n : Nat) : List Bool := ((List.range (n.log2 + 1)).map n.testBit).reverse

/-- The power of `a` to `n`, by squaring, where `one` is the unit. -/
@[specialize] def power {F : Type} [Mul F] (one a : F) (n : Nat) : F :=
  (binaryDigits n).foldl (fun acc bit => if bit then acc * acc * a else acc * acc) one

/-! ## The prime field -/

/-- The integers modulo `p`. -/
structure Fp where
  toNat : Nat
  toNat_lt : toNat < p
deriving DecidableEq

namespace Fp

def ofNat (n : Nat) : Fp := ⟨n % p, Nat.mod_lt n (by decide)⟩

instance : Add Fp := ⟨fun a b => ofNat (a.toNat + b.toNat)⟩
instance : Sub Fp := ⟨fun a b => ofNat (a.toNat + (p - b.toNat))⟩
instance : Mul Fp := ⟨fun a b => ofNat (a.toNat * b.toNat)⟩
instance : Neg Fp := ⟨fun a => ofNat (p - a.toNat)⟩

def zero : Fp := ofNat 0

def one : Fp := ofNat 1

instance : Inhabited Fp := ⟨zero⟩

/-- The inverse of a residue, zero for zero. -/
def inv (a : Fp) : Fp := power one a (p - 2)

def sqrt? (a : Fp) : Option Fp :=
  let s := power one a ((p + 1) / 4)
  if s * s = a then some s else none

def isLarge (a : Fp) : Bool := p < 2 * a.toNat

def toBytes (a : Fp) : Bytes := bigEndian 48 a.toNat

def ofBytes? (l : Bytes) : Option Fp :=
  if h : bigEndianNat l < p then some ⟨bigEndianNat l, h⟩ else none

end Fp

/-! ## The quadratic extension -/

/-- `re + im * u`, where `u` squares to minus one. -/
structure Fp2 where
  re : Fp
  im : Fp
deriving DecidableEq

namespace Fp2

instance : Add Fp2 := ⟨fun a b => ⟨a.re + b.re, a.im + b.im⟩⟩
instance : Sub Fp2 := ⟨fun a b => ⟨a.re - b.re, a.im - b.im⟩⟩
instance : Neg Fp2 := ⟨fun a => ⟨-a.re, -a.im⟩⟩

/-- The product, with three multiplications in place of four. -/
def mul (a b : Fp2) : Fp2 :=
  let x := a.re * b.re
  let y := a.im * b.im
  ⟨x - y, (a.re + a.im) * (b.re + b.im) - x - y⟩

instance : Mul Fp2 := ⟨mul⟩

def ofNats (re im : Nat) : Fp2 := ⟨Fp.ofNat re, Fp.ofNat im⟩

def zero : Fp2 := ofNats 0 0

def one : Fp2 := ofNats 1 0

instance : Inhabited Fp2 := ⟨zero⟩

def conj (a : Fp2) : Fp2 := ⟨a.re, -a.im⟩

def scale (c : Fp) (a : Fp2) : Fp2 := ⟨c * a.re, c * a.im⟩

def mulByXi (a : Fp2) : Fp2 := ⟨a.re - a.im, a.re + a.im⟩

/-- The inverse, zero for zero. -/
def inv (a : Fp2) : Fp2 := scale (a.re * a.re + a.im * a.im).inv a.conj

def sqrt? (a : Fp2) : Option Fp2 :=
  let c := power one a ((p - 3) / 4)
  let root := c * a
  let sign := c * root
  let s :=
    if sign = -one then ofNats 0 1 * root
    else power one (one + sign) ((p - 1) / 2) * root
  if s * s = a then some s else none

/-- Whether the element comes after its negative, the coefficient of `u` weighing more. -/
def isLarge (a : Fp2) : Bool := if a.im = Fp.zero then a.re.isLarge else a.im.isLarge

def toBytes (a : Fp2) : Bytes := a.im.toBytes ++ a.re.toBytes

def ofBytes? (l : Bytes) : Option Fp2 := do
  let im ← Fp.ofBytes? (l.take 48)
  let re ← Fp.ofBytes? (l.drop 48)
  return ⟨re, im⟩

/-- The parity that tells an element from its negative: of the first coefficient that is not
zero. -/
def parity (a : Fp2) : Bool :=
  if a.re = Fp.zero then a.im.toNat % 2 = 1 else a.re.toNat % 2 = 1

end Fp2

end BlockSeal.Bls
