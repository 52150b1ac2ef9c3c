import BlockSeal.Bls.Curve

/-! # The pairing of the two signature groups

* `Fp12`: the field of the pairing's values, `Fp2` extended by a sixth root `w` of `1 + u`.
* `miller`: the product of the lines met on the way from a point to its multiple by the curve
  parameter, evaluated at the other point. A line is scaled by a factor from a proper subfield,
  which the final exponentiation removes.
* `pairingProductIsOne`: whether the product of some pairings is one. Since only the comparison
  with one is asked for, the sign of the curve parameter and a third power do not matter.
-/

set_option autoImplicit false

namespace BlockSeal.Bls

/-- The polynomial `c₀ + c₁ w + … + c₅ w⁵`, where `w⁶ = 1 + u`. -/
structure Fp12 where
  c₀ : Fp2
  c₁ : Fp2
  c₂ : Fp2
  c₃ : Fp2
  c₄ : Fp2
  c₅ : Fp2
deriving DecidableEq

namespace Fp12

def one : Fp12 := ⟨Fp2.one, Fp2.zero, Fp2.zero, Fp2.zero, Fp2.zero, Fp2.zero⟩

def mul (a b : Fp12) : Fp12 where
  c₀ := a.c₀ * b.c₀
    + (a.c₁ * b.c₅ + a.c₂ * b.c₄ + a.c₃ * b.c₃ + a.c₄ * b.c₂ + a.c₅ * b.c₁).mulByXi
  c₁ := a.c₀ * b.c₁ + a.c₁ * b.c₀
    + (a.c₂ * b.c₅ + a.c₃ * b.c₄ + a.c₄ * b.c₃ + a.c₅ * b.c₂).mulByXi
  c₂ := a.c₀ * b.c₂ + a.c₁ * b.c₁ + a.c₂ * b.c₀
    + (a.c₃ * b.c₅ + a.c₄ * b.c₄ + a.c₅ * b.c₃).mulByXi
  c₃ := a.c₀ * b.c₃ + a.c₁ * b.c₂ + a.c₂ * b.c₁ + a.c₃ * b.c₀
    + (a.c₄ * b.c₅ + a.c₅ * b.c₄).mulByXi
  c₄ := a.c₀ * b.c₄ + a.c₁ * b.c₃ + a.c₂ * b.c₂ + a.c₃ * b.c₁ + a.c₄ * b.c₀
    + (a.c₅ * b.c₅).mulByXi
  c₅ := a.c₀ * b.c₅ + a.c₁ * b.c₄ + a.c₂ * b.c₃ + a.c₃ * b.c₂ + a.c₄ * b.c₁ + a.c₅ * b.c₀

instance : Mul Fp12 := ⟨mul⟩

/-- The image under the sixth power of the Frobenius map, which sends `w` to `-w`. -/
def conj (a : Fp12) : Fp12 := ⟨a.c₀, -a.c₁, a.c₂, -a.c₃, a.c₄, -a.c₅⟩

/-- The power of `1 + u` by which the Frobenius map multiplies `w`. -/
def frobeniusFactor : Fp2 := power Fp2.one (Fp2.ofNats 1 1) ((p - 1) / 6)

def frobenius (a : Fp12) : Fp12 :=
  let g := frobeniusFactor
  let g₂ := g * g
  let g₃ := g₂ * g
  let g₄ := g₃ * g
  let g₅ := g₄ * g
  ⟨a.c₀.conj, a.c₁.conj * g, a.c₂.conj * g₂, a.c₃.conj * g₃, a.c₄.conj * g₄, a.c₅.conj * g₅⟩

/-- The inverse. The product with the conjugate has even powers of `w` only, so that a cubic
extension is left to invert in. -/
def inv (a : Fp12) : Fp12 :=
  let n := a * a.conj
  let t₀ := n.c₀ * n.c₀ - (n.c₂ * n.c₄).mulByXi
  let t₂ := (n.c₄ * n.c₄).mulByXi - n.c₀ * n.c₂
  let t₄ := n.c₂ * n.c₂ - n.c₀ * n.c₄
  let i := (n.c₀ * t₀ + (n.c₄ * t₂ + n.c₂ * t₄).mulByXi).inv
  a.conj * ⟨t₀ * i, Fp2.zero, t₂ * i, Fp2.zero, t₄ * i, Fp2.zero⟩

/-- The power to the (negative) curve parameter of an element whose inverse is its conjugate. -/
def powerByParameter (a : Fp12) : Fp12 := (power one a seed).conj

/-- The cube of the power that maps the value of `miller` into the group of `order`-th roots of
one. -/
def finalPower (f : Fp12) : Fp12 :=
  let a := f.conj * f.inv
  let m := a.frobenius.frobenius * a
  let m₁ := m.powerByParameter * m.conj
  let m₂ := m₁.powerByParameter * m₁.conj
  let m₃ := m₂.powerByParameter * m₂.frobenius
  let m₄ := m₃.powerByParameter.powerByParameter * m₃.frobenius.frobenius * m₃.conj
  m₄ * (m * m * m)

end Fp12

/-! ## Lines -/

/-- The line `l₀ + l₂ w² + l₃ w³`. -/
structure Line where
  l₀ : Fp2
  l₂ : Fp2
  l₃ : Fp2

namespace Line

/-- The tangent at `t`, evaluated at the point `(x, y)`. -/
def tangent (t : Projective Fp2) (x y : Fp) : Line :=
  let xx := t.x * t.x
  let yz := t.y * t.z
  let three := xx + xx + xx
  let two := yz + yz
  ⟨three * t.x - two * t.y, -Fp2.scale x (three * t.z), Fp2.scale y (two * t.z)⟩

/-- The line through `t` and `(qx, qy)`, evaluated at the point `(x, y)`. -/
def chord (t : Projective Fp2) (qx qy : Fp2) (x y : Fp) : Line :=
  let rise := t.y - qy * t.z
  let run := t.x - qx * t.z
  ⟨rise * qx - qy * run, -Fp2.scale x rise, Fp2.scale y run⟩

end Line

def Fp12.mulLine (a : Fp12) (l : Line) : Fp12 where
  c₀ := a.c₀ * l.l₀ + (a.c₃ * l.l₃ + a.c₄ * l.l₂).mulByXi
  c₁ := a.c₁ * l.l₀ + (a.c₄ * l.l₃ + a.c₅ * l.l₂).mulByXi
  c₂ := a.c₀ * l.l₂ + a.c₂ * l.l₀ + (a.c₅ * l.l₃).mulByXi
  c₃ := a.c₀ * l.l₃ + a.c₁ * l.l₂ + a.c₃ * l.l₀
  c₄ := a.c₁ * l.l₃ + a.c₂ * l.l₂ + a.c₄ * l.l₀
  c₅ := a.c₂ * l.l₃ + a.c₃ * l.l₂ + a.c₅ * l.l₀

/-! ## The pairing -/

/-- The pairing's value before the final power; one if either point is at infinity. -/
def miller : Point Fp → Point Fp2 → Fp12
  | .affine x y, .affine qx qy =>
    let q : Projective Fp2 := ⟨qx, qy, Fp2.one⟩
    let step (acc : Fp12 × Projective Fp2) (bit : Bool) : Fp12 × Projective Fp2 :=
      let (f, t) := acc
      let f := (f * f).mulLine (Line.tangent t x y)
      let t := t.add t
      if bit then (f.mulLine (Line.chord t qx qy x y), t.add q) else (f, t)
    ((binaryDigits seed).tail.foldl step (Fp12.one, q)).1
  | _, _ => Fp12.one

def pairingProductIsOne (pairs : List (Point Fp × Point Fp2)) : Bool :=
  (pairs.foldl (fun f pair => f * miller pair.1 pair.2) Fp12.one).finalPower == Fp12.one

end BlockSeal.Bls
