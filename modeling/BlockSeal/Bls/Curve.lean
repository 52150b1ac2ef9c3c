import BlockSeal.Bls.Field

/-! # Points of the two signature groups

* `CurveField`: a field over which one of the two curves `y² = x³ + b` is taken. Public keys are
  points over `Fp`, signatures points over `Fp2`.
* `Projective`: points by projective coordinates, with an addition that has no exceptions.
* `Point`: points by affine coordinates, in which equal points have equal coordinates.
* `Point.encode`, `Point.decode`: the compressed form of a point, and what is read as one; the
  decoder also reads the uncompressed form.
* `Point.inGroup`: whether a point lies in the subgroup of prime order.
-/

set_option autoImplicit false

namespace BlockSeal.Bls

/-- The field of coordinates of one of the two curves. -/
class CurveField (F : Type) extends Add F, Sub F, Mul F, Neg F where
  zero : F
  one : F
  inv : F → F
  sqrt? : F → Option F
  /-- Whether an element comes after its negative. -/
  isLarge : F → Bool
  width : Nat
  toBytes : F → Bytes
  ofBytes? : Bytes → Option F
  /-- The constant term of the curve equation. -/
  constant : F

instance : CurveField Fp where
  zero := Fp.zero
  one := Fp.one
  inv := Fp.inv
  sqrt? := Fp.sqrt?
  isLarge := Fp.isLarge
  width := 48
  toBytes := Fp.toBytes
  ofBytes? := Fp.ofBytes?
  constant := Fp.ofNat 4

instance : CurveField Fp2 where
  zero := Fp2.zero
  one := Fp2.one
  inv := Fp2.inv
  sqrt? := Fp2.sqrt?
  isLarge := Fp2.isLarge
  width := 96
  toBytes := Fp2.toBytes
  ofBytes? := Fp2.ofBytes?
  constant := Fp2.ofNats 4 4

section Points

variable {F : Type} [CurveField F] [DecidableEq F]

/-! ## Projective points -/

/-- The point `(x / z, y / z)`, or the point at infinity when `z` is zero. -/
structure Projective (F : Type) where
  x : F
  y : F
  z : F
deriving DecidableEq

namespace Projective

def infinity : Projective F := ⟨CurveField.zero, CurveField.one, CurveField.zero⟩

/-- The sum. The formula holds for all points, equal and opposite ones included, because neither
curve has a point of order two. -/
@[specialize] def add (a b : Projective F) : Projective F :=
  let triple (c : F) : F := c + c + c
  let xx := a.x * b.x
  let yy := a.y * b.y
  let zz := triple (CurveField.constant * (a.z * b.z))
  let xy := (a.x + a.y) * (b.x + b.y) - xx - yy
  let yz := a.y * b.z + b.y * a.z
  let xz := a.x * b.z + b.x * a.z
  let low := yy - zz
  let high := yy + zz
  let bxz := triple (CurveField.constant * xz)
  ⟨xy * low - yz * bxz, high * low + triple xx * bxz, yz * high + triple xx * xy⟩

@[specialize] def nsmul (n : Nat) (a : Projective F) : Projective F :=
  (binaryDigits n).foldl
    (fun acc bit => let twice := add acc acc; if bit then add twice a else twice) infinity

end Projective

/-! ## Affine points -/

inductive Point (F : Type)
  | infinity
  | affine (x y : F)
deriving DecidableEq

namespace Point

def toProjective : Point F → Projective F
  | infinity => Projective.infinity
  | affine x y => ⟨x, y, CurveField.one⟩

def ofProjective (a : Projective F) : Point F :=
  if a.z = CurveField.zero then infinity
  else
    let i := CurveField.inv a.z
    affine (a.x * i) (a.y * i)

def neg : Point F → Point F
  | infinity => infinity
  | affine x y => affine x (-y)

def nsmul (n : Nat) (a : Point F) : Point F := ofProjective (a.toProjective.nsmul n)

def cubic (x : F) : F := x * x * x + CurveField.constant

def inGroup (a : Point F) : Bool := a.nsmul order == infinity

end Point

end Points

/-! ## Points as bytes -/

inductive PointError
  | badEncoding
  | notOnCurve
  | notInGroup
  | atInfinity
deriving DecidableEq

def PointError.code : PointError → String
  | badEncoding => "BLST_BAD_ENCODING"
  | notOnCurve => "BLST_POINT_NOT_ON_CURVE"
  | notInGroup => "BLST_POINT_NOT_IN_GROUP"
  | atInfinity => "BLST_PK_IS_INFINITY"

namespace Point

variable {F : Type} [CurveField F] [DecidableEq F]

def compressedMark : UInt8 := 0x80
def infinityMark : UInt8 := 0x40
/-- Marks the larger of the two points with one `x` coordinate. -/
def largeMark : UInt8 := 0x20

def marked (mark : UInt8) : Bytes → Bytes
  | [] => []
  | b :: r => (b ||| mark) :: r

def unmarked : Bytes → Bytes
  | [] => []
  | b :: r => (b &&& 0x1f) :: r

/-- Whether the bytes are those of the point at infinity, the compressed mark aside. -/
def spellsInfinity : Bytes → Bool
  | [] => false
  | b :: r => b &&& 0x3f == 0 && r.all (· == 0)

/-- The compressed form of a point: its `x` coordinate, and one bit that selects `y`. -/
def encode : Point F → Bytes
  | infinity =>
    marked (compressedMark ||| infinityMark) (List.replicate (CurveField.width F) 0)
  | affine x y =>
    marked (if CurveField.isLarge y then compressedMark ||| largeMark else compressedMark)
      (CurveField.toBytes x)

def decodeCompressed (l : Bytes) (head : UInt8) : Except PointError (Point F) :=
  if head &&& infinityMark != 0 then
    if spellsInfinity l then .ok infinity else .error .badEncoding
  else match CurveField.ofBytes? (unmarked l) with
    | none => .error .badEncoding
    | some x => match CurveField.sqrt? (cubic x) with
      | none => .error .notOnCurve
      | some y =>
        .ok (affine x (if CurveField.isLarge y == (head &&& largeMark != 0) then y else -y))

/-- The point with the uncompressed form `l`: both coordinates, one after the other. -/
def decodePlain (l : Bytes) (head : UInt8) : Except PointError (Point F) :=
  if head &&& infinityMark != 0 then
    if spellsInfinity l then .ok infinity else .error .badEncoding
  else if head &&& largeMark != 0 then .error .badEncoding
  else
    match CurveField.ofBytes? (l.take (CurveField.width F)),
        CurveField.ofBytes? (l.drop (CurveField.width F)) with
    | some x, some y => if y * y = cubic x then .ok (affine x y) else .error .notOnCurve
    | _, _ => .error .badEncoding

def decode (l : Bytes) : Except PointError (Point F) :=
  match l with
  | [] => .error .badEncoding
  | head :: _ =>
    if head &&& compressedMark != 0 then
      if l.length = CurveField.width F then decodeCompressed l head else .error .badEncoding
    else if l.length = 2 * CurveField.width F then decodePlain l head
    else .error .badEncoding

/-- The point that `l` spells, if it is a finite point of the subgroup of prime order. -/
def decodeInGroup (l : Bytes) : Except PointError (Point F) := do
  let a : Point F ← decode l
  if a = infinity then throw .atInfinity
  if a.inGroup then return a else throw .notInGroup

end Point

end BlockSeal.Bls
