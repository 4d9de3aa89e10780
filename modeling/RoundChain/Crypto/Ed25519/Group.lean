import RoundChain.Bytes
import RoundChain.Crypto.Power

/-!
# The group of Ed25519

Points of the twisted Edwards curve −x² + y² = 1 + d·x²·y² over the integers modulo
2²⁵⁵ − 19, in extended coordinates: (X : Y : Z : T) stands for (X/Z, Y/Z) with
T = XY/Z. The formula for a sum holds for all points.

A point is written as its y in 32 bytes, least significant first, with the parity of
x in the highest bit. Reading is lenient: y is taken modulo the prime, and the bit
is ignored where x is zero.
-/

namespace RoundChain.Ed25519

/-- The characteristic. -/
def modulus : Nat := (1 <<< 255) - 19

/-- The order of the base point. -/
def order : Nat := (1 <<< 252) + 27742317777372353535851937790883648493

theorem modulus_pos : 0 < modulus := Nat.succ_pos (modulus - 1)

/-- Integers modulo `modulus`. -/
abbrev Coordinate := Fin modulus

namespace Coordinate

/-- The residue of a number. -/
def ofNat (n : Nat) : Coordinate := ⟨n % modulus, Nat.mod_lt n modulus_pos⟩

/-- A power. -/
def pow (a : Coordinate) (n : Nat) : Coordinate := power (· * ·) (ofNat 1) a n

/-- The inverse, and zero for zero. -/
def inverse (a : Coordinate) : Coordinate := a.pow (modulus - 2)

/-- A root of −1. -/
def rootOfMinusOne : Coordinate := (ofNat 2).pow ((modulus - 1) / 4)

/-- A square root. -/
def sqrt? (a : Coordinate) : Option Coordinate :=
  let s := a.pow ((modulus + 3) / 8)
  if s * s = a then some s
  else
    let s := s * rootOfMinusOne
    if s * s = a then some s else none

end Coordinate

/-- The curve's constant d = −121665/121666. -/
def curveD : Coordinate := -(Coordinate.ofNat 121665) * (Coordinate.ofNat 121666).inverse

/-- A point in extended coordinates. -/
structure EdwardsPoint where
  x : Coordinate
  y : Coordinate
  z : Coordinate
  t : Coordinate
  deriving Repr

namespace EdwardsPoint

/-- The neutral point. -/
def identity : EdwardsPoint := ⟨.ofNat 0, .ofNat 1, .ofNat 1, .ofNat 0⟩

/-- The point with the given coordinates. -/
def ofAffine (x y : Coordinate) : EdwardsPoint := ⟨x, y, .ofNat 1, x * y⟩

/-- The sum of two points. -/
def add (p q : EdwardsPoint) : EdwardsPoint :=
  let a := (p.y - p.x) * (q.y - q.x)
  let b := (p.y + p.x) * (q.y + q.x)
  let c := p.t * q.t * (curveD + curveD)
  let zz := p.z * q.z
  let d := zz + zz
  let e := b - a
  let f := d - c
  let g := d + c
  let h := b + a
  ⟨e * f, g * h, f * g, e * h⟩

/-- The opposite point. -/
def neg (p : EdwardsPoint) : EdwardsPoint := ⟨-p.x, p.y, p.z, -p.t⟩

/-- A multiple of a point. -/
def smul (n : Nat) (p : EdwardsPoint) : EdwardsPoint := power add identity p n

/-- Whether the point is the neutral one. -/
def isIdentity (p : EdwardsPoint) : Bool := p.x = .ofNat 0 && p.y = p.z

/-- Whether eight times the point is the neutral one. -/
def hasSmallOrder (p : EdwardsPoint) : Bool := (p.smul 8).isIdentity

/-! ### Written points -/

/-- The 32 bytes of a point. -/
def toBytes (p : EdwardsPoint) : Bytes :=
  let i := p.z.inverse
  let x := p.x * i
  let y := p.y * i
  Bytes.ofNatLE 32 (y.val + if x.val % 2 = 1 then 1 <<< 255 else 0)

@[simp] theorem length_toBytes (p : EdwardsPoint) : p.toBytes.length = 32 := Bytes.length_ofNatLE ..

/-- The point that 32 bytes spell, if their y belongs to one. -/
def ofBytes? (bs : Bytes) : Option EdwardsPoint :=
  if bs.length ≠ 32 then none
  else
    let n := Bytes.toNatLE bs
    let y := Coordinate.ofNat (n % (1 <<< 255))
    let y2 := y * y
    let x2 := (y2 - .ofNat 1) * (curveD * y2 + .ofNat 1).inverse
    x2.sqrt?.map fun x => ofAffine (if x.val % 2 = n / (1 <<< 255) then x else -x) y

/-- The base point: y = 4/5 and x even. -/
def base : EdwardsPoint :=
  (ofBytes? (Bytes.ofNatLE 32 (Coordinate.ofNat 4 * (Coordinate.ofNat 5).inverse).val)).getD identity

end EdwardsPoint

end RoundChain.Ed25519
