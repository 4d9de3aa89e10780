import RoundChain.Crypto.Power

/-!
# Points of a curve

Points of a curve y² = x³ + b over any field, whose constant `b` no operation
here needs. `Point` is what the rest of the library sees; multiples are computed
on `Jacobian` triples, which stand for x/z² and y/z³ and need no division until
the end.
-/

namespace RoundChain

/-- A point of a curve. -/
inductive Point (F : Type) where
  | infinity
  | affine (x y : F)
  deriving DecidableEq, Repr

/-- A triple that stands for the point (x/z², y/z³), or for the point at infinity if z is zero. -/
structure Jacobian (F : Type) where
  x : F
  y : F
  z : F

variable {F : Type} [Add F] [Sub F] [Neg F] [Mul F] [Zero F] [One F] [Inv F] [DecidableEq F]

namespace Jacobian

/-- The point at infinity. -/
def infinity : Jacobian F := ⟨1, 1, 0⟩

/-- A point as a triple. -/
def ofPoint : Point F → Jacobian F
  | .infinity => infinity
  | .affine x y => ⟨x, y, 1⟩

/-- The point that a triple stands for. -/
def toPoint (p : Jacobian F) : Point F :=
  if p.z = 0 then .infinity
  else
    let i := p.z⁻¹
    let i2 := i * i
    .affine (p.x * i2) (p.y * (i2 * i))

/-- Twice a point, along the tangent. -/
@[specialize] def double (p : Jacobian F) : Jacobian F :=
  let a := p.x * p.x
  let b := p.y * p.y
  let c := b * b
  let xb := p.x + b
  let d := xb * xb - a - c
  let d := d + d
  let e := a + a + a
  let x := e * e - (d + d)
  let c2 := c + c
  let c4 := c2 + c2
  let yz := p.y * p.z
  ⟨x, e * (d - x) - (c4 + c4), yz + yz⟩

/-- The sum of two points, along the chord. -/
@[specialize] def add (p q : Jacobian F) : Jacobian F :=
  if p.z = 0 then q
  else if q.z = 0 then p
  else
    let pz2 := p.z * p.z
    let qz2 := q.z * q.z
    let u1 := p.x * qz2
    let u2 := q.x * pz2
    let s1 := p.y * (qz2 * q.z)
    let s2 := q.y * (pz2 * p.z)
    if u1 = u2 then
      if s1 = s2 then double p else infinity
    else
      let h := u2 - u1
      let r := s2 - s1
      let h2 := h * h
      let h3 := h2 * h
      let v := u1 * h2
      let x := r * r - h3 - (v + v)
      ⟨x, r * (v - x) - s1 * h3, h * (p.z * q.z)⟩

/-- A multiple of a point. -/
@[specialize] def smul (n : Nat) (p : Jacobian F) : Jacobian F := power add infinity p n

end Jacobian

namespace Point

/-- The opposite point. -/
def neg : Point F → Point F
  | infinity => infinity
  | affine x y => affine x (-y)

/-- The sum of two points. -/
@[specialize] def add (p q : Point F) : Point F :=
  ((Jacobian.ofPoint p).add (Jacobian.ofPoint q)).toPoint

/-- The sum of many points. -/
@[specialize] def sum (ps : List (Point F)) : Point F :=
  (ps.foldl (fun acc p => acc.add (Jacobian.ofPoint p)) Jacobian.infinity).toPoint

/-- A multiple of a point. -/
@[specialize] def smul (n : Nat) (p : Point F) : Point F := ((Jacobian.ofPoint p).smul n).toPoint

end Point

end RoundChain
