import RoundChain.Crypto.Bls12381.Group

/-!
# Comparing pairings

A signature is checked by comparing two values of a pairing of the two groups.
`pairingsCancel` multiplies the pairings of several pairs and says whether the
product is one.

## The model

Values lie in `Fq12`, the extension of `Fq2` by a sixth root `w` of 1 + i. A point of
the signature curve is a point of y² = x³ + 4 over `Fq12` once its coordinates are
divided by w² and w³. Miller's loop runs over the bits of the curve's parameter and
multiplies the values of the lines through the multiples of that point.

The product of the loops is one after the final power exactly if its power by
(q⁶ + 1) / r lies in the subfield of degree six, which holds no odd power of `w`. Up
to factors in that subfield the conjugate of a value is its inverse, and a third of
the exponent makes no difference, as three divides the order of no value that is
left. So with `u` the absolute value of the curve's parameter, the exponent is taken
as

    3 · (q⁶ + 1) / r  =  (q² + 1) · ((u + 1)² · (q − u) · (u² + q² − 1) + 3)
-/

namespace RoundChain.Bls12381

/-! ### The field of values -/

/-- Sums `c₀ + c₁ w + … + c₅ w⁵` with w⁶ = 1 + i. -/
structure Fq12 where
  c0 : Fq2
  c1 : Fq2
  c2 : Fq2
  c3 : Fq2
  c4 : Fq2
  c5 : Fq2
  deriving DecidableEq, Repr

namespace Fq12

/-- One. -/
def one : Fq12 := ⟨1, 0, 0, 0, 0, 0⟩

/-- The product of an element of `Fq2` with 1 + i. -/
def twist (a : Fq2) : Fq2 := ⟨a.re - a.im, a.re + a.im⟩

/-- The product. -/
def mul (a b : Fq12) : Fq12 where
  c0 := a.c0 * b.c0 + twist (a.c1 * b.c5 + a.c2 * b.c4 + a.c3 * b.c3 + a.c4 * b.c2 + a.c5 * b.c1)
  c1 := a.c0 * b.c1 + a.c1 * b.c0 + twist (a.c2 * b.c5 + a.c3 * b.c4 + a.c4 * b.c3 + a.c5 * b.c2)
  c2 := a.c0 * b.c2 + a.c1 * b.c1 + a.c2 * b.c0 + twist (a.c3 * b.c5 + a.c4 * b.c4 + a.c5 * b.c3)
  c3 := a.c0 * b.c3 + a.c1 * b.c2 + a.c2 * b.c1 + a.c3 * b.c0 + twist (a.c4 * b.c5 + a.c5 * b.c4)
  c4 := a.c0 * b.c4 + a.c1 * b.c3 + a.c2 * b.c2 + a.c3 * b.c1 + a.c4 * b.c0 + twist (a.c5 * b.c5)
  c5 := a.c0 * b.c5 + a.c1 * b.c4 + a.c2 * b.c3 + a.c3 * b.c2 + a.c4 * b.c1 + a.c5 * b.c0

instance : Mul Fq12 := ⟨mul⟩

/-- A power. -/
def pow (a : Fq12) (n : Nat) : Fq12 := power (· * ·) one a n

/-- The conjugate over the subfield of degree six: `w` changes its sign. -/
def conjugate (a : Fq12) : Fq12 := ⟨a.c0, -a.c1, a.c2, -a.c3, a.c4, -a.c5⟩

/-- The power of `w` by q − 1. -/
def frobeniusUnit : Fq2 := Fq2.pow ⟨1, 1⟩ ((modulus - 1) / 6)

/-- The power by q. -/
def frobenius (a : Fq12) : Fq12 where
  c0 := a.c0.conjugate
  c1 := a.c1.conjugate * frobeniusUnit
  c2 := a.c2.conjugate * frobeniusUnit.pow 2
  c3 := a.c3.conjugate * frobeniusUnit.pow 3
  c4 := a.c4.conjugate * frobeniusUnit.pow 4
  c5 := a.c5.conjugate * frobeniusUnit.pow 5

/-- Whether an element lies in the subfield of degree six. -/
def inSubfield (a : Fq12) : Bool := a.c1 = 0 && a.c3 = 0 && a.c5 = 0

end Fq12

/-! ### Miller's loop -/

/-- The absolute value of the parameter that the curve is built from. -/
def parameter : Nat := 0xd201000000010000

/-- The line of slope `slope` through the point (x, y), at a point of the other curve. -/
def line (slope x y : Fq2) (px py : Fq) : Fq12 :=
  ⟨slope * x - y, 0, -(Fq2.scale px slope), Fq2.ofFq py, 0, 0⟩

/-- A stage of the loop: a multiple of the point, and the product so far. -/
structure MillerState where
  x : Fq2
  y : Fq2
  value : Fq12

namespace MillerState

/-- Moves to the third point of a line. -/
def follow (s : MillerState) (slope x2 : Fq2) (value : Fq12) : MillerState :=
  let x := slope * slope - s.x - x2
  ⟨x, slope * (s.x - x) - s.y, value⟩

/-- Doubles the point. -/
def double (s : MillerState) (px py : Fq) : MillerState :=
  let x2 := s.x * s.x
  let slope := (x2 + x2 + x2) * (s.y + s.y)⁻¹
  s.follow slope s.x (s.value * s.value * line slope s.x s.y px py)

/-- Adds a point. -/
def add (s : MillerState) (qx qy : Fq2) (px py : Fq) : MillerState :=
  let slope := (qy - s.y) * (qx - s.x)⁻¹
  s.follow slope qx (s.value * line slope s.x s.y px py)

end MillerState

/-- The binary digits of a number, most significant first. -/
def binaryDigits (n : Nat) : List Bool :=
  (List.range (n.log2 + 1)).reverse.map fun i => n.testBit i

/-- The loop for a pair of points; one if either is at infinity. -/
def miller (p : G1) (q : G2) : Fq12 :=
  match p, q with
  | .affine px py, .affine qx qy =>
    let final := (binaryDigits parameter).tail.foldl
      (fun s bit =>
        let s := s.double px py
        if bit then s.add qx qy px py else s)
      (MillerState.mk qx qy Fq12.one)
    final.value
  | _, _ => Fq12.one

/-- The final power of a value, up to a factor in the subfield of degree six. -/
def finalPower (value : Fq12) : Fq12 :=
  let a := value.frobenius.frobenius * value
  let b := (a.pow (parameter + 1)).pow (parameter + 1)
  let c := b.frobenius * (b.pow parameter).conjugate
  (c.pow parameter).pow parameter * c.frobenius.frobenius * c.conjugate * a.pow 3

/-- Whether the pairings of pairs of points multiply to one. -/
def pairingsCancel (pairs : List (G1 × G2)) : Bool :=
  (finalPower (pairs.foldl (fun acc pair => acc * miller pair.1 pair.2) Fq12.one)).inSubfield

end RoundChain.Bls12381
