import RoundChain.Crypto.Bls12381.Group
import RoundChain.Hash.Sha256

/-!
# Hashing to the curve

A message becomes a point of the signature group (by the suite
`BLS12381G2_XMD:SHA-256_SSWU_RO_`): it is expanded to 256 bytes, which give two
elements of `Fq2`; each is mapped to a curve isogenous to the signature curve and
from there to the signature curve itself; the sum of both points, taken a fixed
number of times, lies in the subgroup.
-/

namespace RoundChain.Bls12381

open Sha256 (sha256)

/-! ### Expanding a message -/

/-- Bytes combined by exclusive or. -/
def xorBytes (a b : Bytes) : Bytes := a.zipWith (· ^^^ ·) b

/-- The blocks of an expanded message from the one with number `i` on; each digests the one before,
mixed with `first`. -/
def expandBlocks (first tag previous : Bytes) : Nat → Nat → List Bytes
  | 0, _ => []
  | count + 1, i =>
    let block := sha256 (xorBytes first previous ++ UInt8.ofNat i :: tag)
    block :: expandBlocks first tag block count (i + 1)

/-- A message expanded to `32 * blocks` bytes, in the domain of a tag shorter than 256 bytes. -/
def expandMessage (message tag : Bytes) (blocks : Nat) : Bytes :=
  let tag := tag ++ [UInt8.ofNat tag.length]
  let first :=
    sha256 (List.replicate 64 0 ++ message ++ Bytes.ofNatBE 2 (32 * blocks) ++ 0 :: tag)
  (expandBlocks first tag (List.replicate 32 0) blocks 1).flatten

/-- The field element that 64 bytes give. -/
def elementOf (bs : Bytes) : Fq := Fq.ofNat (Bytes.toNatBE bs)

/-- The two elements that a message gives. -/
def hashToField (message tag : Bytes) : Fq2 × Fq2 :=
  let bs := expandMessage message tag 8
  let part := fun k => elementOf ((bs.drop (64 * k)).take 64)
  (⟨part 0, part 1⟩, ⟨part 2, part 3⟩)

/-! ### The isogenous curve -/

/-- The linear coefficient of the isogenous curve. -/
def isogenousA : Fq2 := ⟨0, Fq.ofNat 240⟩

/-- The constant coefficient of the isogenous curve. -/
def isogenousB : Fq2 := ⟨Fq.ofNat 1012, Fq.ofNat 1012⟩

/-- An element that is no square: −(2 + i). -/
def nonSquare : Fq2 := -⟨Fq.ofNat 2, 1⟩

/-- A point of the isogenous curve for an element: of two candidates for x, the first that has a
y; the sign of y is that of the element. -/
def mapToIsogenous (u : Fq2) : Fq2 × Fq2 :=
  let zu := nonSquare * (u * u)
  let t := zu * zu + zu
  let x1 :=
    if t = 0 then isogenousB * (nonSquare * isogenousA)⁻¹
    else -isogenousB * isogenousA⁻¹ * (1 + t⁻¹)
  let rhs := fun x : Fq2 => x * x * x + isogenousA * x + isogenousB
  let (x, y) :=
    match (rhs x1).sqrt? with
    | some y => (x1, y)
    | none =>
      let x2 := zu * x1
      (x2, (rhs x2).sqrt?.getD 0)
  (x, if u.isOdd = y.isOdd then y else -y)

/-- The value of a polynomial, given by its coefficients from the constant one on. -/
def evaluate (coefficients : List Fq2) (x : Fq2) : Fq2 :=
  coefficients.foldr (fun k acc => acc * x + k) 0

/-- An element from two numbers. -/
def coefficient (re im : Nat) : Fq2 := ⟨Fq.ofNat re, Fq.ofNat im⟩

/-- The numerator of the isogeny's x-coordinate. -/
def isogenyXNum : List Fq2 :=
  [coefficient
      0x5c759507e8e333ebb5b7a9a47d7ed8532c52d39fd3a042a88b58423c50ae15d5c2638e343d9c71c6238aaaaaaaa97d6
      0x5c759507e8e333ebb5b7a9a47d7ed8532c52d39fd3a042a88b58423c50ae15d5c2638e343d9c71c6238aaaaaaaa97d6,
    coefficient 0
      0x11560bf17baa99bc32126fced787c88f984f87adf7ae0c7f9a208c6b4f20a4181472aaa9cb8d555526a9ffffffffc71a,
    coefficient
      0x11560bf17baa99bc32126fced787c88f984f87adf7ae0c7f9a208c6b4f20a4181472aaa9cb8d555526a9ffffffffc71e
      0x8ab05f8bdd54cde190937e76bc3e447cc27c3d6fbd7063fcd104635a790520c0a395554e5c6aaaa9354ffffffffe38d,
    coefficient
      0x171d6541fa38ccfaed6dea691f5fb614cb14b4e7f4e810aa22d6108f142b85757098e38d0f671c7188e2aaaaaaaa5ed1
      0]

/-- The denominator of the isogeny's x-coordinate. -/
def isogenyXDen : List Fq2 :=
  [coefficient 0 (modulus - 72), coefficient 12 (modulus - 12), 1]

/-- The numerator of the isogeny's y-coordinate, a multiple of y. -/
def isogenyYNum : List Fq2 :=
  [coefficient
      0x1530477c7ab4113b59a4c18b076d11930f7da5d4a07f649bf54439d87d27e500fc8c25ebf8c92f6812cfc71c71c6d706
      0x1530477c7ab4113b59a4c18b076d11930f7da5d4a07f649bf54439d87d27e500fc8c25ebf8c92f6812cfc71c71c6d706,
    coefficient 0
      0x5c759507e8e333ebb5b7a9a47d7ed8532c52d39fd3a042a88b58423c50ae15d5c2638e343d9c71c6238aaaaaaaa97be,
    coefficient
      0x11560bf17baa99bc32126fced787c88f984f87adf7ae0c7f9a208c6b4f20a4181472aaa9cb8d555526a9ffffffffc71c
      0x8ab05f8bdd54cde190937e76bc3e447cc27c3d6fbd7063fcd104635a790520c0a395554e5c6aaaa9354ffffffffe38f,
    coefficient
      0x124c9ad43b6cf79bfbf7043de3811ad0761b0f37a1e26286b0e977c69aa274524e79097a56dc4bd9e1b371c71c718b10
      0]

/-- The denominator of the isogeny's y-coordinate. -/
def isogenyYDen : List Fq2 :=
  [coefficient (modulus - 432) (modulus - 432), coefficient 0 (modulus - 216),
    coefficient 18 (modulus - 18), 1]

/-- The isogeny to the signature curve; a pole goes to the point at infinity. -/
def isogeny (p : Fq2 × Fq2) : G2 :=
  let (x, y) := p
  let xDen := evaluate isogenyXDen x
  let yDen := evaluate isogenyYDen x
  if xDen = 0 ∨ yDen = 0 then .infinity
  else .affine (evaluate isogenyXNum x * xDen⁻¹) (y * evaluate isogenyYNum x * yDen⁻¹)

/-! ### The hash -/

/-- The multiple that takes every point of the signature curve into the subgroup. -/
def cofactor : Nat :=
  0xbc69f08f2ee75b3584c6a0ea91b352888e2a8e9145ad7689986ff031508ffe1329c2f178731db956d82bf015d1212b02ec0ec69d7477c1ae954cbc06689f6a359894c0adebbf6b4e8020005aaa95551

/-- The point of the subgroup that a message stands for, in the domain of a tag. -/
def hashToCurve (message tag : Bytes) : G2 :=
  let (u, v) := hashToField message tag
  ((isogeny (mapToIsogenous u)).add (isogeny (mapToIsogenous v))).smul cofactor

end RoundChain.Bls12381
