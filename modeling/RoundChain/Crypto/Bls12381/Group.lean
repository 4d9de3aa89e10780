import RoundChain.Bytes
import RoundChain.Crypto.Bls12381.Field
import RoundChain.Crypto.Weierstrass

/-!
# The groups of BLS12-381

Public keys are points of y² = x³ + 4 over `Fq`, signatures are points of
y² = x³ + 4 + 4i over `Fq2`. Each curve has one subgroup of prime order, and only
its points are of use; a point read from bytes lies on its curve, and
`inSubgroup` says whether it lies in the subgroup as well.

The compressed form of a point is its x-coordinate, big end first, with three
flags in its highest bits: that it is compressed, that it is the point at
infinity, and that its y is the larger of two.
-/

namespace RoundChain.Bls12381

/-- Points over the prime field. -/
abbrev G1 := Point Fq

/-- Points over the quadratic extension. -/
abbrev G2 := Point Fq2

/-- Whether a point over the prime field lies in the subgroup. -/
def G1.inSubgroup (p : G1) : Bool := ((Jacobian.ofPoint p).smul order).z = 0

/-- Whether a point over the quadratic extension lies in the subgroup. -/
def G2.inSubgroup (p : G2) : Bool := ((Jacobian.ofPoint p).smul order).z = 0

/-- The point that generates the subgroup over the prime field. -/
def G1.generator : G1 :=
  .affine
    (Fq.ofNat 0x17f1d3a73197d7942695638c4fa9ac0fc3688c4f9774b905a14e3a3f171bac586c55e83ff97a1aeffb3af00adb22c6bb)
    (Fq.ofNat 0x08b3f481e3aaa0f1a09e30ed741d8ae4fcf5e095d5d00af600db18cb2c04b3edd03cc744a2888ae40caa232946c5e7e1)

/-! ### Compressed points -/

/-- Bytes of a field element. -/
def fieldLength : Nat := 48

/-- The three flags in the highest bits of a byte. -/
structure PointFlags where
  compressed : Bool
  infinite : Bool
  larger : Bool
  deriving DecidableEq, Repr

namespace PointFlags

/-- The flags in a byte. -/
def ofByte (b : UInt8) : PointFlags :=
  ⟨b.toNat / 128 = 1, b.toNat / 64 % 2 = 1, b.toNat / 32 % 2 = 1⟩

/-- The byte with these flags and no other bit. -/
def toByte (f : PointFlags) : UInt8 :=
  UInt8.ofNat ((if f.compressed then 128 else 0) + (if f.infinite then 64 else 0) +
    (if f.larger then 32 else 0))

end PointFlags

/-- The element with the given bytes, unless they spell a number too large. -/
def Fq.ofBytes? (bs : Bytes) : Option Fq :=
  let n := Bytes.toNatBE bs
  if n < modulus then some (Fq.ofNat n) else none

/-- The bytes of an element. -/
def Fq.toBytes (a : Fq) : Bytes := Bytes.ofNatBE fieldLength a.val

/-- The bytes of an element, imaginary part first. -/
def Fq2.toBytes (a : Fq2) : Bytes := a.im.toBytes ++ a.re.toBytes

/-- The element with the given bytes, imaginary part first. -/
def Fq2.ofBytes? (bs : Bytes) : Option Fq2 := do
  let im ← Fq.ofBytes? (bs.take fieldLength)
  return ⟨← Fq.ofBytes? (bs.drop fieldLength), im⟩

/-- Bytes with flags set in the first of them. -/
def withFlags (flags : PointFlags) : Bytes → Bytes
  | [] => []
  | b :: rest => (b ||| flags.toByte) :: rest

/-- The flags in the first byte, and the bytes without them. -/
def splitFlags? : Bytes → Option (PointFlags × Bytes)
  | [] => none
  | b :: rest => some (.ofByte b, (b &&& 0x1f) :: rest)

/-- The compressed form of a point at infinity, in so many bytes. -/
def infinityBytes (length : Nat) : Bytes :=
  withFlags ⟨true, true, false⟩ (List.replicate length 0)

/-- Reads a compressed point: infinity only in its one form, and any other point by `ofX?`, which is
told its x-coordinate and which of two y to take. -/
def decompress? {F : Type} (ofX? : Bytes → Bool → Option (Point F)) (bs : Bytes) :
    Option (Point F) := do
  let (flags, x) ← splitFlags? bs
  if !flags.compressed then none
  else if flags.infinite then
    if !flags.larger && x.all (· == 0) then some .infinity else none
  else ofX? x flags.larger

namespace G1

/-- The right-hand side of the curve's equation. -/
def rhs (x : Fq) : Fq := x * x * x + Fq.ofNat 4

/-- The point with an x-coordinate and the larger or smaller of its two y. The x-coordinate zero has
points, but none of the subgroup, and is refused. -/
def ofX? (bs : Bytes) (larger : Bool) : Option G1 := do
  let x ← Fq.ofBytes? bs
  if x = 0 then none
  else
    let y ← (rhs x).sqrt?
    return .affine x (if y.isLarger = larger then y else -y)

/-- Reads the 48 bytes of a compressed point. -/
def ofBytes? (bs : Bytes) : Option G1 := decompress? ofX? bs

/-- The compressed form. -/
def toBytes : G1 → Bytes
  | .infinity => infinityBytes fieldLength
  | .affine x y => withFlags ⟨true, false, y.isLarger⟩ x.toBytes

end G1

namespace G2

/-- The right-hand side of the curve's equation. -/
def rhs (x : Fq2) : Fq2 := x * x * x + ⟨Fq.ofNat 4, Fq.ofNat 4⟩

/-- The point with an x-coordinate and the larger or smaller of its two y. -/
def ofX? (bs : Bytes) (larger : Bool) : Option G2 := do
  let x ← Fq2.ofBytes? bs
  let y ← (rhs x).sqrt?
  return .affine x (if y.isLarger = larger then y else -y)

/-- Reads the 96 bytes of a compressed point. -/
def ofBytes? (bs : Bytes) : Option G2 := decompress? ofX? bs

/-- The compressed form. -/
def toBytes : G2 → Bytes
  | .infinity => infinityBytes (2 * fieldLength)
  | .affine x y => withFlags ⟨true, false, y.isLarger⟩ x.toBytes

end G2

end RoundChain.Bls12381
