import RoundChain.Crypto.Power

/-!
# The fields of BLS12-381

`Fq` is the field of integers modulo a prime `q` of 381 bits, and `Fq2` its
extension by a root `i` of −1. Both have square roots by a single power where
there is one, because `q` leaves 3 on division by 4. `order` is the prime number
of points in the groups that signatures use.
-/

namespace RoundChain.Bls12381

/-- The characteristic. -/
def modulus : Nat :=
  0x1a0111ea397fe69a4b1ba7b6434bacd764774b84f38512bf6730d2a0f6b0f6241eabfffeb153ffffb9feffffffffaaab

/-- The number of points in the groups. -/
def order : Nat := 0x73eda753299d7d483339d80809a1d80553bda402fffe5bfeffffffff00000001

theorem modulus_pos : 0 < modulus := Nat.succ_pos (modulus - 1)

/-! ### The prime field -/

/-- Integers modulo `modulus`. -/
abbrev Fq := Fin modulus

namespace Fq

/-- The residue of a number. -/
def ofNat (n : Nat) : Fq := ⟨n % modulus, Nat.mod_lt n modulus_pos⟩

instance : Zero Fq := ⟨ofNat 0⟩

instance : One Fq := ⟨ofNat 1⟩

/-- A power. -/
def pow (a : Fq) (n : Nat) : Fq := power (· * ·) 1 a n

/-- The inverse, and zero for zero: the power by two less than the modulus. -/
def inverse (a : Fq) : Fq := a.pow (modulus - 2)

instance : Inv Fq := ⟨inverse⟩

/-- A square root. -/
def sqrt? (a : Fq) : Option Fq :=
  let s := a.pow ((modulus + 1) / 4)
  if s * s = a then some s else none

/-- Of an element and its opposite the one with the larger residue. -/
def isLarger (a : Fq) : Bool := decide ((modulus - 1) / 2 < a.val)

end Fq

/-! ### The quadratic extension -/

/-- Sums `re + im · i` with i² = −1. -/
structure Fq2 where
  re : Fq
  im : Fq
  deriving DecidableEq, Repr

namespace Fq2

/-- An element of the prime field. -/
def ofFq (a : Fq) : Fq2 := ⟨a, 0⟩

instance : Zero Fq2 := ⟨⟨0, 0⟩⟩

instance : One Fq2 := ⟨⟨1, 0⟩⟩

instance : Add Fq2 := ⟨fun a b => ⟨a.re + b.re, a.im + b.im⟩⟩

instance : Sub Fq2 := ⟨fun a b => ⟨a.re - b.re, a.im - b.im⟩⟩

instance : Neg Fq2 := ⟨fun a => ⟨-a.re, -a.im⟩⟩

/-- The product, with three products of the prime field. -/
def mul (a b : Fq2) : Fq2 :=
  let rr := a.re * b.re
  let ii := a.im * b.im
  ⟨rr - ii, (a.re + a.im) * (b.re + b.im) - rr - ii⟩

instance : Mul Fq2 := ⟨mul⟩

/-- A multiple by an element of the prime field. -/
def scale (k : Fq) (a : Fq2) : Fq2 := ⟨k * a.re, k * a.im⟩

/-- The conjugate, which is the power by q: `i` changes its sign. -/
def conjugate (a : Fq2) : Fq2 := ⟨a.re, -a.im⟩

/-- A power. -/
def pow (a : Fq2) (n : Nat) : Fq2 := power (· * ·) 1 a n

/-- The norm, which lies in the prime field. -/
def norm (a : Fq2) : Fq := a.re * a.re + a.im * a.im

/-- The inverse, and zero for zero. -/
def inverse (a : Fq2) : Fq2 :=
  let n := a.norm⁻¹
  ⟨a.re * n, -(a.im * n)⟩

instance : Inv Fq2 := ⟨inverse⟩

/-- A square root of a real element: real, or a multiple of i. -/
def sqrtReal? (a : Fq) : Option Fq2 :=
  match a.sqrt? with
  | some s => some ⟨s, 0⟩
  | none => (-a).sqrt?.map fun s => ⟨0, s⟩

/-- The root whose real part is `c`, where c² is half of the real part plus a root of the norm. -/
def rootOf (a : Fq2) (c : Fq) : Fq2 := ⟨c, a.im * (c + c)⁻¹⟩

/-- A square root. -/
def sqrt? (a : Fq2) : Option Fq2 :=
  if a.im = 0 then sqrtReal? a.re
  else do
    let s ← a.norm.sqrt?
    let half := (Fq.ofNat 2)⁻¹
    match ((a.re + s) * half).sqrt? with
    | some c => return rootOf a c
    | none => return rootOf a (← ((a.re - s) * half).sqrt?)

/-- Of an element and its opposite the larger one; the imaginary part decides unless it is zero. -/
def isLarger (a : Fq2) : Bool := if a.im = 0 then a.re.isLarger else a.im.isLarger

/-- The sign: the parity of the real part, or of the imaginary part if the real part is zero. -/
def isOdd (a : Fq2) : Bool := if a.re = 0 then a.im.val % 2 = 1 else a.re.val % 2 = 1

end Fq2

end RoundChain.Bls12381
