import RoundChain.Bytes

/-!
# SHA-512 and SHA-384

The two members of the SHA-2 family with 64-bit words. They differ in the words
they start from and in how much of the last state they give out.

## The model

A `State` is eight words. `compress` folds one block of 128 bytes into it;
`absorb` folds in as many whole blocks as a byte string has and hands back the
bytes left over, fewer than 128 of them. A message is digested by absorbing it
followed by `padding`, which ends it on a block boundary: one bit, zeros, and the
message's length in bits.
-/

namespace RoundChain.Sha512

/-! ### Words -/

/-- Rotation to the right by `k` places. -/
@[inline] def rotr (x k : UInt64) : UInt64 := (x >>> k) ||| (x <<< (64 - k))

/-- The round constants: the first 64 fractional bits of the cube roots of the first eighty primes. -/
def roundConstants : List UInt64 :=
  [
    0x428a2f98d728ae22, 0x7137449123ef65cd, 0xb5c0fbcfec4d3b2f, 0xe9b5dba58189dbbc,
    0x3956c25bf348b538, 0x59f111f1b605d019, 0x923f82a4af194f9b, 0xab1c5ed5da6d8118,
    0xd807aa98a3030242, 0x12835b0145706fbe, 0x243185be4ee4b28c, 0x550c7dc3d5ffb4e2,
    0x72be5d74f27b896f, 0x80deb1fe3b1696b1, 0x9bdc06a725c71235, 0xc19bf174cf692694,
    0xe49b69c19ef14ad2, 0xefbe4786384f25e3, 0x0fc19dc68b8cd5b5, 0x240ca1cc77ac9c65,
    0x2de92c6f592b0275, 0x4a7484aa6ea6e483, 0x5cb0a9dcbd41fbd4, 0x76f988da831153b5,
    0x983e5152ee66dfab, 0xa831c66d2db43210, 0xb00327c898fb213f, 0xbf597fc7beef0ee4,
    0xc6e00bf33da88fc2, 0xd5a79147930aa725, 0x06ca6351e003826f, 0x142929670a0e6e70,
    0x27b70a8546d22ffc, 0x2e1b21385c26c926, 0x4d2c6dfc5ac42aed, 0x53380d139d95b3df,
    0x650a73548baf63de, 0x766a0abb3c77b2a8, 0x81c2c92e47edaee6, 0x92722c851482353b,
    0xa2bfe8a14cf10364, 0xa81a664bbc423001, 0xc24b8b70d0f89791, 0xc76c51a30654be30,
    0xd192e819d6ef5218, 0xd69906245565a910, 0xf40e35855771202a, 0x106aa07032bbd1b8,
    0x19a4c116b8d2d0c8, 0x1e376c085141ab53, 0x2748774cdf8eeb99, 0x34b0bcb5e19b48a8,
    0x391c0cb3c5c95a63, 0x4ed8aa4ae3418acb, 0x5b9cca4f7763e373, 0x682e6ff3d6b2b8a3,
    0x748f82ee5defb2fc, 0x78a5636f43172f60, 0x84c87814a1f0ab72, 0x8cc702081a6439ec,
    0x90befffa23631e28, 0xa4506cebde82bde9, 0xbef9a3f7b2c67915, 0xc67178f2e372532b,
    0xca273eceea26619c, 0xd186b8c721c0c207, 0xeada7dd6cde0eb1e, 0xf57d4f7fee6ed178,
    0x06f067aa72176fba, 0x0a637dc5a2c898a6, 0x113f9804bef90dae, 0x1b710b35131c471b,
    0x28db77f523047d84, 0x32caab7b40c72493, 0x3c9ebe0a15c9bebc, 0x431d67c49c100d4c,
    0x4cc5d4becb3e42b6, 0x597f299cfc657e2a, 0x5fcb6fab3ad6faec, 0x6c44198c4a475817]

/-- Eight working words. -/
structure State where
  a : UInt64
  b : UInt64
  c : UInt64
  d : UInt64
  e : UInt64
  f : UInt64
  g : UInt64
  h : UInt64
  deriving DecidableEq, Repr

/-- Where SHA-512 starts: from the square roots of the first eight primes. -/
def initial512 : State :=
  ⟨0x6a09e667f3bcc908, 0xbb67ae8584caa73b, 0x3c6ef372fe94f82b, 0xa54ff53a5f1d36f1,
    0x510e527fade682d1, 0x9b05688c2b3e6c1f, 0x1f83d9abfb41bd6b, 0x5be0cd19137e2179⟩

/-- Where SHA-384 starts: from the square roots of the ninth to the sixteenth prime. -/
def initial384 : State :=
  ⟨0xcbbb9d5dc1059ed8, 0x629a292a367cd507, 0x9159015a3070dd17, 0x152fecd8f70e5939,
    0x67332667ffc00b31, 0x8eb44a8768581511, 0xdb0c2e0d64f98fa7, 0x47b5481dbefa4fa4⟩

/-! ### One block -/

/-- The 64-bit words of a byte string, most significant byte first; bytes short of a word are dropped. -/
def words : Bytes → List UInt64
  | b₀ :: b₁ :: b₂ :: b₃ :: b₄ :: b₅ :: b₆ :: b₇ :: rest =>
    ((b₀.toUInt64 <<< 56) ||| (b₁.toUInt64 <<< 48) ||| (b₂.toUInt64 <<< 40) |||
      (b₃.toUInt64 <<< 32) ||| (b₄.toUInt64 <<< 24) ||| (b₅.toUInt64 <<< 16) |||
      (b₆.toUInt64 <<< 8) ||| b₇.toUInt64) :: words rest
  | _ => []

/-- The words of a message schedule so far, the newest first, with one more in front. -/
def extend (w : List UInt64) : List UInt64 :=
  let w₁ := w.getD 14 0
  let w₁₄ := w.getD 1 0
  let s₀ := rotr w₁ 1 ^^^ rotr w₁ 8 ^^^ (w₁ >>> 7)
  let s₁ := rotr w₁₄ 19 ^^^ rotr w₁₄ 61 ^^^ (w₁₄ >>> 6)
  (s₁ + w.getD 6 0 + s₀ + w.getD 15 0) :: w

/-- The message schedule: the block's sixteen words extended to eighty. -/
def schedule (block : Bytes) : List UInt64 :=
  ((List.range 64).foldl (fun w _ => extend w) (words block).reverse).reverse

/-- One round, with the round's constant and schedule word already added together. -/
@[inline] def State.round (s : State) (kw : UInt64) : State :=
  let t₁ := s.h + (rotr s.e 14 ^^^ rotr s.e 18 ^^^ rotr s.e 41) +
    ((s.e &&& s.f) ^^^ ((~~~ s.e) &&& s.g)) + kw
  let t₂ := (rotr s.a 28 ^^^ rotr s.a 34 ^^^ rotr s.a 39) +
    ((s.a &&& s.b) ^^^ (s.a &&& s.c) ^^^ (s.b &&& s.c))
  ⟨t₁ + t₂, s.a, s.b, s.c, s.d + t₁, s.e, s.f, s.g⟩

/-- Folds one block into the state. -/
def compress (s : State) (block : Bytes) : State :=
  let t := (roundConstants.zipWith (· + ·) (schedule block)).foldl State.round s
  ⟨s.a + t.a, s.b + t.b, s.c + t.c, s.d + t.d, s.e + t.e, s.f + t.f, s.g + t.g, s.h + t.h⟩

/-! ### Messages -/

/-- Folds the whole blocks at the front of `bs` into the state; the bytes left over are fewer than 128. -/
def absorb (s : State) (bs : Bytes) : State × Bytes :=
  let block := bs.take 128
  if block.length = 128 then absorb (compress s block) (bs.drop 128) else (s, bs)
termination_by bs.length
decreasing_by
  have h : (bs.take 128).length = 128 := by assumption
  simp only [List.length_take] at h
  simp only [List.length_drop]
  omega

theorem absorb_of_length_lt {s : State} {bs : Bytes} (h : bs.length < 128) : absorb s bs = (s, bs) := by
  rw [absorb, if_neg]
  simp only [List.length_take]
  omega

/-- Absorbing a message in two pieces is absorbing it whole. -/
theorem absorb_append (s : State) (xs ys : Bytes) :
    absorb s (xs ++ ys) = absorb (absorb s xs).1 ((absorb s xs).2 ++ ys) := by
  fun_induction absorb s xs with
  | case1 s xs block hb ih =>
    have hl : 128 ≤ xs.length := by
      have : (xs.take 128).length = 128 := hb
      simp only [List.length_take] at this
      omega
    have htake : (xs ++ ys).take 128 = xs.take 128 := List.take_append_of_le_length hl
    have hdrop : (xs ++ ys).drop 128 = xs.drop 128 ++ ys := List.drop_append_of_le_length hl
    rw [absorb, if_pos (by rw [htake]; exact hb), htake, hdrop, ih]
  | case2 s xs block hb => rfl

/-- What ends a message of `n` bytes: a one bit, zeros up to the last sixteen bytes of a block, and
the length in bits. -/
def padding (n : Nat) : Bytes :=
  0x80 :: (List.replicate ((239 - n % 128) % 128) 0 ++ Bytes.ofNatBE 16 (8 * n))

/-- The state after a whole message. -/
def run (start : State) (message : Bytes) : State :=
  (absorb start (message ++ padding message.length)).1

/-- The eight bytes of a word, most significant first. -/
def wordBytes (x : UInt64) : Bytes :=
  [(x >>> 56).toUInt8, (x >>> 48).toUInt8, (x >>> 40).toUInt8, (x >>> 32).toUInt8,
    (x >>> 24).toUInt8, (x >>> 16).toUInt8, (x >>> 8).toUInt8, x.toUInt8]

/-- The first six words of a state. -/
def State.bytes48 (s : State) : Bytes :=
  wordBytes s.a ++ wordBytes s.b ++ wordBytes s.c ++ wordBytes s.d ++ wordBytes s.e ++ wordBytes s.f

/-- All eight words of a state. -/
def State.bytes64 (s : State) : Bytes := s.bytes48 ++ wordBytes s.g ++ wordBytes s.h

/-- SHA-384 of a message. -/
def sha384 (message : Bytes) : Bytes := (run initial384 message).bytes48

/-- SHA-512 of a message. -/
def sha512 (message : Bytes) : Bytes := (run initial512 message).bytes64

@[simp] theorem length_sha384 (message : Bytes) : (sha384 message).length = 48 := rfl

end RoundChain.Sha512
