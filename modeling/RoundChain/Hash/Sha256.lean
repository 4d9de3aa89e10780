import RoundChain.Bytes

/-!
# SHA-256, HMAC and key derivation

The member of the SHA-2 family with 32-bit words, the keyed hash HMAC built on it,
and the extract-and-expand key derivation HKDF built on that. Signing keys are
derived and messages mapped to curve points with these.
-/

namespace RoundChain.Sha256

/-! ### One block -/

/-- Rotation to the right by `k` places. -/
@[inline] def rotr (x k : UInt32) : UInt32 := (x >>> k) ||| (x <<< (32 - k))

/-- The round constants: the first 32 fractional bits of the cube roots of the first sixty-four primes. -/
def roundConstants : List UInt32 :=
  [
    0x428a2f98, 0x71374491, 0xb5c0fbcf, 0xe9b5dba5, 0x3956c25b, 0x59f111f1, 0x923f82a4, 0xab1c5ed5,
    0xd807aa98, 0x12835b01, 0x243185be, 0x550c7dc3, 0x72be5d74, 0x80deb1fe, 0x9bdc06a7, 0xc19bf174,
    0xe49b69c1, 0xefbe4786, 0x0fc19dc6, 0x240ca1cc, 0x2de92c6f, 0x4a7484aa, 0x5cb0a9dc, 0x76f988da,
    0x983e5152, 0xa831c66d, 0xb00327c8, 0xbf597fc7, 0xc6e00bf3, 0xd5a79147, 0x06ca6351, 0x14292967,
    0x27b70a85, 0x2e1b2138, 0x4d2c6dfc, 0x53380d13, 0x650a7354, 0x766a0abb, 0x81c2c92e, 0x92722c85,
    0xa2bfe8a1, 0xa81a664b, 0xc24b8b70, 0xc76c51a3, 0xd192e819, 0xd6990624, 0xf40e3585, 0x106aa070,
    0x19a4c116, 0x1e376c08, 0x2748774c, 0x34b0bcb5, 0x391c0cb3, 0x4ed8aa4a, 0x5b9cca4f, 0x682e6ff3,
    0x748f82ee, 0x78a5636f, 0x84c87814, 0x8cc70208, 0x90befffa, 0xa4506ceb, 0xbef9a3f7, 0xc67178f2]

/-- Eight working words. -/
structure State where
  a : UInt32
  b : UInt32
  c : UInt32
  d : UInt32
  e : UInt32
  f : UInt32
  g : UInt32
  h : UInt32
  deriving DecidableEq, Repr

/-- Where SHA-256 starts: from the square roots of the first eight primes. -/
def initial : State :=
  ⟨0x6a09e667, 0xbb67ae85, 0x3c6ef372, 0xa54ff53a,
    0x510e527f, 0x9b05688c, 0x1f83d9ab, 0x5be0cd19⟩

/-- The 32-bit words of a byte string, most significant byte first; bytes short of a word are dropped. -/
def words : Bytes → List UInt32
  | b₀ :: b₁ :: b₂ :: b₃ :: rest =>
    ((b₀.toUInt32 <<< 24) ||| (b₁.toUInt32 <<< 16) ||| (b₂.toUInt32 <<< 8) ||| b₃.toUInt32) ::
      words rest
  | _ => []

/-- The words of a message schedule so far, the newest first, with one more in front. -/
def extend (w : List UInt32) : List UInt32 :=
  let w₁ := w.getD 14 0
  let w₁₄ := w.getD 1 0
  let s₀ := rotr w₁ 7 ^^^ rotr w₁ 18 ^^^ (w₁ >>> 3)
  let s₁ := rotr w₁₄ 17 ^^^ rotr w₁₄ 19 ^^^ (w₁₄ >>> 10)
  (s₁ + w.getD 6 0 + s₀ + w.getD 15 0) :: w

/-- The message schedule: the block's sixteen words extended to sixty-four. -/
def schedule (block : Bytes) : List UInt32 :=
  ((List.range 48).foldl (fun w _ => extend w) (words block).reverse).reverse

/-- One round, with the round's constant and schedule word already added together. -/
@[inline] def State.round (s : State) (kw : UInt32) : State :=
  let t₁ := s.h + (rotr s.e 6 ^^^ rotr s.e 11 ^^^ rotr s.e 25) +
    ((s.e &&& s.f) ^^^ ((~~~ s.e) &&& s.g)) + kw
  let t₂ := (rotr s.a 2 ^^^ rotr s.a 13 ^^^ rotr s.a 22) +
    ((s.a &&& s.b) ^^^ (s.a &&& s.c) ^^^ (s.b &&& s.c))
  ⟨t₁ + t₂, s.a, s.b, s.c, s.d + t₁, s.e, s.f, s.g⟩

/-- Folds one block of 64 bytes into the state. -/
def compress (s : State) (block : Bytes) : State :=
  let t := (roundConstants.zipWith (· + ·) (schedule block)).foldl State.round s
  ⟨s.a + t.a, s.b + t.b, s.c + t.c, s.d + t.d, s.e + t.e, s.f + t.f, s.g + t.g, s.h + t.h⟩

/-! ### Messages -/

/-- Folds the whole blocks at the front of `bs` into the state; fewer than 64 bytes are dropped at the end. -/
def absorb (s : State) (bs : Bytes) : State :=
  let block := bs.take 64
  if block.length = 64 then absorb (compress s block) (bs.drop 64) else s
termination_by bs.length
decreasing_by
  have h : (bs.take 64).length = 64 := by assumption
  simp only [List.length_take] at h
  simp only [List.length_drop]
  omega

/-- What ends a message of `n` bytes: a one bit, zeros up to the last eight bytes of a block, and the
length in bits. -/
def padding (n : Nat) : Bytes :=
  0x80 :: (List.replicate ((119 - n % 64) % 64) 0 ++ Bytes.ofNatBE 8 (8 * n))

/-- The four bytes of a word, most significant first. -/
def wordBytes (x : UInt32) : Bytes :=
  [(x >>> 24).toUInt8, (x >>> 16).toUInt8, (x >>> 8).toUInt8, x.toUInt8]

/-- The words of a state, in order. -/
def State.bytes (s : State) : Bytes :=
  wordBytes s.a ++ wordBytes s.b ++ wordBytes s.c ++ wordBytes s.d ++
    wordBytes s.e ++ wordBytes s.f ++ wordBytes s.g ++ wordBytes s.h

/-- SHA-256 of a message. -/
def sha256 (message : Bytes) : Bytes :=
  (absorb initial (message ++ padding message.length)).bytes

/-! ### Keyed hashing -/

/-- HMAC with SHA-256. -/
def hmac (key message : Bytes) : Bytes :=
  let key := if key.length ≤ 64 then key else sha256 key
  let block := key ++ List.replicate (64 - key.length) 0
  sha256 (block.map (· ^^^ 0x5c) ++ sha256 (block.map (· ^^^ 0x36) ++ message))

/-- The blocks of HKDF's expansion, each keyed hash taking the one before it and a running count. -/
def expandBlocks (key info : Bytes) : Nat → Nat → Bytes → Bytes
  | 0, _, _ => []
  | n + 1, i, last =>
    let next := hmac key (last ++ info ++ [UInt8.ofNat i])
    next ++ expandBlocks key info n (i + 1) next

/-- HKDF: `len` bytes derived from keying material. -/
def hkdf (salt material info : Bytes) (len : Nat) : Bytes :=
  (expandBlocks (hmac salt material) info ((len + 31) / 32) 1 []).take len

end RoundChain.Sha256
