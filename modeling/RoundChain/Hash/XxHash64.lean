import RoundChain.Bytes

/-!
# XXH64

A fast hash of 64 bits that is no safeguard against an adversary; frames of
compressed data carry its low half as a checksum.

## The model

Content is taken in stripes of 32 bytes by four lanes of a word each. The lanes are
merged, the length is added, and what is left of the content is taken in words of
eight, four and one bytes.
-/

namespace RoundChain.XxHash64

/-- The five primes that words are multiplied by. -/
def prime₁ : UInt64 := 0x9E3779B185EBCA87
/-- The second prime. -/
def prime₂ : UInt64 := 0xC2B2AE3D27D4EB4F
/-- The third prime. -/
def prime₃ : UInt64 := 0x165667B19E3779F9
/-- The fourth prime. -/
def prime₄ : UInt64 := 0x85EBCA77C2B2AE63
/-- The fifth prime. -/
def prime₅ : UInt64 := 0x27D4EB2F165667C5

/-- Rotation to the left by `k` places. -/
@[inline] def rotl (x k : UInt64) : UInt64 := (x <<< k) ||| (x >>> (64 - k))

/-- The word that bytes spell, least significant first. -/
def word (bs : Bytes) : UInt64 := UInt64.ofNat (Bytes.toNatLE bs)

/-- Takes a word into a lane. -/
def mix (lane input : UInt64) : UInt64 := rotl (lane + input * prime₂) 31 * prime₁

/-- Takes a lane into the merged lanes. -/
def merge (hash lane : UInt64) : UInt64 := (hash ^^^ mix 0 lane) * prime₁ + prime₄

/-- The four lanes. -/
structure Lanes where
  a : UInt64
  b : UInt64
  c : UInt64
  d : UInt64
  deriving DecidableEq, Repr

/-- The lanes before the first stripe. -/
def Lanes.initial : Lanes := ⟨prime₁ + prime₂, prime₂, 0, 0 - prime₁⟩

/-- The lanes after a stripe. -/
def Lanes.take (l : Lanes) (stripe : Bytes) : Lanes :=
  let part := fun k => word ((stripe.drop (8 * k)).take 8)
  ⟨mix l.a (part 0), mix l.b (part 1), mix l.c (part 2), mix l.d (part 3)⟩

/-- The lanes as one word. -/
def Lanes.merged (l : Lanes) : UInt64 :=
  [l.a, l.b, l.c, l.d].foldl merge (rotl l.a 1 + rotl l.b 7 + rotl l.c 12 + rotl l.d 18)

/-- The lanes after a number of stripes, and what is left of the content. -/
def stripes : Nat → Lanes → Bytes → Lanes × Bytes
  | 0, lanes, bs => (lanes, bs)
  | count + 1, lanes, bs => stripes count (lanes.take (bs.take 32)) (bs.drop 32)

/-- Takes what is left of the content, less than a stripe. -/
def tail (hash : UInt64) (bs : Bytes) : UInt64 :=
  let eights := bs.length / 8
  let hash := (List.range eights).foldl (fun hash k =>
    rotl (hash ^^^ mix 0 (word ((bs.drop (8 * k)).take 8))) 27 * prime₁ + prime₄) hash
  let bs := bs.drop (8 * eights)
  let four := 4 ≤ bs.length
  let hash :=
    if four then rotl (hash ^^^ word (bs.take 4) * prime₁) 23 * prime₂ + prime₃ else hash
  (bs.drop (if four then 4 else 0)).foldl
    (fun hash b => rotl (hash ^^^ b.toUInt64 * prime₅) 11 * prime₁) hash

/-- Spreads every bit of a word over all of it. -/
def avalanche (hash : UInt64) : UInt64 :=
  let hash := (hash ^^^ hash >>> 33) * prime₂
  let hash := (hash ^^^ hash >>> 29) * prime₃
  hash ^^^ hash >>> 32

/-- The hash of content. -/
def hash (content : Bytes) : UInt64 :=
  let count := content.length / 32
  let (lanes, rest) := stripes count .initial content
  let start := if count = 0 then prime₅ else lanes.merged
  avalanche (tail (start + UInt64.ofNat content.length) rest)

end RoundChain.XxHash64
