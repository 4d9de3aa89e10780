import RoundChain.Zstandard.Early
import RoundChain.Zstandard.Frame

/-!
# Compressed content

Content is compressed into one frame or into several, one after the other, between
which there may be frames to skip. `compress` writes one frame whose blocks are stored
as they are; `decompress` reads any frames.

## The model

Content is handed over in portions, which go to a sink that grows by doubling. The
room that a frame finds is that of the next portion.
-/

namespace RoundChain.Zstandard

/-! ### Writing -/

/-- The three bytes before a block: whether it is the last, its kind and its size. -/
def blockHeader (last : Bool) (kind size : Nat) : Bytes :=
  Bytes.ofNatLE 3 ((if last then 1 else 0) + 2 * kind + 8 * size)

/-- Content cut into stored blocks. -/
def storedBlocks (content : Bytes) : Bytes :=
  let front := content.take maxBlock
  if maxBlock < content.length then
    blockHeader false 0 front.length ++ front ++ storedBlocks (content.drop maxBlock)
  else
    blockHeader true 0 front.length ++ front
termination_by content.length
decreasing_by
  simp only [List.length_drop, maxBlock] at *
  omega

/-- One frame with the content: a header that tells a window of two mebibytes, then stored blocks. -/
def compress (content : Bytes) : Bytes := magic ++ 0 :: 0x58 :: storedBlocks content

/-! ### Portions -/

/-- A sink that takes portions of content. -/
structure Sink where
  length : Nat
  capacity : Nat
  /-- The largest portion. -/
  portion : Nat
  deriving DecidableEq, Repr

namespace Sink

/-- A sink that has taken nothing. -/
def empty : Sink := ⟨0, 0, 8192⟩

/-- The sink with room for more. The first portion has 32 bytes; the sink is then made large enough for what it
holds, and for eight bytes at least. -/
def grown (s : Sink) : Sink :=
  if s.length = s.capacity && s.capacity ≠ 0 then
    { s with capacity := max (2 * s.capacity) (s.length + 32) }
  else s

/-- The size of the next portion. -/
def room (s : Sink) : Nat :=
  if s.capacity = 0 then 32 else min (s.grown.capacity - s.length) s.portion

/-- The sink after a number of bytes, in portions that are full but for the last. The fuel bounds the number
of portions. -/
def take : Nat → Nat → Sink → Sink
  | 0, _, s => s
  | fuel + 1, count, s =>
    if count = 0 then s
    else
      let s := s.grown
      let room := s.room
      let front := min count room
      let next : Sink :=
        { length := s.length + front
          capacity := if s.capacity = 0 then max front 8 else s.capacity
          portion := if s.capacity ≠ 0 && room = s.portion && front = room then 2 * s.portion
            else s.portion }
      take fuel (count - front) next

end Sink

/-! ### Reading -/

/-- The first four bytes of a frame to skip are these, but for the low half of the first. -/
def isSkippable (front : Bytes) : Bool :=
  match front with
  | [] => true
  | b :: rest => (0x50 ≤ b && b ≤ 0x5f) && rest.isPrefixOf [0x2a, 0x4d, 0x18]

/-- How far reading has come. -/
structure Progress where
  content : Bytes := []
  buffers : Buffers := {}
  sink : Sink := .empty

/-- What has been read, with the content of a further frame. -/
def Progress.add (p : Progress) (content : Bytes) (buffers : Buffers) : Progress :=
  ⟨p.content ++ content, buffers, p.sink.take (content.length + 1) content.length⟩

/-- Reads one frame, and gives what follows it. What its first bytes are is looked at as soon as there are any,
but it takes five of them to see an early version. -/
def readNext (p : Progress) (bs : Bytes) : Except Fault (Progress × Bytes) := do
  let front := bs.take 4
  let rest := bs.drop 4
  if front.isPrefixOf magic then
    if rest.isEmpty then .error .incomplete
    let (content, buffers, rest) ← readFrame p.sink.room p.buffers rest
    return (p.add content buffers, rest)
  else if isSkippable front then
    if rest.isEmpty then .error .incomplete
    let (size, rest) ← takeNat 4 rest
    return (p, (← takeBytes size rest).2)
  else
    match if rest.isEmpty then none else earlyVersion? front with
    | none => .error .unknownDescriptor
    | some version =>
      let (content, rest) ← EarlyFrame.read version rest
      return (p.add content p.buffers, rest)

/-- The content of all frames, one after the other. The fuel bounds their number. -/
def readAll : Nat → Progress → Bytes → Except Fault Bytes
  | 0, _, _ => .error .incomplete
  | fuel + 1, p, bs => do
    let (p, rest) ← readNext p bs
    if rest.isEmpty then return p.content else readAll fuel p rest

/-- The content that a string of whole frames holds. -/
def decompress (bs : Bytes) : Except Fault Bytes := readAll (bs.length + 1) {} bs

end RoundChain.Zstandard
