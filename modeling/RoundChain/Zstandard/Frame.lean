import RoundChain.Hash.XxHash64
import RoundChain.Zstandard.Header
import RoundChain.Zstandard.Sequences

/-!
# Frames

Behind its header a frame has blocks, of which the last one is marked, and a
checksum if the header says so. A block is stored as it is, is one byte repeated, or
is compressed.

## The model

A frame is read in one of two ways. It is read *whole* if it tells the size of its
content, all of its blocks are there, and the content fits into the room that is on
offer; else it is read *block by block* into a buffer, which is as large as the
window and two blocks, or as the content if that is smaller. The ways differ in what
they check: a block must be no larger than its frame's window only in the second, the
window must be no larger than allowed only in the second, and an empty last block ends
the second without a look at the size of the content.
-/

namespace RoundChain.Zstandard

/-- The largest window that is read block by block. -/
def maxWindow : Nat := 134217729

/-- The sizes of the buffers for reading block by block; they are kept from frame to frame. -/
structure Buffers where
  input : Nat := 0
  output : Nat := 0
  deriving DecidableEq, Repr

/-- How the content of a frame is held. -/
inductive Way where
  /-- At once, in some room. -/
  | whole (room : Nat)
  /-- In a buffer that is filled from a place on. -/
  | byBlocks (size place : Nat)
  deriving DecidableEq, Repr

namespace Way

/-- The room for the next block, behind content of some size. -/
def room (w : Way) (content : Nat) : Nat :=
  match w with
  | whole room => room - content
  | byBlocks size place => size - place

/-- The way after a block. A buffer that does not hold the whole content is filled from its beginning again
where it has no room for another block. -/
def after (w : Way) (h : FrameHeader) (block : Nat) : Way :=
  match w with
  | whole room => whole room
  | byBlocks size place =>
    let place := place + block
    let holdsAll := h.contentSize.any (· ≤ size)
    byBlocks size (if !holdsAll && block ≠ 0 && size < place + h.blockLimit then 0 else place)

/-- Whether a frame is read block by block. -/
def isByBlocks : Way → Bool
  | whole _ => false
  | byBlocks .. => true

end Way

/-! ### Blocks -/

/-- What stands in front of a block. -/
structure BlockHeader where
  last : Bool
  kind : Nat
  size : Nat
  deriving DecidableEq, Repr

namespace BlockHeader

/-- Reads what stands in front of a block. -/
def read (bs : Bytes) : Except Fault (BlockHeader × Bytes) := do
  let (n, rest) ← takeNat 3 bs
  if n / 2 % 4 = 3 then .error .corrupted
  return (⟨n % 2 = 1, n / 2 % 4, n / 8⟩, rest)

/-- The number of bytes that a block takes. -/
def width (b : BlockHeader) : Nat := if b.kind = 1 then 1 else b.size

end BlockHeader

/-- Whether all blocks are there, and the checksum. The fuel bounds their number. -/
def isComplete (checked : Bool) : Nat → Bytes → Bool
  | 0, _ => false
  | fuel + 1, bs =>
    match BlockHeader.read bs with
    | .error _ => false
    | .ok (b, rest) =>
      match takeBytes b.width rest with
      | .error _ => false
      | .ok (_, rest) =>
        if b.last then !checked || 4 ≤ rest.length else isComplete checked fuel rest

/-- A frame's content so far, and what its blocks may refer to. -/
structure FrameState where
  content : Array UInt8 := #[]
  memory : Memory := {}
  way : Way

/-- The state of a frame after a block, and what follows the block. -/
def readBlock (h : FrameHeader) (b : BlockHeader) (s : FrameState) (bs : Bytes) :
    Except Fault (FrameState × Bytes) := do
  if s.way.isByBlocks && h.blockLimit < b.width then .error .corrupted
  let room := s.way.room s.content.size
  if b.kind = 0 && room < min b.size bs.length then .error .noRoom
  let (body, rest) ← takeBytes b.width bs
  let (memory, content) ←
    match b.kind with
    | 0 => pure (s.memory, s.content ++ body)
    | 1 =>
      if room < b.size then .error .noRoom
      else pure (s.memory, s.content ++ List.replicate b.size (body.headD 0))
    | _ =>
      if s.way.isByBlocks && b.size = 0 then pure (s.memory, s.content)
      else readCompressed s.memory ⟨h.blockLimit, room⟩ body s.content
  let size := content.size - s.content.size
  if s.way.isByBlocks && h.blockLimit < size then .error .corrupted
  return (⟨content, memory, s.way.after h size⟩, rest)

/-- The content of a frame's blocks, and what follows them. The fuel bounds their number. -/
def readBlocks (h : FrameHeader) : Nat → FrameState → Bytes → Except Fault (Bytes × Bytes)
  | 0, _, _ => .error .incomplete
  | fuel + 1, s, bs => do
    let (b, rest) ← BlockHeader.read bs
    let (s, rest) ← readBlock h b s rest
    if b.last then
      let looked := !s.way.isByBlocks || b.width ≠ 0
      if looked && h.contentSize.any (· ≠ s.content.size) then .error .corrupted
      return (s.content.toList, rest)
    else readBlocks h fuel s rest

/-! ### Frames -/

/-- Reads and compares the checksum behind blocks, if there is one. -/
def readChecksum (checked : Bool) (content bs : Bytes) : Except Fault Bytes := do
  if checked then
    let (sum, rest) ← takeNat 4 bs
    if sum = (XxHash64.hash content).toNat % UInt32.size then return rest else .error .checksum
  else return bs

/-- The buffers for a frame that is read block by block: new ones, if those there are are too small. -/
def Buffers.fit (buffers : Buffers) (h : FrameHeader) : Buffers :=
  let input := max h.blockLimit 4
  let ring := max h.window 1024 + 2 * h.blockLimit + 64
  let output := h.contentSize.elim ring (min ring)
  if buffers.input < input || buffers.output < output then ⟨input, output⟩ else buffers

/-- The content of a frame behind its magic number, the buffers from now on, and what follows the frame, where
some room is on offer. -/
def readFrame (room : Nat) (buffers : Buffers) (bs : Bytes) :
    Except Fault (Bytes × Buffers × Bytes) := do
  let (h, bs) ← FrameHeader.read bs
  if h.dictionary ≠ 0 then .error .dictionary
  let whole := h.contentSize.any (· ≤ room) && isComplete h.checked (bs.length + 1) bs
  if !whole && maxWindow < h.window then .error .windowTooLarge
  let buffers := if whole then buffers else buffers.fit h
  let way := if whole then Way.whole room else .byBlocks buffers.output 0
  let (content, rest) ← readBlocks h (bs.length + 1) { way := way } bs
  return (content, buffers, ← readChecksum h.checked content rest)

end RoundChain.Zstandard
