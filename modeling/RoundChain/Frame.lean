import RoundChain.Item.Codec
import RoundChain.Error

/-!
# Framed buffers

On its way to a store, and inside one, a block is a buffer of frames: each item's
bytes behind their length in four bytes, least significant first. `frame` writes
one frame and refuses an item too long for the length field; `splitFrames` takes a
buffer apart and refuses one that does not end with a whole frame.
-/

namespace RoundChain

/-- The bytes before an item in its frame. -/
def framePrefixLength : Nat := 4

/-- The frame of an item: its length, then its bytes. -/
def frame (item : Bytes) : Except StreamError Bytes :=
  if item.length < UInt32.size then
    .ok (Bytes.ofNatLE framePrefixLength item.length ++ item)
  else
    .error (.serialization s!"item of {item.length} bytes too large")

/-- The frames of items, one after the other. -/
def frameItems : List Bytes → Except StreamError Bytes
  | [] => .ok []
  | item :: rest => do
    let framed ← frame item
    let more ← frameItems rest
    return framed ++ more

/-- The items of a framed buffer. -/
def splitFrames (buffer : Bytes) : Except StreamError (List Bytes) :=
  match buffer with
  | [] => .ok []
  | b₀ :: b₁ :: b₂ :: b₃ :: rest =>
    let length := Bytes.toNatLE [b₀, b₁, b₂, b₃]
    let item := rest.take length
    if item.length = length then
      (splitFrames (rest.drop length)).map (item :: ·)
    else
      .error (.serialization s!"truncated frame: need {length} bytes, have {rest.length}")
  | short => .error (.serialization s!"truncated frame prefix: {short.length} trailing bytes")
termination_by buffer.length
decreasing_by
  simp only [List.length_drop, List.length_cons]
  omega

/-- A decoding failure as the stream reports it. -/
def DecodeError.toStreamError (e : DecodeError) : StreamError := .serialization e.message

/-- The item at the front of a byte string, or the stream's refusal. -/
def decodeItem (bs : Bytes) : Except StreamError Item :=
  (Item.decode bs).mapError DecodeError.toStreamError

/-- The items that a framed buffer spells; the first failure counts. -/
def decodeBlock (buffer : Bytes) : Except StreamError (List Item) := do
  (← splitFrames buffer).mapM decodeItem

end RoundChain
