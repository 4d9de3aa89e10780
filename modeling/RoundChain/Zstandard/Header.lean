import RoundChain.Zstandard.Basic

/-!
# Frame headers

A frame begins with its magic number and with a byte whose bits say which fields
follow: how far back content is looked up, a dictionary, and the size of the content.
A frame that tells the size only may be looked up as far back as it goes.
-/

namespace RoundChain.Zstandard

/-- What the header of a frame says. -/
structure FrameHeader where
  /-- How far back content is looked up, in bytes. -/
  window : Nat
  /-- The number of the dictionary; zero is none. -/
  dictionary : Nat
  /-- The size of the content, if it is told. -/
  contentSize : Option Nat
  /-- Whether a checksum follows the blocks. -/
  checked : Bool
  deriving DecidableEq, Repr

namespace FrameHeader

/-- The most bytes that a block of the frame may hold. -/
def blockLimit (h : FrameHeader) : Nat := min h.window maxBlock

/-- The window that a byte stands for: a power of two, and some eighths of it. -/
def windowOf (byte : Nat) : Nat := (1 <<< (byte / 8 + 10)) / 8 * (8 + byte % 8)

/-- The content size that a field of a width tells. A field of all ones tells none. -/
def contentSizeOf (width n : Nat) : Option Nat :=
  match width with
  | 0 => none
  | 2 => some (n + 256)
  | 8 => if n + 1 = UInt64.size then none else some n
  | _ => some n

/-- Reads a header behind its magic number. All of it must be there before any of it is looked at. -/
def read (bs : Bytes) : Except Fault (FrameHeader × Bytes) := do
  let (descriptor, bs) ← takeNat 1 bs
  let single := descriptor / 32 % 2 = 1
  let windowWidth := if single then 0 else 1
  let dictionaryWidth := [0, 1, 2, 4].getD (descriptor % 4) 0
  let sizeWidth := [if single then 1 else 0, 2, 4, 8].getD (descriptor / 64) 0
  let (fields, rest) ← takeBytes (windowWidth + dictionaryWidth + sizeWidth) bs
  if descriptor / 8 % 2 = 1 then .error .unsupported
  let window := Bytes.toNatLE (fields.take windowWidth)
  if 21 < window / 8 then .error .windowTooLarge
  let fields := fields.drop windowWidth
  let size := Bytes.toNatLE (fields.drop dictionaryWidth)
  let contentSize := contentSizeOf sizeWidth size
  let header : FrameHeader :=
    { window := if single then contentSize.getD size else windowOf window
      dictionary := Bytes.toNatLE (fields.take dictionaryWidth)
      contentSize := contentSize
      checked := descriptor / 4 % 2 = 1 }
  return (header, rest)

end FrameHeader

end RoundChain.Zstandard
