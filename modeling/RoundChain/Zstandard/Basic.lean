import RoundChain.Bytes

/-!
# Zstandard

Compressed block files hold frames in the Zstandard format. This module has what can
be wrong with them; the other modules of its folder read a frame from the inside
out: bits, entropy tables, Huffman codes, literals, sequences, blocks and frames.
-/

namespace RoundChain.Zstandard

/-- Why bytes are not whole frames. -/
inductive Fault where
  /-- The bytes do not begin with a frame's magic number. -/
  | unknownDescriptor
  /-- The bytes end inside a frame. -/
  | incomplete
  /-- The frame is of a format that is too old. -/
  | version
  /-- A reserved bit of the frame's header is set. -/
  | unsupported
  /-- The frame looks back further than is allowed. -/
  | windowTooLarge
  /-- The frame needs a dictionary. -/
  | dictionary
  /-- The content of a frame contradicts itself. -/
  | corrupted
  /-- The content is not the one that was written. -/
  | checksum
  /-- The header of literals asks for fewer than their form allows. -/
  | literalsHeader
  /-- Literals ask for a code where none was read before. -/
  | missingCode
  /-- A block has more content than there is room for. -/
  | noRoom
  /-- A block is longer than a block may be, or its sequences end too soon. -/
  | sourceSize
  /-- Something that no reader of an old format knows. -/
  | generic
  deriving DecidableEq, Repr

/-- The wording of a fault. -/
def Fault.message : Fault → String
  | unknownDescriptor => "Unknown frame descriptor"
  | incomplete => "incomplete frame"
  | version => "Version not supported"
  | unsupported => "Unsupported frame parameter"
  | windowTooLarge => "Frame requires too much memory for decoding"
  | dictionary => "Dictionary mismatch"
  | corrupted => "Data corruption detected"
  | checksum => "Restored data doesn't match checksum"
  | literalsHeader => "Header of Literals' block doesn't respect format specification"
  | missingCode => "Dictionary is corrupted"
  | noRoom => "Destination buffer is too small"
  | sourceSize => "Src size is incorrect"
  | generic => "Error (generic)"

/-- The bytes every frame begins with. -/
def magic : Bytes := [0x28, 0xb5, 0x2f, 0xfd]

/-- The most bytes that one block holds. -/
def maxBlock : Nat := 131072

/-- What is read from the inside of a block is corrupted if it is not there. -/
def sound {α : Type} : Option α → Except Fault α
  | some a => .ok a
  | none => .error .corrupted

/-- Bytes at the front, and what follows them. -/
def takeBytes (width : Nat) (bs : Bytes) : Except Fault (Bytes × Bytes) :=
  let front := bs.take width
  if front.length = width then .ok (front, bs.drop width) else .error .incomplete

/-- A number of `width` bytes at the front, and what follows it. -/
def takeNat (width : Nat) (bs : Bytes) : Except Fault (Nat × Bytes) :=
  (takeBytes width bs).map fun (front, rest) => (Bytes.toNatLE front, rest)

end RoundChain.Zstandard
