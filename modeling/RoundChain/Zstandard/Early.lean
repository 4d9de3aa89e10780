import RoundChain.Hash.XxHash64
import RoundChain.Zstandard.Basic

/-!
# Frames of early formats

The format had seven versions before it was settled, each with a magic number of its
own. Frames of the first three are known only to be refused. Frames of the later
four are read as far as their blocks are stored as they are; their ways to compress
are not known here.
-/

namespace RoundChain.Zstandard

/-- The version that four bytes stand for. -/
def earlyVersion? (front : Bytes) : Option Nat :=
  match front with
  | [0xfd, 0x2f, 0xb5, 0x1e] => some 1
  | [b, 0xb5, 0x2f, 0xfd] => if 0x22 ≤ b && b ≤ 0x27 then some (b.toNat - 0x20) else none
  | _ => none

namespace EarlyFrame

/-- Reads the header of a frame behind its magic number: whether the content has a checksum, and what follows
the header. -/
def readHeader (version : Nat) (bs : Bytes) : Except Fault (Bool × Bytes) := do
  let (descriptor, bs) ← takeNat 1 bs
  match version with
  | 7 =>
    let single := descriptor / 32 % 2 = 1
    let windowWidth := if single then 0 else 1
    let dictionaryWidth := [0, 1, 2, 4].getD (descriptor % 4) 0
    let sizeWidth := [if single then 1 else 0, 2, 4, 8].getD (descriptor / 64) 0
    let (fields, rest) ← takeBytes (windowWidth + dictionaryWidth + sizeWidth) bs
    let dictionary := (fields.drop windowWidth).take dictionaryWidth
    if descriptor / 8 % 2 = 1 || 17 < Bytes.toNatLE (fields.take windowWidth) / 8 then
      .error .unsupported
    if dictionary.any (· ≠ 0) then .error .dictionary
    return (descriptor / 4 % 2 = 1, rest)
  | 6 =>
    let (_, rest) ← takeBytes ([0, 1, 2, 8].getD (descriptor / 64) 0) bs
    if descriptor / 32 % 2 = 1 then .error .unsupported
    return (false, rest)
  | _ => if descriptor / 16 ≠ 0 then .error .unsupported else return (false, bs)

/-- The checksum of content, of which the mark of its end has 22 bits. -/
def checksum (content : Bytes) : Nat := (XxHash64.hash content).toNat / 2048 % 4194304

/-- The content of the blocks of a frame behind some content, and what follows them. A block marks the end, and
so does one that takes no bytes. The fuel bounds the number of blocks. -/
def readBlocks (checked : Bool) : Nat → Bytes → Bytes → Except Fault (Bytes × Bytes)
  | 0, _, _ => .error .incomplete
  | fuel + 1, content, bs => do
    let (header, rest) ← takeBytes 3 bs
    let n := Bytes.toNatBE header
    let size := n % 524288
    match n / 4194304 with
    | 3 =>
      if checked && checksum content ≠ n % 4194304 then .error .checksum
      else return (content, rest)
    | 2 => if rest.isEmpty then .error .incomplete else .error .generic
    | kind =>
      if size = 0 then return (content, rest)
      let (body, rest) ← takeBytes size rest
      if kind = 0 then .error .corrupted
      readBlocks checked fuel (content ++ body) rest

/-- The content of a frame of a version behind its magic number, and what follows the frame. -/
def read (version : Nat) (bs : Bytes) : Except Fault (Bytes × Bytes) := do
  if version < 4 then .error .version
  let (checked, bs) ← readHeader version bs
  readBlocks checked (bs.length + 1) [] bs

end EarlyFrame

end RoundChain.Zstandard
