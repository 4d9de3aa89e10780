import RoundChain.Zstandard.Basic
import RoundChain.Zstandard.Huffman

/-!
# Literals

The first section of a compressed block holds bytes that its sequences copy from: as
they are, as one byte repeated, or in a Huffman code, which is read first or is the
code of the block before.
-/

namespace RoundChain.Zstandard

/-- How much a block may hold. -/
structure Limits where
  /-- The most bytes that a block of its frame may hold. -/
  block : Nat
  /-- The most bytes that there is room for. -/
  room : Nat
  deriving DecidableEq, Repr

/-- The literals of a block, the Huffman code from now on, and what follows them. -/
structure Literals where
  bytes : Array UInt8
  code : Option HuffmanCode
  rest : Bytes

namespace Literals

/-- Checks a number of literals, which must come to fewer than a block may hold. -/
def checkCount (limits : Limits) (count : Nat) : Except Fault Unit :=
  if limits.block < count then .error .corrupted else .ok ()

/-- Checks that there is room for a number of literals. -/
def checkRoom (limits : Limits) (count : Nat) : Except Fault Unit :=
  if limits.room < count then .error .noRoom else .ok ()

/-- The number of literals that are not coded, and the width of the header that tells it. -/
def plainHeader (bs : Bytes) : Nat × Nat :=
  let n := Bytes.toNatLE (bs.take 3)
  match n / 4 % 4 with
  | 1 => (n % 65536 / 16, 2)
  | 3 => (n / 16, 3)
  | _ => (n % 256 / 8, 1)

/-- Reads literals that are not coded. -/
def readPlain (code : Option HuffmanCode) (limits : Limits) (repeated : Bool) (bs : Bytes) :
    Except Fault Literals := do
  let (count, width) := plainHeader bs
  if bs.length < (if repeated then width + 1 else width) then .error .corrupted
  checkCount limits count
  checkRoom limits count
  let body := bs.drop width
  if repeated then
    return ⟨Array.replicate count (body.headD 0), code, body.tail⟩
  else
    let front := body.take count
    if front.length < count then .error .corrupted
    return ⟨front.toArray, code, body.drop count⟩

/-- The number of coded literals, the number of bytes that they take, and the width of the header. -/
def codedHeader (bs : Bytes) : Nat × Nat × Nat :=
  let n := Bytes.toNatLE (bs.take 5) / 16
  match Bytes.toNatLE (bs.take 1) / 4 % 4 with
  | 2 => (n % 16384, n / 16384 % 16384, 4)
  | 3 => (n % 262144, n / 262144, 5)
  | _ => (n % 1024, n / 1024 % 1024, 3)

/-- Reads literals in a code, which is given or is read first. -/
def readCoded (known : Option HuffmanCode) (limits : Limits) (bs : Bytes) : Except Fault Literals := do
  if bs.length < 5 then .error .corrupted
  let (count, size, width) := codedHeader bs
  let oneStream := Bytes.toNatLE (bs.take 1) / 4 % 4 = 0
  checkCount limits count
  if !oneStream && count < 6 then .error .literalsHeader
  let body := bs.drop width
  let front := body.take size
  if front.length < size then .error .corrupted
  checkRoom limits count
  let (code, streams) ← match known with
    | some code => pure (code, front)
    | none => sound (HuffmanCode.read? front)
  let bytes ← sound <|
    if oneStream then code.decodeStream? count streams #[] else code.decodeFour? count streams
  return ⟨bytes, code, body.drop size⟩

/-- Reads the literals of a block, where `code` is that of the block before. -/
def read (code : Option HuffmanCode) (limits : Limits) (bs : Bytes) : Except Fault Literals :=
  match bs with
  | head :: _ :: _ =>
    match head.toNat % 4 with
    | 0 => readPlain code limits false bs
    | 1 => readPlain code limits true bs
    | 2 => readCoded none limits bs
    | _ => if code.isNone then .error .missingCode else readCoded code limits bs
  | _ => .error .corrupted

end Literals

end RoundChain.Zstandard
