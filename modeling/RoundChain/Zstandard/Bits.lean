import RoundChain.Bytes

/-!
# Bits of byte strings

Numbers that are packed bit by bit, read in two ways. Forwards, each byte gives its
lowest bit first, and so does a number. Backwards, the last byte comes first, each
byte gives its highest bit first, and so does a number; a bit that is set marks where
reading begins, and the bits above it are padding.
-/

namespace RoundChain.Zstandard

/-- Bits in the order in which they are read. -/
abbrev Bits := List Bool

namespace Bits

/-- The bits of a byte, the lowest first. -/
def ofByte (b : UInt8) : Bits := (List.range 8).map b.toNat.testBit

/-- The bits of a byte string, to be read forwards. -/
def forwards (bs : Bytes) : Bits := bs.flatMap ofByte

/-- The bits of a byte string behind its mark, to be read backwards; none, if the last byte has no mark. -/
def backwards? (bs : Bytes) : Option Bits :=
  match bs.getLast? with
  | none => none
  | some last =>
    if last = 0 then none else some ((forwards bs).reverse.dropWhile (!·)).tail

/-- Reads a number, its lowest bit first. -/
def low? : Nat → Bits → Option (Nat × Bits)
  | 0, bits => some (0, bits)
  | width + 1, bit :: bits => (low? width bits).map fun (n, rest) => (bit.toNat + 2 * n, rest)
  | _ + 1, [] => none

/-- Reads a number behind the one read before, its highest bit first. -/
def highOnto? (n : Nat) : Nat → Bits → Option (Nat × Bits)
  | 0, bits => some (n, bits)
  | width + 1, bit :: bits => highOnto? (2 * n + bit.toNat) width bits
  | _ + 1, [] => none

/-- Reads a number, its highest bit first. -/
def high? (width : Nat) (bits : Bits) : Option (Nat × Bits) := highOnto? 0 width bits

/-- The number that the next bits spell, its highest bit first; bits that are missing are zero. -/
def peek (n : Nat) : Nat → Bits → Nat
  | 0, _ => n
  | width + 1, bit :: bits => peek (2 * n + bit.toNat) width bits
  | width + 1, [] => peek (2 * n) width []

/-- The bits behind a number of them. -/
def skip? : Nat → Bits → Option Bits
  | 0, bits => some bits
  | width + 1, _ :: bits => skip? width bits
  | _ + 1, [] => none

end Bits

end RoundChain.Zstandard
