import RoundChain.Zstandard.Entropy

/-!
# Huffman codes

Bytes that are coded by bits, the more frequent ones by fewer. A code is given by the
weights of its bytes: a byte of the weight `w` has the code of `log + 1 - w` bits, one
without weight has none. The weight of the last byte is not written, for together the
codes must fill all that `log` bits can spell.
-/

namespace RoundChain.Zstandard

/-- A code: for all that `log` bits can spell, the byte whose code they begin with, and its length. -/
structure HuffmanCode where
  log : Nat
  cells : Array (UInt8 × Nat)
  deriving Repr

namespace HuffmanCode

/-- The longest code of a byte. -/
def maxLog : Nat := 12

/-! ### Reading the weights -/

/-- Reads weights that two machines over one table code in turns, until the bits run out. -/
def readCodedWeights? (t : EntropyTable) : Nat → Cell → Cell → Bits → Option (List Nat)
  | 0, _, _, _ => none
  | fuel + 1, cell, other, bits =>
    match t.next? cell bits with
    | none => some [cell.symbol, other.symbol]
    | some (next, bits) => (readCodedWeights? t fuel other next bits).map (cell.symbol :: ·)

/-- Reads weights behind the table that codes them; there are at most 255. -/
def readTabledWeights? (bs : Bytes) : Option (List Nat) := do
  let (d, bs) ← Distribution.read? 256 bs
  if 6 < d.log then none
  let table := d.table
  let (cell, bits) ← table.start? (← Bits.backwards? bs)
  let (other, bits) ← table.start? bits
  readCodedWeights? table 254 cell other bits

/-- Reads weights, which stand in half a byte each or behind a table, and what follows them. -/
def readWeights? : Bytes → Option (List Nat × Bytes)
  | [] => none
  | head :: bs =>
    let tabled := head.toNat < 128
    let count := head.toNat - 127
    let width := if tabled then head.toNat else (count + 1) / 2
    let front := bs.take width
    if front.length < width then none
    else
      let weights? :=
        if tabled then readTabledWeights? front
        else some ((front.flatMap fun b => [b.toNat / 16, b.toNat % 16]).take count)
      weights?.map fun weights => (weights, bs.drop width)

/-! ### Building -/

/-- What the codes of bytes with some weights take up. -/
def mass (weights : List Nat) : Nat := weights.foldl (fun mass w => mass + (1 <<< w) / 2) 0

/-- The code with some weights, of which the last one is implied. -/
def ofWeights? (weights : List Nat) : Option HuffmanCode :=
  let mass := mass weights
  let log := mass.log2 + 1
  let rest := (1 <<< log) - mass
  let weights' := weights ++ [rest.log2 + 1]
  let ones := weights'.count 1
  let sound := weights.all (· ≤ maxLog) && 0 < mass && log ≤ maxLog && rest = 1 <<< rest.log2 &&
    2 ≤ ones && ones % 2 = 0
  if !sound then none
  else
    let cells := (List.range log).flatMap fun k =>
      weights'.zipIdx.flatMap fun (weight, byte) =>
        if weight = k + 1 then List.replicate (1 <<< k) (UInt8.ofNat byte, log - k) else []
    some ⟨log, cells.toArray⟩

/-- Reads a code, and gives what follows it. -/
def read? (bs : Bytes) : Option (HuffmanCode × Bytes) := do
  let (weights, bs) ← readWeights? bs
  return (← ofWeights? weights, bs)

/-! ### Decoding -/

/-- Reads a number of bytes behind some others; no bit may be left. -/
def decodeOnto? (code : HuffmanCode) (out : Array UInt8) : Nat → Bits → Option (Array UInt8)
  | 0, bits => if bits.isEmpty then some out else none
  | count + 1, bits =>
    let (byte, width) := code.cells.getD (bits.peek 0 code.log) (0, 0)
    match bits.skip? width with
    | none => none
    | some bits => decodeOnto? code (out.push byte) count bits

/-- The bytes that one stream codes, behind some others. -/
def decodeStream? (code : HuffmanCode) (count : Nat) (bs : Bytes) (out : Array UInt8) :
    Option (Array UInt8) := do
  decodeOnto? code out count (← Bits.backwards? bs)

/-- The bytes that four streams code. The lengths of the first three stand in front of them; each but the last
codes a quarter of the bytes, rounded up. -/
def decodeFour? (code : HuffmanCode) (count : Nat) (bs : Bytes) : Option (Array UInt8) := do
  let part := fun k => Bytes.toNatLE ((bs.drop (2 * k)).take 2)
  let quarter := (count + 3) / 4
  if bs.length < 10 || bs.length < part 0 + part 1 + part 2 + 6 || count < 3 * quarter then none
  let streams := bs.drop 6
  let out ← decodeStream? code quarter (streams.take (part 0)) #[]
  let streams := streams.drop (part 0)
  let out ← decodeStream? code quarter (streams.take (part 1)) out
  let streams := streams.drop (part 1)
  let out ← decodeStream? code quarter (streams.take (part 2)) out
  decodeStream? code (count - 3 * quarter) (streams.drop (part 2)) out

end HuffmanCode

end RoundChain.Zstandard
