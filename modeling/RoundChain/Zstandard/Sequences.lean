import RoundChain.Zstandard.Literals

/-!
# Sequences

The second section of a compressed block says how its content comes about: each
sequence copies some literals, and then some bytes from a distance back. The literals
that are left come last.

## The model

A sequence is three symbols of three machines over the same bits, which stand for
the number of literals, the distance and the number of bytes to repeat; a symbol is a
base, to which further bits are added. The first three symbols of distances stand for
the three last distances.
-/

namespace RoundChain.Zstandard

/-! ### Tables -/

/-- A quantity of sequences: how its symbols are coded and what they stand for. -/
structure Quantity where
  /-- The base of each symbol, and the number of bits to be added. -/
  symbols : Array (Nat × Nat)
  /-- The largest machine, as the logarithm of its size. -/
  maxLog : Nat
  /-- How often the symbols occur if nothing is said. -/
  usual : Distribution

/-- Bases of symbols in ascending order, one behind the other, from the widths of their ranges. -/
def ranges (first : Nat) (widths : List Nat) : Array (Nat × Nat) :=
  (widths.foldl (fun (base, out) width => (base + (1 <<< width), out.push (base, width)))
    (first, #[])).2

namespace Quantity

/-- The number of literals. -/
def literals : Quantity where
  symbols := ranges 0 (List.replicate 16 0 ++ [1, 1, 1, 1, 2, 2, 3, 3, 4, 6, 7, 8, 9, 10, 11, 12, 13, 14, 15, 16])
  maxLog := 9
  usual := ⟨6, [4, 3, 2, 2, 2, 2, 2, 2, 2, 2, 2, 2, 2, 1, 1, 1, 2, 2, 2, 2, 2, 2, 2, 2, 2, 3, 2, 1, 1, 1, 1,
    1, -1, -1, -1, -1]⟩

/-- The number of bytes to repeat. -/
def repeats : Quantity where
  symbols := ranges 3 (List.replicate 32 0 ++ [1, 1, 1, 1, 2, 2, 3, 3, 4, 4, 5, 7, 8, 9, 10, 11, 12, 13, 14, 15, 16])
  maxLog := 9
  usual := ⟨6, [1, 4, 3, 2, 2, 2, 2, 2, 2] ++ List.replicate 37 1 ++ List.replicate 7 (-1)⟩

/-- The distance, three more than it is; the lowest symbols stand for distances before. -/
def distance : Quantity where
  symbols := ranges 1 (List.range 32)
  maxLog := 8
  usual := ⟨5, [1, 1, 1, 1, 1, 1, 2, 2, 2] ++ List.replicate 15 1 ++ List.replicate 5 (-1)⟩

/-- Reads the machine of a quantity, where `before` is that of the block before. -/
def readTable? (q : Quantity) (before : Option EntropyTable) (kind : Nat) (bs : Bytes) :
    Option (EntropyTable × Bytes) :=
  match kind with
  | 0 => some (q.usual.table, bs)
  | 1 =>
    match bs with
    | symbol :: bs => if symbol.toNat < q.symbols.size then some (.single symbol.toNat, bs) else none
    | [] => none
  | 2 => do
    let (d, bs) ← Distribution.read? q.symbols.size bs
    if q.maxLog < d.log then none
    return (d.table, bs)
  | _ => before.map fun table => (table, bs)

/-- Reads the value of a symbol. -/
def value? (q : Quantity) (symbol : Nat) (bits : Bits) : Option (Nat × Bits) :=
  let (base, width) := q.symbols.getD symbol (0, 0)
  (bits.high? width).map fun (n, rest) => (base + n, rest)

end Quantity

/-! ### Distances -/

/-- The last three distances, the latest first. -/
structure Distances where
  first : Nat
  second : Nat
  third : Nat
  deriving DecidableEq, Repr

namespace Distances

/-- The distances before the first sequence of a frame. -/
def initial : Distances := ⟨1, 4, 8⟩

/-- The distances after a sequence with a value for the distance. The values one to three stand for the
distances before, or, behind no literals, for all but the latest of them and one less than it. -/
def after (d : Distances) (value : Nat) (hasLiterals : Bool) : Distances :=
  match value + (if hasLiterals then 0 else 1), value with
  | 1, _ => d
  | 2, _ => ⟨d.second, d.first, d.third⟩
  | 3, _ => ⟨d.third, d.first, d.second⟩
  | 4, 3 => ⟨d.first - 1, d.first, d.second⟩
  | _, _ => ⟨value - 3, d.first, d.second⟩

end Distances

/-! ### The section -/

/-- What later blocks of a frame may refer to. -/
structure Memory where
  code : Option HuffmanCode := none
  literals : Option EntropyTable := none
  distance : Option EntropyTable := none
  repeats : Option EntropyTable := none
  distances : Distances := .initial

/-- The three machines of a section. -/
structure Machines where
  literals : EntropyTable
  distance : EntropyTable
  repeats : EntropyTable

/-- The states of the three machines. -/
structure Cells where
  literals : Cell
  distance : Cell
  repeats : Cell

/-- Reads the number of sequences. -/
def readCount (bs : Bytes) : Except Fault (Nat × Bytes) :=
  match bs with
  | [] => .error .sourceSize
  | head :: rest =>
    if head.toNat < 128 then .ok (head.toNat, rest)
    else
      match head.toNat, rest with
      | 255, low :: high :: rest => .ok (low.toNat + 256 * high.toNat + 32512, rest)
      | 255, _ => .error .sourceSize
      | n, low :: rest => .ok (256 * (n - 128) + low.toNat, rest)
      | _, [] => .error .sourceSize

/-- Reads the machines of a section, where `memory` has those of the block before. -/
def readMachines (memory : Memory) (bs : Bytes) : Except Fault (Machines × Bytes) :=
  match bs with
  | [] => .error .sourceSize
  | kinds :: bs => do
    let kinds := kinds.toNat
    if kinds % 4 ≠ 0 then .error .corrupted
    let (literals, bs) ← sound (Quantity.literals.readTable? memory.literals (kinds / 64) bs)
    let (distance, bs) ← sound (Quantity.distance.readTable? memory.distance (kinds / 16 % 4) bs)
    let (repeats, bs) ← sound (Quantity.repeats.readTable? memory.repeats (kinds / 4 % 4) bs)
    return (⟨literals, distance, repeats⟩, bs)

/-- The states in which the machines begin. -/
def Machines.start? (m : Machines) (bits : Bits) : Option (Cells × Bits) := do
  let (literals, bits) ← m.literals.start? bits
  let (distance, bits) ← m.distance.start? bits
  let (repeats, bits) ← m.repeats.start? bits
  return (⟨literals, distance, repeats⟩, bits)

/-- The states that follow. -/
def Machines.next? (m : Machines) (cells : Cells) (bits : Bits) : Option (Cells × Bits) := do
  let (literals, bits) ← m.literals.next? cells.literals bits
  let (repeats, bits) ← m.repeats.next? cells.repeats bits
  let (distance, bits) ← m.distance.next? cells.distance bits
  return (⟨literals, distance, repeats⟩, bits)

/-- What a sequence does. -/
structure Step where
  literals : Nat
  distances : Distances
  repeats : Nat
  deriving DecidableEq, Repr

/-- Reads what the sequence of some states does. -/
def Cells.step? (cells : Cells) (distances : Distances) (bits : Bits) : Option (Step × Bits) := do
  let (distance, bits) ← Quantity.distance.value? cells.distance.symbol bits
  let (repeats, bits) ← Quantity.repeats.value? cells.repeats.symbol bits
  let (literals, bits) ← Quantity.literals.value? cells.literals.symbol bits
  return (⟨literals, distances.after distance (literals ≠ 0), repeats⟩, bits)

/-- Repeats bytes from a distance back. -/
def repeatBack (distance : Nat) : Nat → Array UInt8 → Array UInt8
  | 0, out => out
  | count + 1, out => repeatBack distance count (out.push (out.getD (out.size - distance) 0))

/-- How far content has come about: all of it in its frame, and the literals used. -/
structure Output where
  bytes : Array UInt8
  used : Nat

/-- Does what a sequence says, where content may come up to `limit` bytes. -/
def Output.take (out : Output) (literals : Array UInt8) (limit : Nat) (step : Step) :
    Except Fault Output :=
  let used := out.used + step.literals
  let bytes := out.bytes ++ literals.extract out.used used
  let distance := step.distances.first
  if limit < out.bytes.size + step.literals + step.repeats then .error .noRoom
  else if literals.size < used || distance = 0 || bytes.size < distance then .error .corrupted
  else .ok ⟨repeatBack distance step.repeats bytes, used⟩

/-- Does what a number of sequences say, the first of which has the states given; no bit may be left. -/
def runSteps (m : Machines) (literals : Array UInt8) (limit : Nat) :
    (count : Nat) → Cells → Distances → Bits → Output → Except Fault (Distances × Output)
  | 0, _, distances, _, out => .ok (distances, out)
  | count + 1, cells, distances, bits, out => do
    let (step, bits) ← sound (cells.step? distances bits)
    let out ← out.take literals limit step
    if count = 0 then
      if bits.isEmpty then return (step.distances, out) else .error .corrupted
    else
      let (cells, bits) ← sound (m.next? cells bits)
      runSteps m literals limit count cells step.distances bits out

/-- The content of a compressed block behind that of the frame so far. -/
def readCompressed (memory : Memory) (limits : Limits) (bs : Bytes) (content : Array UInt8) :
    Except Fault (Memory × Array UInt8) := do
  if limits.block < bs.length then .error .sourceSize
  let ⟨literals, code, rest⟩ ← Literals.read memory.code limits bs
  let memory := { memory with code := code }
  let limit := content.size + limits.room
  let (count, rest) ← readCount rest
  let (memory, out) ←
    if count = 0 then
      if rest.isEmpty then pure (memory, Output.mk content 0) else .error .corrupted
    else do
      let (m, rest) ← readMachines memory rest
      let (cells, bits) ← sound ((Bits.backwards? rest).bind m.start?)
      let (distances, out) ← runSteps m literals limit count cells memory.distances bits ⟨content, 0⟩
      pure (⟨memory.code, m.literals, m.distance, m.repeats, distances⟩, out)
  if limit < out.bytes.size + (literals.size - out.used) then .error .noRoom
  return (memory, out.bytes ++ literals.extract out.used literals.size)

end RoundChain.Zstandard
