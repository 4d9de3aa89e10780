import RoundChain.Zstandard.Bits

/-!
# Entropy tables

Symbols that are coded by the states of a machine: a state stands for a symbol, and
some bits lead from it to the next state. A symbol has the more states the more often
it occurs. `Distribution.table` builds the machine from how often each symbol occurs.

## The model

The shares of the symbols add up to the number of states, which is a power of two; a
symbol that occurs less than once has the share -1 and takes one state. States are
dealt out to the symbols at equal steps round the table, rare symbols first, from the
end of the table on.
-/

namespace RoundChain.Zstandard

/-- How often each symbol occurs, out of `2 ^ log` times. -/
structure Distribution where
  log : Nat
  shares : List Int
  deriving DecidableEq, Repr

/-- A state of a machine. -/
structure Cell where
  symbol : Nat
  /-- How many bits lead to the next state. -/
  width : Nat
  /-- The first of the next states. -/
  base : Nat
  deriving DecidableEq, Repr, Inhabited

/-- A machine of `2 ^ log` states. -/
structure EntropyTable where
  log : Nat
  cells : Array Cell
  deriving Repr

namespace Distribution

/-! ### Reading -/

/-- Reads a share, where the shares still to come take up `remaining` less one. The smaller half of the
numbers that are possible takes a bit less. -/
def readShare? (remaining : Nat) (bits : Bits) : Option (Int × Bits) := do
  let width := remaining.log2
  let threshold := 1 <<< width
  let short := 2 * threshold - 1 - remaining
  let (low, bits) ← bits.low? width
  if low < short then return ((low : Int) - 1, bits)
  let (top, bits) ← bits.low? 1
  let share := if top = 1 then low + threshold - short else low
  return ((share : Int) - 1, bits)

/-- Reads how many symbols without a share follow one. -/
def readZeros? : Bits → Option (Nat × Bits)
  | true :: true :: bits => (readZeros? bits).map fun (n, rest) => (n + 3, rest)
  | low :: high :: bits => some (low.toNat + 2 * high.toNat, bits)
  | _ => none

/-- Reads shares until they add up, for at most `count` symbols. -/
def readShares? (count remaining : Nat) (bits : Bits) : Option (List Int × Bits) :=
  if count = 0 then none
  else do
    let (share, bits) ← readShare? remaining bits
    let remaining := remaining - share.natAbs
    if remaining ≤ 1 then return ([share], bits)
    let (zeros, bits) ← if share = 0 then readZeros? bits else some (0, bits)
    let (more, bits) ← readShares? (count - 1 - zeros) remaining bits
    return (share :: List.replicate zeros 0 ++ more, bits)
termination_by count

/-- Reads how often each of at most `count` symbols occurs; the bytes begun are used up. -/
def read? (count : Nat) (bs : Bytes) : Option (Distribution × Bytes) := do
  let all := Bits.forwards bs
  let (n, bits) ← all.low? 4
  let log := n + 5
  if 15 < log then none
  let (shares, bits) ← readShares? count ((1 <<< log) + 1) bits
  return (⟨log, shares⟩, bs.drop ((all.length - bits.length + 7) / 8))

/-! ### Building -/

/-- The symbols rarer than once, in order. -/
def rare (d : Distribution) : List Nat :=
  d.shares.zipIdx.filterMap fun (share, symbol) => if share = -1 then some symbol else none

/-- The other symbols, in order, each as often as it occurs. -/
def frequent (d : Distribution) : List Nat :=
  d.shares.zipIdx.flatMap fun (share, symbol) => List.replicate share.toNat symbol

/-- The symbol of each state. -/
def layout (d : Distribution) : Array Nat :=
  let size := 1 <<< d.log
  let step := size / 2 + size / 8 + 3
  let rare := d.rare
  let free := ((List.range size).map fun k => k * step % size).filter (· < size - rare.length)
  let dealt := free.zip d.frequent ++ rare.zipIdx.map fun (symbol, k) => (size - 1 - k, symbol)
  dealt.foldl (fun cells (place, symbol) => cells.setIfInBounds place symbol)
    (Array.replicate size 0)

/-- The machine for a distribution: the states of a symbol share out all next states evenly. -/
def table (d : Distribution) : EntropyTable :=
  let size := 1 <<< d.log
  let counts := (d.shares.map fun share => share.natAbs).toArray
  let (_, cells) := d.layout.foldl (fun (counts, cells) symbol =>
    let count := counts.getD symbol 1
    let width := d.log - count.log2
    (counts.setIfInBounds symbol (count + 1), cells.push ⟨symbol, width, (count <<< width) - size⟩))
    (counts, #[])
  ⟨d.log, cells⟩

end Distribution

namespace EntropyTable

/-- The machine with one state, which stands for the one symbol. -/
def single (symbol : Nat) : EntropyTable := ⟨0, #[⟨symbol, 0, 0⟩]⟩

/-- Reads the state in which a machine begins. -/
def start? (t : EntropyTable) (bits : Bits) : Option (Cell × Bits) :=
  (bits.high? t.log).map fun (state, rest) => (t.cells.getD state default, rest)

/-- Reads the state that follows one. -/
def next? (t : EntropyTable) (cell : Cell) (bits : Bits) : Option (Cell × Bits) :=
  (bits.high? cell.width).map fun (n, rest) => (t.cells.getD (cell.base + n) default, rest)

end EntropyTable

end RoundChain.Zstandard
