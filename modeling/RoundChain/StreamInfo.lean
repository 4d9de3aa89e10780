import RoundChain.BlockHash
import RoundChain.Timestamp

/-!
# The position of a stream

A `StreamInfo` says how far a chain of blocks has come: its newest block, the
hashes of the recent ones, and the version that began it. The same record serves
two views of one chain. The copy in ledger state follows the closing of blocks
and is the same on every node; the stream's own copy follows blocks that are
signed and stored.
-/

namespace RoundChain

/-- The newest block of a chain and its recent ancestors. -/
structure StreamInfo where
  /-- The newest block's number; none before the first block. -/
  lastNumber : Option UInt64
  /-- The newest block's hash, or the chain's anchor before the first block. -/
  lastHash : BlockHash
  /-- The hashes of recent blocks, oldest first. -/
  trailing : List BlockHash
  /-- When the newest block closed. -/
  lastEndTime : Option Timestamp
  /-- The version that began the chain. -/
  createdBy : SoftwareVersion
  deriving DecidableEq, Repr, Inhabited

namespace StreamInfo

/-- A chain without blocks, anchored at a hash. -/
def anchored (anchor : BlockHash) (version : SoftwareVersion) : StreamInfo :=
  ⟨none, anchor, [], none, version⟩

/-- The number of the block to come. -/
def nextNumber {ε : Type} (info : StreamInfo) : Checked ε UInt64 :=
  match info.lastNumber with
  | none => .ok 0
  | some n => nextWord n

/-- The chain with one more block; at most `limit` trailing hashes are kept, the newest ones. -/
def record (info : StreamInfo) (number : UInt64) (hash : BlockHash) (endTime : Timestamp)
    (limit : Nat) : StreamInfo :=
  let hashes := info.trailing ++ [hash]
  { info with
    lastNumber := some number
    lastHash := hash
    lastEndTime := some endTime
    trailing := hashes.drop (hashes.length - limit) }

/-- The hash of a block that is still among the trailing ones. -/
def trailingHash? (info : StreamInfo) (number : UInt64) : Option BlockHash :=
  match info.lastNumber with
  | none => none
  | some last =>
    if number ≤ last then info.trailing.reverse[last.toNat - number.toNat]? else none

end StreamInfo

end RoundChain
