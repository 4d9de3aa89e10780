import RoundChain.Block.Digest

/-!
# The life of a block

A block is *pending* while rounds feed it items, *closed* once its content and
hash are final, and *finalized* once it is signed and stored. A pending block
begins with its header and accepts every item but a proof, which only the last
stage may write.

What the ledger state was when a block began is often not known yet when the
block opens. `StartState` says where that hash will come from.
-/

namespace RoundChain

/-! ### The state a block starts from -/

/-- Where the hash of the state a block starts from comes from. -/
inductive StartState where
  /-- It is known. -/
  | known (hash : BlockHash)
  /-- It is the hash supplied with the session, which is not settled yet. -/
  | supplied
  /-- It is the hash that will be notified for the round. -/
  | notified (round : UInt64)
  deriving DecidableEq, Repr

/-! ### Blocks -/

/-- An open block. -/
structure PendingBlock where
  number : UInt64
  previous : BlockHash
  firstRound : UInt64
  lastRound : UInt64
  roundCount : Nat
  firstTime : Timestamp
  lastTime : Timestamp
  /-- The bytes of the items so far. -/
  items : List Bytes
  hasher : ItemsHasher
  startState : StartState
  deriving DecidableEq, Repr

/-- A block whose content is final. -/
structure ClosedBlock where
  number : UInt64
  previous : BlockHash
  itemsHash : BlockHash
  hash : BlockHash
  firstRound : UInt64
  lastRound : UInt64
  endTime : Timestamp
  items : List Bytes
  startState : StartState
  deriving DecidableEq, Repr

/-- A block that is signed and stored; its proof counts among its items. -/
structure FinalizedBlock where
  number : UInt64
  hash : BlockHash
  previous : BlockHash
  signature : BlockSignature
  itemCount : Nat
  endTime : Timestamp
  deriving DecidableEq, Repr

namespace PendingBlock

/-- Adds an item's bytes, unless they are too long for a frame. -/
def push (block : PendingBlock) (item : Bytes) : Except StreamError PendingBlock := do
  let hasher ← block.hasher.absorb item
  return { block with items := block.items ++ [item], hasher }

/-- Adds an item; proofs are refused. -/
def append (block : PendingBlock) (item : Item) : Except StreamError PendingBlock :=
  match item with
  | .blockProof _ =>
    .error (.orderingViolation "write_item(block_proof)" s!"block {block.number} open")
  | item => block.push item.encode

/-- The block that begins with a round; its header is its first item. -/
def start (number : UInt64) (previous : BlockHash) (round : UInt64) (time : Timestamp)
    (version : SoftwareVersion) (startState : StartState) : Except StreamError PendingBlock :=
  append
    { number, previous, firstRound := round, lastRound := round, roundCount := 1
      firstTime := time, lastTime := time, items := [], hasher := ItemsHasher.new, startState }
    (.blockHeader ⟨number, version, round, time⟩)

/-- Another round begins in the block. -/
def beginRound (block : PendingBlock) (round : UInt64) (time : Timestamp) : PendingBlock :=
  { block with lastRound := round, lastTime := time, roundCount := block.roundCount + 1 }

/-- Makes the block's content final. -/
def close (block : PendingBlock) (endTime : Timestamp) : ClosedBlock :=
  let itemsHash := block.hasher.finish
  { number := block.number, previous := block.previous, itemsHash
    hash := combine block.previous itemsHash
    firstRound := block.firstRound, lastRound := block.lastRound, endTime
    items := block.items, startState := block.startState }

end PendingBlock

namespace ClosedBlock

/-- The item that ends the block once it is signed. -/
def proofItem (block : ClosedBlock) (startState : BlockHash) (signature : BlockSignature) : Item :=
  .blockProof ⟨block.number, block.previous, startState, signature⟩

/-- The block once it is signed and stored. -/
def finalized (block : ClosedBlock) (signature : BlockSignature) : FinalizedBlock :=
  { number := block.number, hash := block.hash, previous := block.previous, signature
    itemCount := block.items.length + 1, endTime := block.endTime }

end ClosedBlock

end RoundChain
