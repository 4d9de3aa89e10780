import RoundChain.Store.BlockFile
import RoundChain.Block.Verification

/-!
# Recovery from block files

The position of a stream is rebuilt from the newest block files: as many as the
trailing window needs, and at least one. The oldest file of the window says in its
proof which hash it continues from; from there on each block is verified against
the one before, as a chain is, and must be the block its file's name promises.
Older files are not opened.
-/

namespace RoundChain.Recovery

variable [Compression]

/-- A store's refusal as recovery reports it. -/
def reading {α : Type} (r : Except WriteError α) : Except StreamError α :=
  r.mapError fun e => .internal ("reading blocks: " ++ e.message)

/-- The items in a block file. -/
def readItems (d : Directory) (name : String) : Except StreamError (List Bytes) := do
  splitFrames (← reading (BlockFile.read d name))

/-- The hash that a stored block continues from, as its proof says. -/
def anchorOf (number : UInt64) (items : List Bytes) : Except StreamError BlockHash :=
  match items.getLast? with
  | none => Verification.broken number "missing block proof"
  | some last => do
    match ← decodeItem last with
    | .blockProof proof => return proof.previous
    | _ => Verification.broken number "missing block proof"

/-- The position after a block, which must be the one its file promises. -/
def recordFile (limit : Nat) (info : StreamInfo) (expected number : UInt64) (items : List Bytes) :
    Checked StreamError (StreamInfo × UInt64) := do
  let block ← Checked.ofExcept (verifyBlock items info.lastHash)
  if block.number ≠ number ∨ block.number ≠ expected then
    Checked.ofExcept
      (Verification.broken block.number s!"file for block {number} holds block {block.number}")
  let next ← nextWord block.number
  return (info.record block.number block.hash block.endTime limit, next)

/-- The position after the blocks in files, one after the other. -/
def recordFiles (d : Directory) (limit : Nat) (info : StreamInfo) (expected : UInt64) :
    List (UInt64 × String) → Checked StreamError StreamInfo
  | [] => .ok info
  | (number, name) :: rest => do
    let items ← Checked.ofExcept (readItems d name)
    let (info, expected) ← recordFile limit info expected number items
    recordFiles d limit info expected rest

/-- The files of the window: the newest ones. -/
def window (files : List (UInt64 × String)) (limit : Nat) : List (UInt64 × String) :=
  files.drop (files.length - max limit 1)

/-- The position that the block files of a directory tell; none if there is no block. -/
def recover (d : Directory) (version : SoftwareVersion) (limit : Nat) :
    Checked StreamError (Option StreamInfo) :=
  match window (BlockFile.list d) limit with
  | [] => .ok none
  | (number, name) :: rest => do
    let items ← Checked.ofExcept (readItems d name)
    let anchor ← Checked.ofExcept (anchorOf number items)
    let (info, expected) ←
      recordFile limit (StreamInfo.anchored anchor version) number number items
    return some (← recordFiles d limit info expected rest)

end RoundChain.Recovery
