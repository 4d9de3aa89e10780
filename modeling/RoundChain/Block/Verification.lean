import RoundChain.Block.Pending

/-!
# Verification

What a reader of stored blocks checks: a header first, a proof last and nowhere
else, the proof's link to the block before, and the hash of everything before the
proof. Signatures that a key would be needed for are taken as they are.

A chain is checked from an anchor on, each block against the hash of the one
before it; from the second block on the numbers must be consecutive as well.
-/

namespace RoundChain

namespace Verification

/-- The refusal of a block. -/
def broken {α : Type} (number : UInt64) (reason : String) : Except StreamError α :=
  .error (.chainBroken number reason)

/-- Reads the header that a block must begin with. -/
def readHeader (body : List Bytes) : Except StreamError BlockHeader :=
  match body with
  | [] => broken 0 "block has no header"
  | first :: _ => do
    match ← decodeItem first with
    | .blockHeader header => return header
    | other => broken 0 s!"first item is {other.kind}"

/-- Reads the proof that a block must end with. -/
def readProof (number : UInt64) (last : Bytes) : Except StreamError BlockProof := do
  match ← decodeItem last with
  | .blockProof proof => return proof
  | other => broken number s!"last item is {other.kind}, expected block_proof"

/-- Reads the items between header and proof; answers when the last batch of state changes took
effect, or `endTime` if there is none. -/
def readMiddle (number : UInt64) (endTime : Timestamp) : List Bytes → Except StreamError Timestamp
  | [] => .ok endTime
  | bs :: rest => do
    match ← decodeItem bs with
    | .blockHeader _ => broken number "second block header"
    | .blockProof _ => broken number "proof before last item"
    | .stateChanges batch => readMiddle number batch.time rest
    | _ => readMiddle number endTime rest

/-- Checks the proof's number and its link to the block before. -/
def checkLink (number : UInt64) (proof : BlockProof) (previous : BlockHash) :
    Except StreamError Unit :=
  if proof.number ≠ number then
    broken number s!"proof is for block {proof.number}"
  else if proof.previous ≠ previous then
    broken number
      s!"previous hash {proof.previous.short} does not match expected {previous.short}"
  else
    .ok ()

/-- Checks what a signature shows without a key. -/
def checkSignature (number : UInt64) (hash : BlockHash) (signature : BlockSignature) :
    Except StreamError Unit :=
  if signature.scheme.selfCertifying ∧ signature.bytes ≠ trivialSignature hash then
    broken number "trivial signature does not match block hash"
  else if signature.scheme.hasHistory ∧ signature.history = none then
    broken number "history scheme without history proof"
  else
    .ok ()

end Verification

open Verification

/-- Checks a written block, given as the bytes of its items, against the hash of the block before. -/
def verifyBlock (items : List Bytes) (previous : BlockHash) : Except StreamError FinalizedBlock :=
  match items.getLast? with
  | none => broken 0 "empty block"
  | some last => do
    let body := items.dropLast
    let header ← readHeader body
    let proof ← readProof header.number last
    let endTime ← readMiddle header.number header.time body.tail
    checkLink header.number proof previous
    let hash ← blockHash proof.previous body
    checkSignature header.number hash proof.signature
    return { number := header.number, hash, previous := proof.previous
             signature := proof.signature, itemCount := items.length, endTime }

/-- Checks blocks one after the other, each against the hash of the one before; `expected` is the
number the first of them must have, if any. -/
def verifyFrom (previous : BlockHash) (expected : Option UInt64) :
    List (List Bytes) → Checked StreamError (List FinalizedBlock)
  | [] => .ok []
  | items :: rest => do
    let block ← Checked.ofExcept (verifyBlock items previous)
    match expected with
    | some n =>
      if block.number ≠ n then
        Checked.ofExcept (broken block.number s!"expected block {n}")
    | none => pure ()
    let next ← nextWord block.number
    return block :: (← verifyFrom block.hash (some next) rest)

/-- Checks a chain of written blocks that continues from `anchor`. -/
def verifyChain (blocks : List (List Bytes)) (anchor : BlockHash) :
    Checked StreamError (List FinalizedBlock) :=
  verifyFrom anchor none blocks

end RoundChain
