import RoundChain.Signing.Signer

/-!
# Rehearsed signers

A signer that fails as it is told, so that repeated signing and halts can be
rehearsed. The blocks that close have a script: signing the first fails so many
times, signing the second so many times, and so on. The signer is told of every
block that closes, in order, and knows a block by its hash.
-/

namespace RoundChain

/-- A signer with a script. -/
structure ScriptedSigner where
  /-- How many attempts fail, block by block; no attempt on any further block. -/
  failures : List Nat
  /-- What a failed attempt says. -/
  cause : StreamError
  /-- How many more times the signer says that it is not ready; none if it always says so. -/
  refusals : Option Nat
  /-- The hashes of the blocks that have closed, oldest first. -/
  closed : List BlockHash
  /-- The attempts made so far, block by block, up to the last block that was asked for. -/
  attempts : List Nat
  deriving DecidableEq, Repr

namespace ScriptedSigner

/-- A signer whose script has not begun. -/
def new (failures : List Nat) (cause : StreamError) (refusals : Option Nat) : ScriptedSigner :=
  ⟨failures, cause, refusals, [], []⟩

/-- Whether the signer is ready; a refusal counts. -/
def isReady (s : ScriptedSigner) : Bool × ScriptedSigner :=
  match s.refusals with
  | none => (false, s)
  | some 0 => (true, s)
  | some (n + 1) => (false, { s with refusals := some n })

/-- The place of a hash among the blocks that have closed. -/
def place (s : ScriptedSigner) (hash : BlockHash) : Nat := s.closed.idxOf hash

/-- Signs a hash, unless the script has the attempt fail. -/
def sign (s : ScriptedSigner) (hash : BlockHash) :
    Except StreamError BlockSignature × ScriptedSigner :=
  let block := s.place hash
  let made := s.attempts ++ List.replicate (block + 1 - s.attempts.length) 0
  let attempts := made.modify block (· + 1)
  let s := { s with attempts }
  if attempts.getD block 0 ≤ s.failures.getD block 0 then (.error s.cause, s)
  else (.ok ⟨.trivial, trivialSignature hash, none⟩, s)

/-- The scripted signer, for a stream to ask. -/
def signer : Signer ScriptedSigner where
  isReady := isReady
  patience s := s.refusals.getD 0
  sign := sign
  note s hash := { s with closed := s.closed ++ [hash] }

end ScriptedSigner

/-! ### Either signer -/

variable [Bls12381.Library]

/-- A signer of a scheme or one with a script. -/
inductive StreamSigner where
  | scheme (s : SchemeSigner)
  | scripted (s : ScriptedSigner)
  deriving DecidableEq, Repr

namespace StreamSigner

/-- Whether the signer is ready. -/
def isReady : StreamSigner → Bool × StreamSigner
  | scheme s => let r := s.isReady; (r.1, scheme r.2)
  | scripted s => let r := s.isReady; (r.1, scripted r.2)

/-- How many more times the signer may say that it is not ready. -/
def patience : StreamSigner → Nat
  | scheme s => SchemeSigner.signer.patience s
  | scripted s => ScriptedSigner.signer.patience s

/-- Signs a hash. -/
def sign (signer : StreamSigner) (hash : BlockHash) :
    Except StreamError BlockSignature × StreamSigner :=
  match signer with
  | scheme s => let r := s.sign hash; (r.1, scheme r.2)
  | scripted s => let r := s.sign hash; (r.1, scripted r.2)

/-- Tells the signer of a block that has closed. -/
def note (signer : StreamSigner) (hash : BlockHash) : StreamSigner :=
  match signer with
  | scheme s => scheme (SchemeSigner.signer.note s hash)
  | scripted s => scripted (ScriptedSigner.signer.note s hash)

/-- Either signer, for a stream to ask. -/
def signer : Signer StreamSigner := ⟨isReady, patience, sign, note⟩

end StreamSigner

end RoundChain
