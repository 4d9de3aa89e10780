import RoundChain.Crypto.Bls12381.Signature
import RoundChain.WordMap

/-!
# Threshold constructions

Parties register their keys one after the other. As soon as there are as many as the
threshold asks for, the construction *converges*: the parties with the lowest ids
become the signers, the sum of their public keys becomes the verification key, and
neither changes any more, whoever registers later.
-/

namespace RoundChain

open Bls12381 (SecretKey PublicKey Signature PartialSignature aggregatePartials)

/-- A threshold construction and how far it has come. -/
structure ThresholdConstruction where
  /-- Parties needed for a signature. -/
  threshold : Nat
  /-- The keys of the registered parties. -/
  parties : WordMap SecretKey
  /-- The signers, by ascending id; none before convergence. -/
  signers : List (UInt64 × SecretKey)
  /-- The verification key, once there are signers. -/
  key : Option PublicKey
  deriving DecidableEq, Repr

namespace ThresholdConstruction

variable [Bls12381.Library]

/-- A construction without parties. -/
def new (threshold : Nat) : Except StreamError ThresholdConstruction :=
  if threshold = 0 then .error (.invalidConfig "threshold must be at least 1")
  else .ok ⟨threshold, .empty, [], none⟩

/-- The construction with its signers fixed: the parties with the lowest ids. -/
def converge (c : ThresholdConstruction) : Except CryptoError ThresholdConstruction := do
  let signers := c.parties.entries.take c.threshold
  let key ← PublicKey.aggregate (signers.map fun (_, secret) => secret.publicKey)
  return { c with signers, key := some key }

/-- Registers a party's key, and says whether the construction has converged. -/
def register (c : ThresholdConstruction) (party : UInt64) (secret : SecretKey) :
    Except StreamError Bool × ThresholdConstruction :=
  if c.key.isSome then (.ok true, c)
  else if c.parties.contains party then
    (.error (.invalidConfig s!"party {party} already registered"), c)
  else
    let c := { c with parties := c.parties.insert party secret }
    if c.parties.size < c.threshold then (.ok false, c)
    else
      match c.converge with
      | .ok c => (.ok true, c)
      | .error e => (.error e.toStreamError, c)

/-- The bytes of the verification key. -/
def verificationKey (c : ThresholdConstruction) : Option Bytes := c.key.map PublicKey.toBytes

/-- The signers' partial signatures of a message. -/
def partials (c : ThresholdConstruction) (message : Bytes) : List PartialSignature :=
  c.signers.map fun (party, secret) => ⟨party, secret.sign message⟩

/-- The signature that the signers' partial ones of a message add up to. -/
def aggregateSignature (c : ThresholdConstruction) (message : Bytes) : Except StreamError Bytes :=
  if c.key.isNone then .error .signerNotReady
  else
    match aggregatePartials (c.partials message) c.threshold with
    | .ok signature => .ok signature.toBytes
    | .error e => .error e.toStreamError

/-- Whether bytes are a signature of a message under the verification key. -/
def verify (c : ThresholdConstruction) (message signature : Bytes) : Except StreamError Bool :=
  match c.key with
  | none => .error .signerNotReady
  | some key =>
    match Signature.ofBytes signature with
    | .ok signature => .ok (key.verify message signature)
    | .error e => .error e.toStreamError

end ThresholdConstruction

end RoundChain
