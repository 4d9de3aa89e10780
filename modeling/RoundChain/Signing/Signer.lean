import RoundChain.Block.Digest
import RoundChain.Config.Basic
import RoundChain.Signing.History
import RoundChain.Signing.Threshold

/-!
# Signing block hashes

A `Signer` is any state together with its answers: whether it is ready, and the
signature of a block hash. The signer of a running network is a `SchemeSigner`. Its
scheme is chosen once, by the settings:

| threshold signatures | history proofs | scheme                 | ready once there is        |
|----------------------|----------------|------------------------|----------------------------|
| off                  | off            | `trivial`              | nothing to wait for        |
| on                   | off            | `threshold`            | a verification key         |
| off                  | on             | `historyWrapped`       | a proof over no metadata   |
| on                   | on             | `thresholdWithHistory` | a key and a proof over it  |

Readiness latches: a signer that was ready once stays so.
-/

namespace RoundChain

/-- What answers for a signer, on states of a type. -/
structure Signer (σ : Type) where
  /-- Whether the signer is ready. -/
  isReady : σ → Bool × σ
  /-- How many more times it may say that it is not before asking alone has made it ready; none if only
  something else can. -/
  patience : σ → Nat
  sign : σ → BlockHash → Except StreamError BlockSignature × σ
  /-- Tells the signer of a block that has closed. -/
  note : σ → BlockHash → σ

namespace Signer

/-- A signer on a part of a larger state. -/
def on {σ τ : Type} (s : Signer σ) (get : τ → σ) (set : τ → σ → τ) : Signer τ where
  isReady t := let r := s.isReady (get t); (r.1, set t r.2)
  patience t := s.patience (get t)
  sign t hash := let r := s.sign (get t) hash; (r.1, set t r.2)
  note t hash := set t (s.note (get t) hash)

end Signer

/-! ### Services -/

variable [Ed25519.Library] [Bls12381.Library]

/-- Where threshold signatures come from. -/
inductive ThresholdService where
  | construction (c : ThresholdConstruction)
  /-- A stand-in whose key is set by hand. -/
  | rehearsed (key : Option Bytes)
  deriving DecidableEq, Repr

namespace ThresholdService

/-- The verification key, once there is one. -/
def verificationKey : ThresholdService → Option Bytes
  | construction c => c.verificationKey
  | rehearsed key => key

/-- The threshold signature of a message. A stand-in signs by putting a mark before the message. -/
def aggregateSignature (service : ThresholdService) (message : Bytes) : Except StreamError Bytes :=
  match service with
  | construction c => c.aggregateSignature message
  | rehearsed _ => .ok (Bytes.ofText "agg:" ++ message)

end ThresholdService

/-- Where history proofs come from. -/
inductive HistoryService where
  | collector (c : HistoryCollector)
  /-- A stand-in whose proofs are added by hand. -/
  | rehearsed (proofs : List HistoryProof)
  deriving DecidableEq, Repr

namespace HistoryService

/-- The proof for metadata, once there is one. -/
def proofFor (service : HistoryService) (metadata : Bytes) : Option HistoryProof :=
  match service with
  | collector c => c.proofFor metadata
  | rehearsed proofs => proofs.find? (·.metadata == metadata)

end HistoryService

/-- The services that a signer may draw on. -/
structure SigningServices where
  threshold : Option ThresholdService
  history : Option HistoryService
  deriving DecidableEq, Repr, Inhabited

namespace SigningServices

/-- The verification key, if the threshold service has one. -/
def verificationKey (services : SigningServices) : Option Bytes :=
  services.threshold.bind ThresholdService.verificationKey

/-- The history proof for metadata, if the history service has one. -/
def proofFor (services : SigningServices) (metadata : Bytes) : Option HistoryProof :=
  services.history.bind fun service => service.proofFor metadata

/-- The threshold signature of a hash. -/
def aggregate (services : SigningServices) (hash : BlockHash) : Except StreamError Bytes :=
  match services.threshold with
  | some service => service.aggregateSignature hash.bytes
  | none => .error .signerNotReady

/-- The history proof for metadata, which a signer that is ready can rely on. -/
def needProof (services : SigningServices) (metadata : Bytes) : Except StreamError HistoryProof :=
  match services.proofFor metadata with
  | some proof => .ok proof
  | none => .error .signerNotReady

/-! ### Changing the services

A call that a service does not take leaves it alone. -/

/-- Registers a party's key with a threshold construction. -/
def register (services : SigningServices) (party : UInt64) (key : Bls12381.SecretKey) :
    Except StreamError Bool × SigningServices :=
  match services.threshold with
  | some (.construction c) =>
    let r := c.register party key
    (r.1, { services with threshold := some (.construction r.2) })
  | _ => (.error .signerNotReady, services)

/-- Submits a node's signature to a collector. -/
def submit (services : SigningServices) (node : UInt64) (metadata : Bytes)
    (signature : Ed25519.Signature) : Checked StreamError Bool × SigningServices :=
  match services.history with
  | some (.collector c) =>
    let r := c.submit node metadata signature
    (r.1, { services with history := some (.collector r.2) })
  | _ => (refuse .signerNotReady, services)

/-- Sets the key of a rehearsed threshold service. -/
def setKey (services : SigningServices) (key : Option Bytes) : SigningServices :=
  match services.threshold with
  | some (.rehearsed _) => { services with threshold := some (.rehearsed key) }
  | _ => services

/-- Changes the proofs of a rehearsed history service. -/
def setProofs (services : SigningServices) (f : List HistoryProof → List HistoryProof) :
    SigningServices :=
  match services.history with
  | some (.rehearsed proofs) => { services with history := some (.rehearsed (f proofs)) }
  | _ => services

end SigningServices

/-! ### The signer of a scheme -/

/-- A signer of one scheme, the services it draws on, and whether it was ready before. -/
structure SchemeSigner where
  scheme : SignatureScheme
  wasReady : Bool
  services : SigningServices
  deriving DecidableEq, Repr

namespace SignatureScheme

/-- The scheme that the settings choose. -/
def ofConfig (config : SchemeConfig) : SignatureScheme :=
  match config.hints, config.history with
  | false, false => trivial
  | true, false => threshold
  | false, true => historyWrapped
  | true, true => thresholdWithHistory

/-- Whether the scheme draws on a threshold service. -/
def usesThreshold : SignatureScheme → Bool
  | threshold | thresholdWithHistory => true
  | trivial | historyWrapped => false

/-- A scheme as diagnostics show it. -/
def describe : SignatureScheme → String
  | trivial => "Trivial"
  | threshold => "Threshold"
  | historyWrapped => "HistoryWrapped"
  | thresholdWithHistory => "ThresholdWithHistory"

end SignatureScheme

namespace SchemeSigner

/-- A signer of a scheme that has not been asked yet; the trivial one needs no asking. -/
def new (scheme : SignatureScheme) (services : SigningServices) : SchemeSigner :=
  ⟨scheme, scheme == .trivial, services⟩

/-- The signer that needs no key. -/
def trivial : SchemeSigner := new .trivial ⟨none, none⟩

/-- The refusal to work without a service. -/
def missing (service : String) : StreamError :=
  .invalidConfig (service ++ " enabled but no " ++ service ++ " supplied")

/-- The signer that the settings ask for; the services its scheme draws on must be supplied. -/
def ofConfig (config : SchemeConfig) (services : SigningServices) : Except StreamError SchemeSigner :=
  let scheme := SignatureScheme.ofConfig config
  if scheme.usesThreshold ∧ services.threshold.isNone then .error (missing "threshold service")
  else if scheme.hasHistory ∧ services.history.isNone then .error (missing "history service")
  else .ok (new scheme services)

/-- Whether the services have what the scheme needs. -/
def bootstrapped (s : SchemeSigner) : Bool :=
  match s.scheme with
  | .trivial => true
  | .threshold => s.services.verificationKey.isSome
  | .historyWrapped => (s.services.proofFor []).isSome
  | .thresholdWithHistory =>
    s.services.verificationKey.any fun key => (s.services.proofFor key).isSome

/-- Whether the signer is ready; once it is, it stays so. -/
def isReady (s : SchemeSigner) : Bool × SchemeSigner :=
  if s.wasReady then (true, s)
  else if s.bootstrapped then (true, { s with wasReady := true })
  else (false, s)

/-- The signature that the services give for a hash. -/
def signature (s : SchemeSigner) (hash : BlockHash) : Except StreamError BlockSignature :=
  match s.scheme with
  | .trivial => return ⟨s.scheme, trivialSignature hash, none⟩
  | .threshold => return ⟨s.scheme, ← s.services.aggregate hash, none⟩
  | .historyWrapped => return ⟨s.scheme, trivialSignature hash, some (← s.services.needProof [])⟩
  | .thresholdWithHistory =>
    match s.services.verificationKey with
    | none => .error .signerNotReady
    | some key => do
      let proof ← s.services.needProof key
      return ⟨s.scheme, ← s.services.aggregate hash, some proof⟩

/-- Signs a hash, if the signer is ready. -/
def sign (s : SchemeSigner) (hash : BlockHash) : Except StreamError BlockSignature × SchemeSigner :=
  match s.isReady with
  | (false, s) => (.error .signerNotReady, s)
  | (true, s) => (s.signature hash, s)

/-- The signer of a scheme, for a stream to ask. -/
def signer : Signer SchemeSigner := ⟨isReady, fun _ => 0, sign, fun s _ => s⟩

end SchemeSigner

end RoundChain
