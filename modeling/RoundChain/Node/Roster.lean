import RoundChain.Node.Config
import RoundChain.Signing.Signer

/-!
# The roster of a network

A node that stands for a whole network knows the keys of all its nodes: they follow
from the nodes' ids. `Roster.signer` sets up the services that the settings ask for,
and `Roster.bootstrap` brings them to where they can sign: first the nodes register
for the threshold construction until it converges, then they endorse the address
book, with the new verification key as metadata, until there is a proof.
-/

namespace RoundChain.Roster

variable [Ed25519.Library] [Bls12381.Library]

/-! ### Keys -/

/-- The bytes that a node's key of a kind is made from. -/
def seed (kind : String) (node : UInt64) : Bytes :=
  (sha384Many [Bytes.ofText kind, Bytes.ofNatLE 8 node.toNat]).take 32

/-- A node's key for endorsing address books. -/
def historyKey (node : UInt64) : Ed25519.SecretKey := ⟨seed "block-stream/history" node⟩

/-- A node's key for threshold signatures. -/
def thresholdKey (node : UInt64) : Except NodeError Bls12381.SecretKey :=
  (Bls12381.SecretKey.ofMaterial (seed "block-stream/bls" node)).mapError (.keyDerivation node)

/-- The ids of a roster's nodes. -/
def nodes (size : UInt64) : List UInt64 := (List.range size.toNat).map UInt64.ofNat

/-- The weight of every node. -/
def weight : UInt64 := 1

/-- A node's entry in the address book: its id, its key and its weight. -/
def bookEntry (node : UInt64) : Bytes :=
  Bytes.ofNatLE 8 node.toNat ++ (historyKey node).publicKey.bytes ++ Bytes.ofNatLE 8 weight.toNat

/-- The hash of the address book. -/
def addressBook (size : UInt64) : BlockHash := .sha384 ((nodes size).flatMap bookEntry)

/-! ### Setting up -/

/-- The threshold service, if the settings ask for one. -/
def thresholdService (schemes : SchemeConfig) (roster : RosterConfig) :
    Except StreamError (Option ThresholdService) := do
  if schemes.hints then
    return some (.construction (← ThresholdConstruction.new roster.threshold))
  else return none

/-- The history service, if the settings ask for one. -/
def historyService (schemes : SchemeConfig) (roster : RosterConfig) :
    Except StreamError (Option HistoryService) := do
  if schemes.history then
    let entries := (nodes roster.size).map fun node => (node, (historyKey node).publicKey, weight)
    return some (.collector (← HistoryCollector.new (addressBook roster.size) entries))
  else return none

/-- The signer that the settings ask for, over services that have not begun. -/
def signer (schemes : SchemeConfig) (roster : RosterConfig) : Except StreamError SchemeSigner := do
  let threshold ← thresholdService schemes roster
  let history ← historyService schemes roster
  SchemeSigner.ofConfig schemes ⟨threshold, history⟩

/-! ### The bootstrap -/

/-- The outcome of a step of the bootstrap, and the services it leaves. -/
abbrev Step (α : Type) := Checked NodeError α × SigningServices

/-- Takes a step for one node after the other, until a step says that no more are needed. -/
def eachUntil (step : UInt64 → SigningServices → Step Bool) (services : SigningServices) :
    List UInt64 → Step Unit
  | [] => (.ok (), services)
  | node :: rest =>
    match step node services with
    | (.error e, services) => (.error e, services)
    | (.ok true, services) => (.ok (), services)
    | (.ok false, services) => eachUntil step services rest

/-- Registers a node with its key, if there is one, and says whether the construction has converged. -/
def registerWith (node : UInt64) (services : SigningServices) :
    Except NodeError Bls12381.SecretKey → Step Bool
  | .error e => (refuse e, services)
  | .ok key =>
    let r := services.register node key
    (Checked.ofExcept (r.1.mapError .stream), r.2)

/-- Registers a node, and says whether the construction has converged. -/
def register (node : UInt64) (services : SigningServices) : Step Bool :=
  registerWith node services (thresholdKey node)

/-- Brings the threshold construction to its verification key, which becomes the metadata of the
endorsement; without threshold signatures there is none. -/
def converge (size : UInt64) (services : SigningServices) : Step Bytes :=
  if services.threshold.isNone then (.ok [], services)
  else
    match eachUntil register services (nodes size) with
    | (.error e, services) => (.error e, services)
    | (.ok (), services) =>
      match services.verificationKey with
      | some key => (.ok key, services)
      | none => (refuse .notConverged, services)

/-- Submits a node's signature over an address book and metadata, and says whether there is a proof. -/
def submit (book : BlockHash) (metadata : Bytes) (node : UInt64) (services : SigningServices) :
    Step Bool :=
  let r := services.submit node metadata ((historyKey node).signBinding book.bytes metadata)
  (r.1.mapCause .stream, r.2)

/-- Brings the history service to its proof over the metadata. -/
def endorse (size : UInt64) (metadata : Bytes) (services : SigningServices) : Step Unit :=
  match services.history with
  | some (.collector c) =>
    match eachUntil (submit c.book metadata) services (nodes size) with
    | (.error e, services) => (.error e, services)
    | (.ok (), services) =>
      if (services.proofFor metadata).isSome then (.ok (), services)
      else (refuse .noStrongMinority, services)
  | _ => (.ok (), services)

/-- Brings the services to where they can sign, with the first `size` nodes taking part. -/
def bootstrap (size : UInt64) (services : SigningServices) : Step Unit :=
  match converge size services with
  | (.error e, services) => (.error e, services)
  | (.ok metadata, services) => endorse size metadata services

end RoundChain.Roster
