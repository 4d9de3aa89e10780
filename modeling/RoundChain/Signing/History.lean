import RoundChain.Crypto.Ed25519.Signature
import RoundChain.Item.Basic
import RoundChain.WordMap

/-!
# History proofs

The nodes of a roster endorse an address book together with some metadata, each by a
signature and each with a weight. Signatures are gathered by metadata. Once the
signers of one metadata value hold a third of the roster's weight, their signatures
become the proof for it, and that proof never changes any more.

`verifyProof` judges any proof against the roster. It goes through the signatures
with a running weight, which never leaves its word: ids must ascend, so no node is
counted twice.
-/

namespace RoundChain

open Ed25519 (PublicKey Signature)

/-- A node's place in a roster. -/
structure RosterEntry where
  key : PublicKey
  weight : UInt64
  deriving DecidableEq, Repr

/-- A roster, and what its nodes endorsed so far. -/
structure HistoryCollector where
  /-- The hash of the address book. -/
  book : BlockHash
  roster : WordMap RosterEntry
  totalWeight : UInt64
  /-- The signatures gathered for metadata that has no proof yet. -/
  gathered : List (Bytes × WordMap Signature)
  proofs : List HistoryProof
  deriving DecidableEq, Repr

namespace HistoryCollector

/-- Whether a weight is at least a third of the total. -/
def isStrongMinority (weight total : UInt64) : Bool := total.toNat ≤ 3 * weight.toNat

/-! ### The roster -/

/-- Adds nodes to a roster and their weights to its total. -/
def enroll (roster : WordMap RosterEntry) (total : UInt64) :
    List (UInt64 × PublicKey × UInt64) → Except StreamError (WordMap RosterEntry × UInt64)
  | [] => .ok (roster, total)
  | (node, key, weight) :: rest =>
    if roster.contains node then
      .error (.invalidConfig s!"node {node} listed twice in history roster")
    else if total.toNat + weight.toNat < UInt64.size then
      enroll (roster.insert node ⟨key, weight⟩) (total + weight) rest
    else
      .error (.invalidConfig "roster weight overflows u64")

/-- A collector for a roster of nodes, their keys and weights. -/
def new (book : BlockHash) (nodes : List (UInt64 × PublicKey × UInt64)) :
    Except StreamError HistoryCollector := do
  let (roster, total) ← enroll .empty 0 nodes
  if total = 0 then .error (.invalidConfig "history roster has no weight")
  else return ⟨book, roster, total, [], []⟩

/-! ### Gathering signatures -/

variable [Ed25519.Library]

/-- The proof for metadata. -/
def proofFor (c : HistoryCollector) (metadata : Bytes) : Option HistoryProof :=
  c.proofs.find? (·.metadata == metadata)

/-- The signatures gathered for metadata. -/
def signaturesFor (c : HistoryCollector) (metadata : Bytes) : WordMap Signature :=
  (c.gathered.lookup metadata).getD .empty

/-- What was gathered for other metadata. -/
def gatheredExcept (c : HistoryCollector) (metadata : Bytes) : List (Bytes × WordMap Signature) :=
  c.gathered.filter (·.1 != metadata)

/-- The weight of the given nodes; a node that is not in the roster has none. -/
def weightOf (c : HistoryCollector) : List UInt64 → Checked StreamError UInt64
  | [] => .ok 0
  | node :: rest => do
    let more ← c.weightOf rest
    match c.roster.find? node with
    | some entry => addWords entry.weight more
    | none => return more

/-- The proof that signatures make up. -/
def proofOf (c : HistoryCollector) (metadata : Bytes) (signatures : WordMap Signature) :
    HistoryProof :=
  ⟨c.book, metadata, signatures.entries.map fun (node, signature) => ⟨node, signature.bytes⟩⟩

/-- Adds a signature that was checked, and says whether there is a proof for its metadata. -/
def gather (c : HistoryCollector) (node : UInt64) (metadata : Bytes) (signature : Signature) :
    Checked StreamError Bool × HistoryCollector :=
  let signatures := (c.signaturesFor metadata).insert node signature
  let others := c.gatheredExcept metadata
  let waiting := { c with gathered := (metadata, signatures) :: others }
  match c.weightOf signatures.keys with
  | .error e => (.error e, waiting)
  | .ok weight =>
    if isStrongMinority weight c.totalWeight then
      (.ok true, { c with gathered := others, proofs := c.proofs ++ [c.proofOf metadata signatures] })
    else (.ok false, waiting)

/-- Accepts a node's signature over metadata, and says whether there is a proof for it. -/
def submit (c : HistoryCollector) (node : UInt64) (metadata : Bytes) (signature : Signature) :
    Checked StreamError Bool × HistoryCollector :=
  match c.roster.find? node with
  | none => (refuse (.crypto s!"node {node} is not in the history roster"), c)
  | some entry =>
    match entry.key.verifyBinding c.book.bytes metadata signature with
    | .error e => (refuse e.toStreamError, c)
    | .ok () =>
      if (c.proofFor metadata).isSome then (.ok true, c) else c.gather node metadata signature

/-! ### Judging proofs -/

/-- Whether bytes are a valid signature of a node over metadata. -/
def accepts (c : HistoryCollector) (entry : RosterEntry) (metadata signature : Bytes) : Bool :=
  match Signature.ofBytes signature with
  | .error _ => false
  | .ok signature =>
    match entry.key.verifyBinding c.book.bytes metadata signature with
    | .ok () => true
    | .error _ => false

/-- Judges the signatures of a proof from some place on: `last` is the node before it, `weight` the
weight up to it. -/
def verifySignatures (c : HistoryCollector) (metadata : Bytes) (last : Option UInt64)
    (weight : UInt64) : List NodeSignature → Checked StreamError Bool
  | [] => .ok (isStrongMinority weight c.totalWeight)
  | s :: rest =>
    if last.any (s.node ≤ ·) then .ok false
    else
      match c.roster.find? s.node with
      | none => .ok false
      | some entry =>
        if c.accepts entry metadata s.signature then do
          c.verifySignatures metadata (some s.node) (← addWords weight entry.weight) rest
        else .ok false

/-- Whether a proof holds: it is for this book, its nodes ascend, every signature is valid, and the
nodes hold a third of the weight. -/
def verifyProof (c : HistoryCollector) (proof : HistoryProof) : Checked StreamError Bool :=
  if proof.book = c.book then c.verifySignatures proof.metadata none 0 proof.signatures
  else .ok false

end HistoryCollector

end RoundChain
