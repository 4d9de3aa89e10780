import RoundChain.StreamInfo

/-!
# Block items

A block is a sequence of items: a header, then rounds, events, transactions and
their results, batches of state changes, and last the proof that signs all items
before it.
-/

namespace RoundChain

/-! ### State changes -/

/-- Where the platform stands after a round. -/
structure PlatformState where
  round : UInt64
  time : Timestamp
  deriving DecidableEq, Repr, Inhabited

/-- The value of a state that holds one value. -/
inductive Singleton where
  | streamInfo (info : StreamInfo)
  | platformState (state : PlatformState)
  | other (bytes : Bytes)
  deriving DecidableEq, Repr

/-- What a change does to its state. -/
inductive ChangeAction where
  | singleton (value : Singleton)
  | put (key value : Bytes)
  | delete (key : Bytes)
  | push (element : Bytes)
  | pop
  deriving DecidableEq, Repr

/-- A change to one piece of ledger state. -/
structure StateChange where
  stateId : UInt32
  action : ChangeAction
  deriving DecidableEq, Repr

/-- The changes that take effect at one consensus time, in order. -/
structure ChangeBatch where
  time : Timestamp
  changes : List StateChange
  deriving DecidableEq, Repr

/-- The state that holds the stream's own position. -/
def streamInfoStateId : UInt32 := 1

/-- The state that holds the platform's round. -/
def platformStateId : UInt32 := 2

/-! ### Signatures and proofs -/

/-- How the bytes of a block signature were made. -/
inductive SignatureScheme where
  /-- SHA-384 of the block hash. -/
  | trivial
  /-- An aggregated threshold signature. -/
  | threshold
  /-- The trivial bytes with a history proof. -/
  | historyWrapped
  /-- A threshold signature with a history proof of its verification key. -/
  | thresholdWithHistory
  deriving DecidableEq, Repr

namespace SignatureScheme

/-- The name of a scheme, as records keep it. -/
def name : SignatureScheme → String
  | trivial => "trivial"
  | threshold => "threshold"
  | historyWrapped => "history_wrapped"
  | thresholdWithHistory => "threshold_with_history"

/-- Whether signatures of the scheme carry a history proof. -/
def hasHistory : SignatureScheme → Bool
  | historyWrapped | thresholdWithHistory => true
  | trivial | threshold => false

/-- Whether the signature's bytes can be recomputed from the block hash alone. -/
def selfCertifying : SignatureScheme → Bool
  | trivial | historyWrapped => true
  | threshold | thresholdWithHistory => false

end SignatureScheme

/-- One node's signature in a history proof. -/
structure NodeSignature where
  node : UInt64
  signature : Bytes
  deriving DecidableEq, Repr

/-- The endorsement of an address book, together with `metadata`, by nodes of its roster. -/
structure HistoryProof where
  book : BlockHash
  metadata : Bytes
  signatures : List NodeSignature
  deriving DecidableEq, Repr

/-- A signature of a block hash. -/
structure BlockSignature where
  scheme : SignatureScheme
  bytes : Bytes
  history : Option HistoryProof
  deriving DecidableEq, Repr

/-! ### Items -/

/-- What opens a block. -/
structure BlockHeader where
  number : UInt64
  version : SoftwareVersion
  firstRound : UInt64
  time : Timestamp
  deriving DecidableEq, Repr

/-- What ends a written block. -/
structure BlockProof where
  number : UInt64
  previous : BlockHash
  startState : BlockHash
  signature : BlockSignature
  deriving DecidableEq, Repr

/-- A unit of the stream. -/
inductive Item where
  | blockHeader (header : BlockHeader)
  | roundHeader (round : UInt64)
  | eventHeader (creator : UInt64)
  | eventTransaction (payload : Bytes)
  | transactionResult (payload : Bytes)
  | stateChanges (batch : ChangeBatch)
  | blockProof (proof : BlockProof)
  deriving DecidableEq, Repr

namespace Item

/-- The name of an item's kind. -/
def kind : Item → String
  | blockHeader _ => "block_header"
  | roundHeader _ => "round_header"
  | eventHeader _ => "event_header"
  | eventTransaction _ => "event_transaction"
  | transactionResult _ => "transaction_result"
  | stateChanges _ => "state_changes"
  | blockProof _ => "block_proof"

end Item

end RoundChain
