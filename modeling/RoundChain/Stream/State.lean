import RoundChain.Block.Boundary
import RoundChain.Block.Policy
import RoundChain.Metrics
import RoundChain.Promise
import RoundChain.Stream.Agenda
import RoundChain.WordMap

/-!
# The state of a stream

A stream takes in rounds, makes blocks of them, has each block signed and writes it
to a store. `StreamState` is all that it knows between two calls.

## The model

Two views of the chain live side by side:

* `chain` follows the *closing* of blocks; a copy of it is put into ledger state, and
  through the boundary batches into the blocks themselves;
* `finalized` follows the blocks that are signed and stored.

The blocks between the two views are in `queue` and `backlog`: first those whose
signing has begun, then those that still wait for a place among the signings. A
stream that has stopped forgets both. The state a block starts from may be unknown
while the block is open and even after it closed: `slots` has the hashes that were
notified and not used yet, and the rounds whose hash some block waits for;
`delivered` has the hashes that arrived for such rounds.

Signing and writing do not happen during calls. A call only notes in `duties` what
has become due by it.
-/

namespace RoundChain

/-- What intake may do next. -/
inductive Phase where
  | awaitingRound
  | roundOpen (round : UInt64) (time : Timestamp)
  deriving DecidableEq, Repr

/-- The name of a phase in messages. -/
def Phase.text : Phase → String
  | awaitingRound => "awaiting round"
  | roundOpen round _ => s!"round {round} open"

/-- What is known of the state hash of a round. -/
inductive HashSlot where
  /-- It was notified and is not used yet. -/
  | known (hash : BlockHash)
  /-- A block waits for it. -/
  | awaited
  deriving DecidableEq, Repr

/-- A closed block on its way to the store. -/
structure QueuedBlock where
  block : ClosedBlock
  /-- How its signing ended, once it did. -/
  signing : Option (Except StreamError BlockSignature)

/-- A signing that occupies a place. -/
structure Signing where
  number : UInt64
  hash : BlockHash
  /-- Whether the signer was asked before. -/
  asked : Bool
  /-- How it ended, while that is not noticed yet. -/
  outcome : Option (Except StreamError BlockSignature)

/-- The write of the first queued block. -/
structure BlockWrite where
  startState : BlockHash
  signature : BlockSignature
  /-- How it ended, while that is not noticed yet. -/
  outcome : Option (Except StreamError Unit)

/-- What can be due on the way of closed blocks to the store. -/
inductive Duty where
  /-- To begin signing blocks of the backlog. -/
  | takeUp
  /-- To go on with the signing of a block. -/
  | sign (number : UInt64)
  /-- To notice that the signing of a block has ended. -/
  | noteSigned (number : UInt64)
  /-- To see whether the first queued block can be written. -/
  | consider
  /-- To write the first queued block. -/
  | write
  /-- To notice that the write of the first queued block has ended. -/
  | noteWritten
  deriving DecidableEq, Repr

/-- What a stream knows. -/
structure StreamState where
  config : StreamConfig
  policy : BoundaryPolicy
  phase : Phase
  /-- The open block. -/
  pending : Option PendingBlock
  /-- The hash given to begin a new chain at. -/
  anchor : Option BlockHash
  /-- Whether the session has found the chain it continues. -/
  started : Bool
  lastRound : Option UInt64
  /-- The hash of the newest closed block. -/
  lastClosedHash : BlockHash
  /-- The number of the next block to open. -/
  nextNumber : UInt64
  /-- Whether the session continues a chain that was in ledger state. -/
  warm : Bool
  /-- The chain through the newest closed block. -/
  chain : StreamInfo
  /-- The round whose state hash was supplied with the session, until a block was offered it. -/
  initialRound : Option UInt64
  /-- The hash that was supplied with the session. -/
  supplied : Promise BlockHash
  slots : WordMap HashSlot
  delivered : WordMap BlockHash
  /-- The position in ledger state. -/
  ledger : Option StreamInfo
  boundary : BoundaryAccumulator
  /-- Whether closed blocks are still taken; not once it was noticed that nobody writes them. -/
  accepting : Bool
  /-- Closed blocks whose signing has not begun, oldest first. -/
  backlog : List ClosedBlock
  /-- The signings that have not ended. -/
  signings : List Signing
  /-- Closed blocks whose signing has begun, oldest first; the first is the next to be written. -/
  queue : List QueuedBlock
  /-- The write of the first queued block, if it has begun. -/
  writing : Option BlockWrite
  /-- What has become due since signing and writing last went on, in order. -/
  duties : List Duty
  /-- The chain through the newest stored block. -/
  finalized : StreamInfo
  /-- The newest block stored in this session. -/
  lastFinalized : Option UInt64
  /-- Why production has stopped, if it has. -/
  halted : Option String
  metrics : Metrics

/-- The state hash supplied with a session: the round after which it was taken, and the hash. -/
structure InitialState where
  round : UInt64
  hash : Promise BlockHash
  deriving DecidableEq, Repr

namespace StreamState

/-- A stream that has done nothing yet, over a ledger state. -/
def initial (config : StreamConfig) (policy : BoundaryPolicy) (start : InitialState)
    (ledger : Option StreamInfo) : StreamState :=
  let chain := StreamInfo.anchored .zero config.version
  { config, policy
    phase := .awaitingRound, pending := none, anchor := none, started := false
    lastRound := none, lastClosedHash := .zero, nextNumber := 0, warm := false, chain
    initialRound := some start.round, supplied := start.hash, slots := .empty, delivered := .empty
    ledger, boundary := .new
    accepting := true, backlog := [], signings := [], queue := [], writing := none
    duties := [.takeUp, .consider]
    finalized := chain, lastFinalized := none, halted := none, metrics := {} }

/-- A new stream, unless no block could be produced under the settings, or they ask for more places among
the signings than can be handed out. -/
def new (config : StreamConfig) (policy : BoundaryPolicy) (start : InitialState)
    (ledger : Option StreamInfo) : Checked StreamError StreamState := do
  Checked.ofExcept config.validate
  if Limit.mostPlaces < config.maxInFlight then .error (.exceeded .places)
  else return initial config policy start ledger

/-- Whether production goes on. -/
def isLive (s : StreamState) : Bool := s.halted.isNone

/-- Whether every closed block has come to its end. -/
def idle (s : StreamState) : Bool := s.backlog.isEmpty && s.queue.isEmpty

/-- Notes what has become due. -/
def must (s : StreamState) (duty : Duty) : StreamState :=
  if s.duties.contains duty then s else { s with duties := s.duties ++ [duty] }

/-- The state that the first queued block starts from, if that is all its write may have to wait for. -/
def awaitedState? (s : StreamState) : Option StartState :=
  match s.queue with
  | ⟨block, some (.ok _)⟩ :: _ => some block.startState
  | _ => none

/-- Notes that more is known of a state that the first queued block may wait for. -/
def informed (s : StreamState) (startState : StartState) : StreamState :=
  if s.awaitedState? = some startState then s.must .consider else s

/-- The refusal of a call out of turn. -/
def violation (s : StreamState) (operation : String) : StreamError :=
  .orderingViolation operation s.phase.text

end StreamState

end RoundChain
