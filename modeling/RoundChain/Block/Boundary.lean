import RoundChain.Block.Digest

/-!
# Boundary batches

Two batches of state changes end the body of every block: the changes the ledger
captured last, and then the stream's own position, read from ledger state at that
moment. A `BoundaryAccumulator` holds the captured batch until a boundary flushes
it, and admits the two flushes in their order only.

## The model

A boundary goes through three phases:

    idle —begin→ awaitingLedger —flush→ awaitingSingleton —flush→ idle

Every operation answers with the accumulator it leaves, or with a cause and no
accumulator: a refused operation has no effect to describe.
-/

namespace RoundChain

/-- How far a boundary has come. -/
inductive FlushPhase where
  | idle
  | awaitingLedger
  | awaitingSingleton
  deriving DecidableEq, Repr

/-- The name of a phase in messages. -/
def FlushPhase.text : FlushPhase → String
  | idle => "Idle"
  | awaitingLedger => "AwaitingLedgerFlush"
  | awaitingSingleton => "AwaitingSingletonFlush"

/-- What waits for the next boundary, and where the present one stands. -/
structure BoundaryAccumulator where
  phase : FlushPhase
  captured : Option ChangeBatch
  /-- When the last boundary began. -/
  time : Option Timestamp
  deriving DecidableEq, Repr

namespace BoundaryAccumulator

/-- An accumulator before its first boundary. -/
def new : BoundaryAccumulator := ⟨.idle, none, none⟩

/-- Captures a batch in place of one captured earlier. -/
def capture (acc : BoundaryAccumulator) (batch : ChangeBatch) : BoundaryAccumulator :=
  { acc with captured := some batch }

/-- The refusal of an operation out of turn. -/
def violation (acc : BoundaryAccumulator) : StreamError := .flushProtocolViolation acc.phase.text

/-- Begins a boundary. -/
def beginBoundary (acc : BoundaryAccumulator) (time : Timestamp) :
    Except StreamError BoundaryAccumulator :=
  match acc.phase with
  | .idle => .ok { acc with phase := .awaitingLedger, time := some time }
  | _ => .error acc.violation

/-- When the last boundary began. -/
def boundaryTime (acc : BoundaryAccumulator) : Except StreamError Timestamp :=
  match acc.time with
  | some time => .ok time
  | none => .error .noBoundaryReached

/-- The batch that publishes the stream's position. -/
def positionBatch (time : Timestamp) (info : StreamInfo) : ChangeBatch :=
  ⟨time, [⟨streamInfoStateId, .singleton (.streamInfo info)⟩]⟩

/-- The next batch of the boundary: first the captured one, or an empty one if there is none, then
the position that ledger state holds. -/
def flush (acc : BoundaryAccumulator) (ledger : Option StreamInfo) :
    Except StreamError (ChangeBatch × BoundaryAccumulator) := do
  match acc.phase with
  | .idle => .error acc.violation
  | .awaitingLedger =>
    let time ← acc.boundaryTime
    return (acc.captured.getD ⟨time, []⟩, { acc with phase := .awaitingSingleton, captured := none })
  | .awaitingSingleton =>
    let time ← acc.boundaryTime
    match ledger with
    | none => .error (.internal "block stream info missing from state at boundary")
    | some info => return (positionBatch time info, { acc with phase := .idle })

end BoundaryAccumulator

end RoundChain
