import RoundChain.Node.Config
import RoundChain.Stream.Intake

/-!
# A source of rounds

`RoundSource` makes up rounds and feeds them to a stream as a network would. Each
round has the same number of events with the same number of transactions; its items
follow from its number:

    round header
    for each event:  event header
                     for each transaction:  transaction, result

After the items the platform's state change is captured and the round ends; then the
hash of the state that it led to is notified.
-/

namespace RoundChain

/-- The hash of the state that a round leads to. -/
def stateHash (round : UInt64) : BlockHash :=
  .sha384 (Bytes.ofText "block-stream/state" ++ Bytes.ofNatLE 8 round.toNat)

/-- A source of rounds and how far it has come. -/
structure RoundSource where
  config : RoundConfig
  /-- The number of nodes that create events, at least one. -/
  rosterSize : UInt64
  nextRound : UInt64
  /-- The consensus time of the next round. -/
  clock : Timestamp
  /-- The number of rounds fed so far. -/
  driven : UInt64
  deriving DecidableEq, Repr

namespace RoundSource

/-- A source that has fed nothing yet and begins at a consensus time. -/
def new (config : RoundConfig) (rosterSize : UInt64) (start : Timestamp) : RoundSource :=
  ⟨config, max rosterSize 1, config.firstRound, start, 0⟩

/-- Whether all rounds are fed that should be. -/
def finished (d : RoundSource) : Bool := d.config.maxRounds.any (· ≤ d.driven)

/-! ### The items of a round -/

/-- The two items of a transaction. -/
def transactionItems (round : UInt64) (event transaction : Nat) : List Item :=
  let name := s!"{round}-{event}-{transaction}"
  [.eventTransaction (Bytes.ofText ("tx-" ++ name)), .transactionResult (Bytes.ofText ("ok-" ++ name))]

/-- The items of an event; the nodes of the roster create events in turn. -/
def eventItems (d : RoundSource) (round : UInt64) (event : Nat) : List Item :=
  .eventHeader (UInt64.ofNat (event % d.rosterSize.toNat)) ::
    (List.range d.config.transactionsPerEvent.toNat).flatMap (transactionItems round event)

/-- The items of a round. -/
def roundItems (d : RoundSource) (round : UInt64) : List Item :=
  .roundHeader round :: (List.range d.config.eventsPerRound.toNat).flatMap (d.eventItems round)

/-- The state change that a round leads to. -/
def roundChanges (round : UInt64) (time : Timestamp) : ChangeBatch :=
  ⟨time, [⟨platformStateId, .singleton (.platformState ⟨round, time⟩)⟩]⟩

/-! ### Feeding -/

/-- Adds items to the open block, up to the first that is refused. -/
def writeItems (s : StreamState) : List Item → StreamCall Unit
  | [] => (.ok (), s)
  | item :: rest => (s.writeItem item).andThen fun () s => writeItems s rest

/-- Feeds the next round to a stream. -/
def feed (d : RoundSource) (s : StreamState) : StreamCall Unit :=
  (s.startRound d.nextRound d.clock).andThen fun () s =>
    (writeItems s (d.roundItems d.nextRound)).andThen fun () s =>
      ((s.capture (roundChanges d.nextRound d.clock)).endRound d.nextRound).andThen fun () s =>
        (.ok (), s.notify d.nextRound (stateHash d.nextRound))

/-- Moves on to the round after the next. -/
def advance (d : RoundSource) : Checked StreamError Unit × RoundSource :=
  match nextWord d.nextRound with
  | .error e => (.error e, d)
  | .ok next =>
    let d := { d with nextRound := next }
    match nextWord d.driven with
    | .error e => (.error e, d)
    | .ok driven =>
      let d := { d with driven }
      match d.clock.plusMillis d.config.intervalMs with
      | .error e => (.error e, d)
      | .ok clock => (.ok (), { d with clock })

/-- Feeds a round to a stream and moves on; answers with the number of items written. -/
def drive (d : RoundSource) (s : StreamState) : Checked StreamError Nat × RoundSource × StreamState :=
  match d.feed s with
  | (.error e, s) => (.error e, d, s)
  | (.ok (), s) =>
    let items := (d.roundItems d.nextRound).length
    let (r, d) := d.advance
    (r.map fun () => items, d, s)

/-- Feeds rounds until they are used up or one fails, and at most `rounds`: what each came to, with the
source and the stream that it left. -/
def driveAll (rounds : Nat) (d : RoundSource) (s : StreamState) :
    List (Checked StreamError Nat × RoundSource × StreamState) :=
  match rounds with
  | 0 => []
  | rounds + 1 =>
    if d.finished then []
    else
      match d.drive s with
      | (.ok n, d, s) => (.ok n, d, s) :: driveAll rounds d s
      | failed => [failed]

end RoundSource

end RoundChain
