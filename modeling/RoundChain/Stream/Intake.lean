import RoundChain.Stream.State

/-!
# Intake

The calls that bring rounds into a stream. None of them waits for a signature or for
the store. Each answers with its outcome and the state that it leaves; a refused call
leaves the state as it found it, except that ending a round always ends it, even if
the block that should have closed there could not be closed.

    awaiting round —startRound→ round open —endRound→ awaiting round
                                 |   ↑
                                 writeItem
-/

namespace RoundChain

/-- The outcome of a call on a stream, and the state it leaves. -/
abbrev StreamCall (α : Type) := Checked StreamError α × StreamState

namespace StreamCall

/-- Goes on from a call that succeeded. -/
def andThen {α β : Type} (call : StreamCall α) (next : α → StreamState → StreamCall β) :
    StreamCall β :=
  match call with
  | (.ok a, s) => next a s
  | (.error e, s) => (.error e, s)

end StreamCall

namespace StreamState

/-! ### Beginning a session -/

/-- Gives the hash to begin a new chain at. -/
def initLastHash (s : StreamState) (hash : BlockHash) : StreamCall Unit :=
  if s.started ∨ s.lastRound.isSome ∨ s.anchor.isSome then (refuse .alreadyInitialized, s)
  else (.ok (), { s with anchor := some hash })

/-- The chain that the session continues: the one in ledger state, or a new one at the anchor. -/
def origin? (s : StreamState) : Option StreamInfo :=
  s.ledger <|> s.anchor.map fun anchor => StreamInfo.anchored anchor s.config.version

/-- Finds the chain to continue, at the first round of a session. -/
def bootstrap (s : StreamState) : StreamCall Unit :=
  if s.started then (.ok (), s)
  else
    match s.origin? with
    | none => (refuse .notInitialized, s)
    | some info =>
      let s := { s with warm := s.ledger.isSome, lastClosedHash := info.lastHash }
      match info.nextNumber with
      | .error e => (.error e, s)
      | .ok n =>
        (.ok (), { s with nextNumber := n, chain := info, finalized := info, started := true })

/-! ### State hashes -/

/-- The start state of a block whose first round is `round`, from the notified hashes: the hash of the
round before, or the promise of it. -/
def startStateFromSlots (s : StreamState) (round : UInt64) : StartState × StreamState :=
  if round = 0 then (.known .zero, s)
  else
    match s.slots.find? (round - 1) with
    | some (.known hash) => (.known hash, { s with slots := s.slots.erase (round - 1) })
    | _ => (.notified (round - 1), { s with slots := s.slots.insert (round - 1) .awaited })

/-- The start state of a block whose first round is `round`. The first block of a session takes the
hash supplied with it, if that was taken right before the round or if the chain is new. -/
def startStateFor (s : StreamState) (round : UInt64) : StreamCall StartState :=
  match s.initialRound with
  | none => let r := s.startStateFromSlots round; (.ok r.1, r.2)
  | some initial =>
    let s := { s with initialRound := none }
    match nextWord initial with
    | .error e => (.error e, s)
    | .ok next =>
      if next = round ∨ !s.warm then (.ok .supplied, s)
      else
        let r := { s with supplied := s.supplied.dropReader.2 }.startStateFromSlots round
        (.ok r.1, r.2)

/-- Forgets the notified hashes that no block can need any more. -/
def pruneSlots (s : StreamState) (round : UInt64) : StreamCall Unit :=
  if s.slots.contains (UInt64.ofNat (UInt64.size - 1)) then (.error (.exceeded .word), s)
  else
    (.ok (), { s with slots := s.slots.filter fun r slot => round ≤ r + 1 || slot == .awaited })

/-- Takes the state hash of a round: for the block that waits for it, or for one to come. -/
def notify (s : StreamState) (round : UInt64) (hash : BlockHash) : StreamState :=
  match s.slots.find? round with
  | some .awaited =>
    { s with slots := s.slots.erase round, delivered := s.delivered.insert round hash }.informed
      (.notified round)
  | _ => { s with slots := s.slots.insert round (.known hash) }

/-- Supplies the hash of the state before the session, if it is still to be supplied, and says whether
anyone asks for it. -/
def supplyInitial (s : StreamState) (hash : BlockHash) : Option Bool × StreamState :=
  let (r, supplied) := s.supplied.write hash
  (r, { s with supplied }.informed .supplied)

/-- Gives up supplying the hash of the state before the session, and says whether it was still to be
supplied. -/
def abandonInitial (s : StreamState) : Bool × StreamState :=
  let (r, supplied) := s.supplied.dropWriter
  (r, { s with supplied }.informed .supplied)

/-! ### Rounds -/

/-- Refuses a round that does not follow the last one. -/
def checkSequence (s : StreamState) (round : UInt64) : Checked StreamError Unit :=
  match s.lastRound with
  | none => .ok ()
  | some previous => do
    if round = (← nextWord previous) then return ()
    else refuse (.nonSequentialRound previous round)

/-- Opens a block at a round. -/
def openBlock (s : StreamState) (round : UInt64) (time : Timestamp) : StreamCall Unit :=
  (s.startStateFor round).andThen fun startState s =>
    match PendingBlock.start s.nextNumber s.lastClosedHash round time s.config.version startState with
    | .error e => (refuse e, s)
    | .ok block => (.ok (), { s with pending := some block, metrics := s.metrics.countItem })

/-- Begins a round in the open block, or in a new one. -/
def joinRound (s : StreamState) (round : UInt64) (time : Timestamp) : StreamCall Unit :=
  match s.pending with
  | some block => (.ok (), { s with pending := some (block.beginRound round time) })
  | none => s.openBlock round time

/-- Starts a round. -/
def startRound (s : StreamState) (round : UInt64) (time : Timestamp) : StreamCall Unit :=
  match s.halted, s.phase with
  | some reason, _ => (refuse (.halted reason), s)
  | none, .roundOpen .. => (refuse (s.violation "start_round"), s)
  | none, .awaitingRound =>
    match s.checkSequence round with
    | .error e => (.error e, s)
    | .ok () =>
      s.bootstrap.andThen fun () s =>
        (s.joinRound round time).andThen fun () s =>
          pruneSlots
            { s with lastRound := some round, phase := .roundOpen round time
                     metrics := s.metrics.countRound } round

/-- Adds an item to the open block. -/
def writeItem (s : StreamState) (item : Item) : StreamCall Unit :=
  match s.phase, s.pending with
  | .awaitingRound, _ => (refuse (s.violation "write_item"), s)
  | .roundOpen .., none => (refuse (.internal "round open without a block"), s)
  | .roundOpen .., some block =>
    match block.append item with
    | .error e => (refuse e, s)
    | .ok block => (.ok (), { s with pending := some block, metrics := s.metrics.countItem })

/-! ### Closing blocks -/

/-- Hands a closed block on to be signed and written, if blocks are still taken. -/
def handOver (s : StreamState) (closed : ClosedBlock) : StreamCall Unit :=
  if s.accepting then (.ok (), { s with backlog := s.backlog ++ [closed] }.must .takeUp)
  else (refuse .pipelineClosed, s)

/-- Makes a closed block the newest of the chain, and hands it on. -/
def extendChain (s : StreamState) (closed : ClosedBlock) : StreamCall Unit :=
  let s := { s with lastClosedHash := closed.hash }
  match nextWord closed.number with
  | .error e => (.error e, s)
  | .ok next =>
    let chain := s.chain.record closed.number closed.hash closed.endTime s.config.trailingLimit
    { s with nextNumber := next, chain, ledger := some chain
             metrics := s.metrics.countClosed }.handOver closed

/-- Ends the open block with the two boundary batches. -/
def sealBlock (s : StreamState) (block : PendingBlock) (time : Timestamp)
    (captured position : ChangeBatch) : StreamCall Unit :=
  let s := { s with pending := none }
  let ended := do (← block.append (.stateChanges captured)).append (.stateChanges position)
  match ended with
  | .error e => (refuse e, s)
  | .ok block => { s with metrics := s.metrics.countItem.countItem }.extendChain (block.close time)

/-- Closes the open block. The position that the block publishes is put into ledger state first: the
chain up to the block before it. -/
def closeBlock (s : StreamState) (block : PendingBlock) (time : Timestamp) : StreamCall Unit :=
  let s := { s with ledger := some s.chain }
  match s.boundary.beginBoundary time with
  | .error e => (refuse e, s)
  | .ok boundary =>
    match boundary.flush s.ledger with
    | .error e => (refuse e, { s with boundary })
    | .ok (captured, boundary) =>
      match boundary.flush s.ledger with
      | .error e => (refuse e, { s with boundary })
      | .ok (position, boundary) => { s with boundary }.sealBlock block time captured position

/-- Closes the open block if the policy says so. -/
def closeAtBoundary (s : StreamState) (time : Timestamp) : StreamCall Unit :=
  match s.pending with
  | none => (refuse (.internal "round open without a block"), s)
  | some block => if s.policy block s.config then s.closeBlock block time else (.ok (), s)

/-- Ends the open round. -/
def endRound (s : StreamState) (round : UInt64) : StreamCall Unit :=
  match s.phase with
  | .awaitingRound => (refuse (s.violation "end_round"), s)
  | .roundOpen opened time =>
    if opened ≠ round then (refuse (.roundMismatch opened round), s)
    else { s with phase := .awaitingRound }.closeAtBoundary time

/-! ### The shared boundary -/

/-- Captures state changes for the next boundary. -/
def capture (s : StreamState) (batch : ChangeBatch) : StreamState :=
  { s with boundary := s.boundary.capture batch }

/-- Begins a boundary by hand. -/
def beginBoundary (s : StreamState) (time : Timestamp) : StreamCall Unit :=
  match s.boundary.beginBoundary time with
  | .ok boundary => (.ok (), { s with boundary })
  | .error e => (refuse e, s)

/-- Takes the next batch of a boundary by hand. -/
def flushBoundary (s : StreamState) : StreamCall ChangeBatch :=
  match s.boundary.flush s.ledger with
  | .ok (batch, boundary) => (.ok batch, { s with boundary })
  | .error e => (refuse e, s)

end StreamState

end RoundChain
