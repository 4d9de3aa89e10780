import RoundChain.Store.Recovery
import RoundChain.Store.Target
import RoundChain.Stream.Session

/-!
# Restarts

A session that was cut off, or ended, is followed by another over the same signer and
the same stores. What ledger state the next one finds is a choice: the one that was
left, none at all, or the position that the block files tell.
-/

namespace RoundChain

/-- The ledger state that a session begins with. -/
inductive LedgerSource where
  /-- The one that the session before left. -/
  | kept
  /-- None. -/
  | empty
  /-- The position that the block files tell. -/
  | files
  deriving DecidableEq, Repr, Inhabited

/-- A signer and stores, with the sessions that follow one another over them: the last one, and whether it
still takes calls. -/
structure Production (σ : Type) where
  session : Session σ BlockStores
  /-- False once the session was shut down, or the one to follow could not begin. -/
  running : Bool

namespace Production

variable {σ : Type} [Compression]

/-- The first session over a signer and empty stores. -/
def new (config : StreamConfig) (stream : StreamState) (signer : σ) (target : StoreTarget) :
    Production σ :=
  ⟨.new stream signer ((BlockStores.new target).addDesk config.storage.compress), true⟩

/-- The production with its stream replaced. -/
def withStream (p : Production σ) (stream : StreamState) : Production σ :=
  { p with session := { p.session with stream } }

/-- The production with its stores replaced. -/
def withStore (p : Production σ) (store : BlockStores) : Production σ :=
  { p with session := { p.session with store } }

/-- The production with the ledger state replaced. -/
def withLedger (p : Production σ) (ledger : Option StreamInfo) : Production σ :=
  p.withStream { p.session.stream with ledger }

/-! ### One session -/

/-- Ends the open round; the signer is told if a block closes. -/
def endRound (signer : Signer σ) (round : UInt64) (p : Production σ) :
    Checked StreamError Unit × Production σ :=
  let (r, stream) := p.session.stream.endRound round
  let told :=
    if stream.metrics.closed = p.session.stream.metrics.closed then p.session.signer
    else signer.note p.session.signer stream.lastClosedHash
  (r, { p with session := { p.session with stream, signer := told } })

/-- Signs and writes until nothing more can happen. -/
def settle (signer : Signer σ) (p : Production σ) : Production σ :=
  { p with session := p.session.settle signer BlockStores.writer }

/-- Ends the session. -/
def shutdown (signer : Signer σ) (p : Production σ) : Shutdown × Production σ :=
  let (r, session) := p.session.shutdown signer BlockStores.writer
  (r, ⟨session, false⟩)

/-! ### The next session -/

/-- Puts into ledger state what the next session is to find there; answers with the position that the block
files told, if it was asked for. -/
def loadLedger (config : StreamConfig) (p : Production σ) :
    LedgerSource → Checked StreamError (Option StreamInfo) × Production σ
  | .kept => (.ok none, p)
  | .empty => (.ok none, p.withLedger none)
  | .files =>
    match Recovery.recover p.session.store.dir config.version config.trailingLimit with
    | .error e => (.error e, p.withLedger none)
    | .ok info => (.ok info, p.withLedger info)

/-- Begins the next session over what the one before left; nobody supplies that one's state hash any
more. -/
def follow (config : StreamConfig) (stream : StreamState) (p : Production σ) : Production σ :=
  let before := p.session.stream.abandonInitial.2
  ⟨{ p.session with
      stream, earlier := before :: p.session.earlier
      store := p.session.store.addDesk config.storage.compress }, true⟩

/-- Begins the next session; the one before is cut off first if it still takes calls. Answers with the
position that the block files told, if it was asked for. -/
def restart (signer : Signer σ) (config : StreamConfig) (start : InitialState) (source : LedgerSource)
    (p : Production σ) : Checked StreamError (Option StreamInfo) × Production σ :=
  let cut : Production σ := ⟨p.session.drain signer BlockStores.writer, false⟩
  match cut.loadLedger config source with
  | (.error e, p) => (.error e, p)
  | (.ok told, p) =>
    match StreamState.new config p.session.stream.policy start p.session.stream.ledger with
    | .error e => (.error e, p)
    | .ok stream => (.ok told, p.follow config stream)

end Production

end RoundChain
