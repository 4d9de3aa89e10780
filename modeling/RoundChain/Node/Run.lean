import RoundChain.Libraries
import RoundChain.Node.Roster
import RoundChain.Node.RoundSource
import RoundChain.Store.FileStore
import RoundChain.Store.Recovery
import RoundChain.Stream.Session

/-!
# Running a node

A node continues the chain in a directory of block files, or begins one at the zero
hash. It feeds rounds to its stream until they are used up or the stream refuses
one; meanwhile closed blocks are signed and stored. In the end the roster's
bootstrap is waited for and what is left gets stored.

`Node.start`, `Node.tick` and `Node.finish` are the three parts of a run; `Node.run`
is the whole of it. A node runs with any libraries; a program has those of
`RoundChain.Libraries`.
-/

namespace RoundChain

/-- A node at work. -/
structure Node where
  config : NodeConfig
  source : RoundSource
  session : Session SchemeSigner FileStore
  /-- Why the stream refused a round, if it did. -/
  failure : Option StreamError

namespace Node

variable [Compression] [Ed25519.Library] [Bls12381.Library]

/-! ### Starting -/

/-- The consensus time of the first round: now, or, if the chain has come further than that, one interval
past its end. -/
def startTime (now : Timestamp) (recovered : Option StreamInfo) (intervalMs : UInt64) :
    Checked NodeError Timestamp :=
  match recovered.bind (·.lastEndTime) with
  | none => .ok now
  | some last => if last.compare now = .lt then .ok now else last.plusMillis intervalMs

/-- The state hash that a node supplies: that of the round before its first. -/
def initialState (firstRound : UInt64) : InitialState :=
  let previous := if firstRound = 0 then 0 else firstRound - 1
  ⟨previous, .resolved (stateHash previous)⟩

/-- A stream that continues the recovered chain, or begins one at the zero hash. -/
def openStream (config : NodeConfig) (recovered : Option StreamInfo) :
    Checked StreamError StreamState := do
  let stream ←
    StreamState.new config.stream .configured (initialState config.rounds.firstRound) recovered
  if recovered.isSome then return stream
  else
    match stream.initLastHash .zero with
    | (.ok (), stream) => return stream
    | (.error e, _) => .error e

/-- Starts a node over a directory of block files. -/
def start (config : NodeConfig) (now : Timestamp) (dir : Directory) : Checked NodeError Node := do
  let cause {α : Type} (r : Checked StreamError α) : Checked NodeError α := r.mapCause .stream
  let signer ← cause (Checked.ofExcept (Roster.signer config.stream.schemes config.roster))
  let recovered ← Checked.mapCause .recovery
    (Recovery.recover dir config.stream.version config.stream.trailingLimit)
  let time ← startTime now recovered config.rounds.intervalMs
  let stream ← cause (openStream config recovered)
  return { config
           source := .new config.rounds config.roster.size time
           session := .new stream signer (.new dir config.stream.storage.compress)
           failure := none }

/-! ### Working -/

/-- The directory of block files. -/
def dir (node : Node) : Directory := node.session.store.dir

/-- The writer of the node's session. -/
def writer (_place : Nat) : Writer FileStore := FileStore.writer

/-- Signs and stores what can be. -/
def settle (node : Node) : Node :=
  { node with session := node.session.settle SchemeSigner.signer writer }

/-- Whether no round follows. -/
def stopped (node : Node) : Bool := node.source.finished || node.failure.isSome

/-- Feeds a round, and signs and stores what can be. A refusal ends the work of the node. -/
def tick (node : Node) : Checked NodeError Unit × Node :=
  let (r, source, stream) := node.source.drive node.session.stream
  let node := { node with source, session := { node.session with stream } }
  match r with
  | .ok _ => (.ok (), node.settle)
  | .error (.refused e) => (.ok (), { node with failure := some e })
  | .error (.exceeded limit) => (.error (.exceeded limit), node)

/-- Feeds rounds until no more should follow, and at most `rounds`. -/
def work (rounds : Nat) (node : Node) : Checked NodeError Unit × Node :=
  match rounds with
  | 0 => (.ok (), node)
  | rounds + 1 =>
    if node.stopped then (.ok (), node)
    else
      match node.tick with
      | (.ok (), node) => work rounds node
      | (.error e, node) => (.error e, node)

/-! ### Finishing -/

/-- Milliseconds since the start: the first round is fed at once, each further one an interval later. -/
def elapsedMs (node : Node) : Nat := (node.source.driven.toNat - 1) * node.config.rounds.intervalMs.toNat

/-- Milliseconds until the bootstrap begins. -/
def bootstrapWaitMs (node : Node) : Nat := node.config.roster.bootstrapDelayMs.toNat - node.elapsedMs

/-- Whether the bootstrap ends too late for a shutdown within its time. -/
def overdue (node : Node) : Bool :=
  let limit := node.config.shutdownTimeoutMs.toNat
  limit = 0 || limit < node.bootstrapWaitMs

/-- Bootstraps the roster. -/
def bootstrap (node : Node) : Checked NodeError Unit × Node :=
  let signer := node.session.signer
  let (r, services) := Roster.bootstrap node.config.roster.size signer.services
  (r, { node with session := { node.session with signer := { signer with services } } })

/-- What a node ends with once its stream is shut down. -/
def outcome (node : Node) : Shutdown → Checked NodeError Unit
  | .halted reason => refuse (.shutdown (.halted reason))
  | .pending => refuse (.shutdownExceeded node.config.shutdownTimeoutMs)
  | .done _ =>
    match node.failure with
    | some e => refuse (.intake e)
    | none => .ok ()

/-- Bootstraps the roster and shuts the stream down. -/
def finish (node : Node) : Checked NodeError Unit × Node :=
  if node.overdue then (refuse (.shutdownExceeded node.config.shutdownTimeoutMs), node)
  else
    match node.bootstrap with
    | (.error e, node) => (.error e, node)
    | (.ok (), node) =>
      let (r, session) := node.session.shutdown SchemeSigner.signer writer
      let node := { node with session }
      (node.outcome r, node)

/-! ### The whole run -/

/-- The settings that a node is started with; a log filter among them has to be one. -/
def settings (file : Option NodeConfig.SettingsFile) (env : Environment) :
    Except NodeError NodeConfig := do
  let config ← NodeConfig.load file env
  (LogFilter.check config.telemetry.logLevel).mapError .invalidLogFilter
  return config

/-- Runs a node with loaded settings over a directory, for at most `rounds` rounds; answers with how it
ended and the directory that it left. -/
def runWith (config : NodeConfig) (now : Timestamp) (rounds : Nat) (dir : Directory) :
    Checked NodeError Unit × Directory :=
  match start config now dir with
  | .error e => (.error e, dir)
  | .ok node =>
    match node.work rounds with
    | (.error e, node) => (.error e, node.dir)
    | (.ok (), node) =>
      let (r, node) := node.finish
      (r, node.dir)

/-- Runs a node with the settings of a file and the environment. -/
def run (file : Option NodeConfig.SettingsFile) (env : Environment) (now : Timestamp) (rounds : Nat)
    (dir : Directory) : Checked NodeError Unit × Directory :=
  match settings file env with
  | .error e => (refuse e, dir)
  | .ok config => runWith config now rounds dir

end Node

end RoundChain
