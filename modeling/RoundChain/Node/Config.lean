import RoundChain.Config.Reading
import RoundChain.Node.Error
import RoundChain.Node.Telemetry
import RoundChain.Node.StandingFiles

/-!
# Settings of a node

A node's settings come in layers: every setting has a default, a JSON file can set
any of them, and environment variables go before the file. `NodeConfig.load` puts
the layers together and refuses settings that a node cannot run with.
-/

namespace RoundChain

/-! ### Sections -/

/-- The roster that a node signs with. -/
structure RosterConfig where
  /-- The number of nodes. -/
  size : UInt64 := 4
  /-- The number of nodes that a threshold signature takes. -/
  threshold : Nat := 3
  /-- How long the bootstrap of the roster takes to begin. -/
  bootstrapDelayMs : UInt64 := 0
  deriving DecidableEq, Repr, Inhabited

/-- The rounds that a node makes up. -/
structure RoundConfig where
  /-- The time from one round to the next. -/
  intervalMs : UInt64 := 200
  eventsPerRound : UInt32 := 3
  transactionsPerEvent : UInt32 := 2
  firstRound : UInt64 := 1
  /-- The number of rounds after which to stop, if there is an end. -/
  maxRounds : Option UInt64 := none
  deriving DecidableEq, Repr, Inhabited

/-- All settings of a node. -/
structure NodeConfig where
  nodeId : UInt64 := 0
  stream : StreamConfig := {}
  telemetry : TelemetryConfig := {}
  roster : RosterConfig := {}
  rounds : RoundConfig := {}
  /-- How long closed blocks may take to get stored at the end. -/
  shutdownTimeoutMs : UInt64 := 10000
  deriving DecidableEq, Repr, Inhabited

/-! ### Reading -/

/-- The roster settings that a JSON value gives. -/
def RosterConfig.ofJson? (j : Json) : Option RosterConfig := do
  let d : RosterConfig := {}
  match ← j.fields? ["size", "threshold", "bootstrap_delay_ms"] with
  | [size, threshold, delay] =>
    return { size := ← Json.fieldOr? Json.word64? d.size size
             threshold := ← Json.fieldOr? Json.count? d.threshold threshold
             bootstrapDelayMs := ← Json.fieldOr? Json.word64? d.bootstrapDelayMs delay }
  | _ => none

namespace RoundConfig

/-- The round settings that a JSON value gives. -/
def ofJson? (j : Json) : Option RoundConfig := do
  let d : RoundConfig := {}
  match ← j.fields? ["round_interval_ms", "events_per_round", "transactions_per_event",
      "first_round", "max_rounds"] with
  | [interval, events, transactions, first, most] =>
    return { intervalMs := ← Json.fieldOr? Json.word64? d.intervalMs interval
             eventsPerRound := ← Json.fieldOr? Json.word32? d.eventsPerRound events
             transactionsPerEvent := ← Json.fieldOr? Json.word32? d.transactionsPerEvent transactions
             firstRound := ← Json.fieldOr? Json.word64? d.firstRound first
             maxRounds := ← Json.fieldOr? (Json.orNull? Json.word64?) d.maxRounds most }
  | _ => none

/-- The round settings that a JSON text spells. -/
def parse? (text : String) : Option RoundConfig := do ofJson? (← Json.parse? text)

end RoundConfig

namespace NodeConfig

/-- The settings that a JSON value gives. -/
def ofJson? (j : Json) : Option NodeConfig := do
  let d : NodeConfig := {}
  match ← j.fields? ["node_id", "stream", "telemetry", "roster", "driver", "shutdown_timeout_ms"] with
  | [node, stream, telemetry, roster, rounds, timeout] =>
    return { nodeId := ← Json.fieldOr? Json.word64? d.nodeId node
             stream := ← Json.fieldOr? (StreamConfig.ofJson? 1) d.stream stream
             telemetry := ← Json.fieldOr? TelemetryConfig.ofJson? d.telemetry telemetry
             roster := ← Json.fieldOr? RosterConfig.ofJson? d.roster roster
             rounds := ← Json.fieldOr? RoundConfig.ofJson? d.rounds rounds
             shutdownTimeoutMs := ← Json.fieldOr? Json.word64? d.shutdownTimeoutMs timeout }
  | _ => none

/-- The settings that a JSON text spells. -/
def parse? (text : String) : Option NodeConfig := do ofJson? (← Json.parse? text)

/-! ### Environment variables -/

/-- The settings with those of a variable changed, if the variable is set. -/
def withVariable {α : Type} (value : Option α) (set : NodeConfig → α → NodeConfig) (c : NodeConfig) :
    NodeConfig :=
  match value with
  | some a => set c a
  | none => c

/-- The settings with those of a variable changed that must hold a number. -/
def withNumber (env : Environment) (name : String) (set : NodeConfig → UInt64 → NodeConfig)
    (c : NodeConfig) : Except NodeError NodeConfig :=
  match env.find? name with
  | none => .ok c
  | some text =>
    match Numeral.readWord text with
    | .ok n => .ok (set c n)
    | .error e => .error (.notAnInteger name e)

/-- The settings with what environment variables say in place of them. -/
def override (env : Environment) (c : NodeConfig) : Except NodeError NodeConfig := do
  let c ← c.withNumber env "BS_NODE_ID" fun c n =>
    { c with nodeId := n, telemetry := { c.telemetry with nodeId := n } }
  let c := c.withVariable (env.find? "BS_DATA_DIR") fun c v =>
    { c with stream := { c.stream with storage := { c.stream.storage with dataDir := v } } }
  let c := c.withVariable (env.flag? "BS_COMPRESS") fun c v =>
    { c with stream := { c.stream with storage := { c.stream.storage with compress := v } } }
  let c := c.withVariable (env.flag? "BS_HINTS_ENABLED") fun c v =>
    { c with stream := { c.stream with schemes := { c.stream.schemes with hints := v } } }
  let c := c.withVariable (env.flag? "BS_HISTORY_ENABLED") fun c v =>
    { c with stream := { c.stream with schemes := { c.stream.schemes with history := v } } }
  let c ← c.withNumber env "BS_ROUNDS_PER_BLOCK" fun c n =>
    { c with stream := { c.stream with boundary := .rounds n } }
  let c ← c.withNumber env "BS_ROUND_INTERVAL_MS" fun c n =>
    { c with rounds := { c.rounds with intervalMs := n } }
  let c ← c.withNumber env "BS_MAX_ROUNDS" fun c n =>
    { c with rounds := { c.rounds with maxRounds := some n } }
  let c := c.withVariable env.logLevel? fun c v =>
    { c with telemetry := { c.telemetry with logLevel := v } }
  return c.withVariable (env.flag? "BS_JSON_LOGS") fun c v =>
    { c with telemetry := { c.telemetry with format := .ofFlag v } }

/-! ### Validation -/

/-- Refuses settings that a node cannot run with. -/
def validate (c : NodeConfig) : Except NodeError Unit := do
  c.stream.validate.mapError .invalidStream
  if c.roster.size = 0 then .error .emptyRoster
  else if c.stream.schemes.hints ∧ (c.roster.threshold = 0 ∨ c.roster.size.toNat < c.roster.threshold)
  then .error (.thresholdOutOfRange c.roster.size)
  else if c.rounds.intervalMs = 0 then .error .noRoundInterval
  else return ()

/-! ### Loading -/

/-- The variables that settings are taken from, and the one that names the settings file. -/
def variableNames : List String :=
  ["BS_CONFIG_FILE", "BS_NODE_ID", "BS_DATA_DIR", "BS_COMPRESS", "BS_HINTS_ENABLED",
    "BS_HISTORY_ENABLED", "BS_ROUNDS_PER_BLOCK", "BS_ROUND_INTERVAL_MS", "BS_MAX_ROUNDS",
    "BS_LOG_LEVEL", "RUST_LOG", "BS_JSON_LOGS"]

/-- A settings file: its path, and its text or why it cannot be read. -/
structure SettingsFile where
  path : String
  text : Except String String

/-- The file that a path leads to where only standing files are. -/
def SettingsFile.standing (path : String) : SettingsFile :=
  ⟨path, (StandingFiles.read path).mapError PathError.message⟩

/-- The settings in a file. -/
def ofFile (file : SettingsFile) : Except NodeError NodeConfig :=
  match file.text with
  | .error reason => .error (.settingsUnreadable file.path reason)
  | .ok text =>
    match parse? text with
    | some c => .ok c
    | none => .error (.settingsMalformed file.path)

/-- The settings that a node is started with: those of its file, if it has one, under those of the
environment. -/
def load (file : Option SettingsFile) (env : Environment) : Except NodeError NodeConfig := do
  let c ← match file with
    | some file => ofFile file
    | none => .ok {}
  let c ← c.override env
  c.validate
  return c

end NodeConfig

end RoundChain
