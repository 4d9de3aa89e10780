import RoundChain.Json.Record
import RoundChain.Node.Environment

/-!
# Settings of logging

What a node's log messages look like and which of them are written. The settings
can come from a JSON record or from environment variables alone.
-/

namespace RoundChain

/-- The form of log messages. -/
inductive LogFormat where
  /-- Lines for people. -/
  | pretty
  /-- A JSON object per line. -/
  | json
  deriving DecidableEq, Repr, Inhabited

namespace LogFormat

/-- The name of a form in the settings. -/
def name : LogFormat → String
  | pretty => "pretty"
  | json => "json"

/-- The form with a name. -/
def ofName? (name : String) : Option LogFormat := [pretty, json].find? (·.name == name)

/-- A form by its name, or by an object whose one member has that name. -/
def ofJson? : Json → Option LogFormat
  | .text (.whole name) => ofName? name
  | .object [(.whole name, .null)] => ofName? name
  | _ => none

/-- The form that a switch chooses. -/
def ofFlag (machineReadable : Bool) : LogFormat := if machineReadable then json else pretty

end LogFormat

/-- Settings of logging. -/
structure TelemetryConfig where
  serviceName : String := "block-stream"
  nodeId : UInt64 := 0
  /-- A level, or any log filter. -/
  logLevel : String := "info"
  format : LogFormat := .pretty
  /-- Whether messages are written at all. -/
  consoleOutput : Bool := true
  /-- Whether messages tell the place in the program that they come from. -/
  sourceLocation : Bool := false
  deriving DecidableEq, Repr, Inhabited

namespace TelemetryConfig

/-- The service's name with the node's id. -/
def fullServiceName (c : TelemetryConfig) : String := s!"{c.serviceName}-node{c.nodeId}"

/-- The settings that a JSON value gives. -/
def ofJson? (j : Json) : Option TelemetryConfig := do
  let d : TelemetryConfig := {}
  match ← j.fields? ["service_name", "node_id", "log_level", "format", "console_output",
      "with_source_location"] with
  | [service, node, level, format, console, location] =>
    return { serviceName := ← Json.fieldOr? Json.text? d.serviceName service
             nodeId := ← Json.fieldOr? Json.word64? d.nodeId node
             logLevel := ← Json.fieldOr? Json.text? d.logLevel level
             format := ← Json.fieldOr? LogFormat.ofJson? d.format format
             consoleOutput := ← Json.fieldOr? Json.bool? d.consoleOutput console
             sourceLocation := ← Json.fieldOr? Json.bool? d.sourceLocation location }
  | _ => none

/-- The settings that a JSON text spells. -/
def parse? (text : String) : Option TelemetryConfig := do ofJson? (← Json.parse? text)

/-- Whether the process was started in a container. -/
def inContainer (env : Environment) : Bool :=
  env.contains "KUBERNETES_SERVICE_HOST" || env.contains "DOCKER_CONTAINER"

/-- The settings that environment variables give. In a container messages are machine-readable unless said
otherwise. A node id that is no numeral is passed over. -/
def ofEnvironment (env : Environment) : TelemetryConfig :=
  let d : TelemetryConfig := {}
  { serviceName := (env.find? "BS_SERVICE_NAME").getD d.serviceName
    nodeId :=
      ((env.find? "BS_NODE_ID").bind fun v => (Numeral.readWord v).toOption).getD d.nodeId
    logLevel := env.logLevel?.getD d.logLevel
    format := .ofFlag ((env.flag? "BS_JSON_LOGS").getD (inContainer env))
    consoleOutput := (env.flag? "BS_CONSOLE_OUTPUT").getD d.consoleOutput
    sourceLocation := (env.flag? "BS_LOG_SOURCE").getD d.sourceLocation }

end TelemetryConfig

end RoundChain
