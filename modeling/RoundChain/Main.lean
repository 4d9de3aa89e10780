import RoundChain.Node.Run
import Std.Time.DateTime.Timestamp

/-!
# The node program

Loads the settings from a file and the environment, runs a node in real time, and
keeps the directory of block files on disk in step with the node's. What a node does
is decided in `RoundChain.Node`; here it gets its clock, its variables and its files.
-/

namespace RoundChain.Program

/-- What the system says of a failure. -/
def reason : IO.Error → String
  | .noFileOrDirectory .. => PathError.missing.message
  | .permissionDenied .. => "Permission denied (os error 13)"
  | .inappropriateType .. => PathError.folder.message
  | e => toString e

/-- The environment variables that settings are taken from. -/
def environment : IO Environment := do
  return ⟨← NodeConfig.variableNames.filterMapM fun name => do
    return (← IO.getEnv name).map fun value => (name, value)⟩

/-- The settings file that the environment names. -/
def settingsFile (env : Environment) : IO (Option NodeConfig.SettingsFile) := do
  match env.find? "BS_CONFIG_FILE" with
  | none => return none
  | some path =>
    let text ← try pure (.ok (← IO.FS.readFile path)) catch e => pure (.error (reason e))
    return some ⟨path, text⟩

/-- The time of the clock on the wall. -/
def now : IO Timestamp := do
  let nanos := (← Std.Time.Timestamp.now).toNanosecondsSinceUnixEpoch.val
  return ⟨.ofInt (nanos / 1000000000), .ofNat (nanos % 1000000000).toNat⟩

/-! ### Block files -/

/-- Reads a directory, which is made if it is missing. -/
def readDirectory (path : String) : IO Directory := do
  IO.FS.createDirAll path
  let entries ← (System.mkFilePath [path]).readDir
  entries.foldlM (fun dir e => do
    let entry ←
      if ← e.path.isDir then pure .folder
      else pure (.file (← IO.FS.readBinFile e.path).toList)
    return dir.set e.fileName entry) Directory.empty

/-- Writes the files that a directory has gained; each is complete before it has its name. -/
def writeFiles (path : String) (before after : Directory) : IO Unit :=
  after.entries.forM fun (name, entry) => do
    match entry with
    | .folder => return ()
    | .file content =>
      if !before.contains name then
        let target := path ++ "/" ++ name
        IO.FS.writeBinFile (target ++ ".part") ⟨content.toArray⟩
        IO.FS.rename (target ++ ".part") target

/-! ### Running -/

/-- Waits for a number of milliseconds. -/
def pause (ms : Nat) : IO Unit := IO.sleep (UInt32.ofNat (min ms (UInt32.size - 1)))

/-- Feeds a round per interval until no more should follow. -/
partial def work (path : String) (node : Node) : IO (Checked NodeError Unit × Node) := do
  if node.stopped then return (.ok (), node)
  let (r, next) := node.tick
  writeFiles path node.dir next.dir
  match r with
  | .error e => return (.error e, next)
  | .ok () =>
    if !next.stopped then pause next.config.rounds.intervalMs.toNat
    work path next

/-- Ends a node's work once its bootstrap has begun or its time is over. -/
def finish (path : String) (node : Node) : IO (Checked NodeError Unit) := do
  pause (min node.bootstrapWaitMs node.config.shutdownTimeoutMs.toNat)
  let (r, last) := node.finish
  writeFiles path node.dir last.dir
  return r

/-- Runs a node over the directory that its settings name. -/
def runNode (config : NodeConfig) : IO (Checked NodeError Unit) := do
  let path := config.stream.storage.dataDir
  let dir? ← try pure (Except.ok (← readDirectory path)) catch e => pure (.error (reason e))
  match dir? with
  | .error text => return refuse (.storage (.io text))
  | .ok dir =>
    match Node.start config (← now) dir with
    | .error e => return .error e
    | .ok node =>
      match ← work path node with
      | (.error e, _) => return .error e
      | (.ok (), node) => finish path node

/-- Reports how a run ended, and gives the code to exit with. -/
def conclude : Checked NodeError Unit → IO UInt32
  | .ok () => return 0
  | .error (.refused e) => do
    IO.eprint e.report
    return 1
  | .error (.exceeded limit) => do
    IO.eprintln limit.message
    return 101

end RoundChain.Program

open RoundChain in
/-- Runs a node with the settings of the environment. -/
def main : IO UInt32 := do
  let env ← Program.environment
  match Node.settings (← Program.settingsFile env) env with
  | .error e => Program.conclude (refuse e)
  | .ok config => Program.conclude (← Program.runNode config)
