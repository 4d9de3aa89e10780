import RoundChain.Error
import RoundChain.Node.LogFilter

/-!
# What stops a node

The causes that end a node before its time, or that keep it from starting. A cause
is told as a chain of texts, what the node was about first, what went wrong there
last.
-/

namespace RoundChain

/-- A cause that stops a node. -/
inductive NodeError where
  /-- The settings file cannot be read. -/
  | settingsUnreadable (path reason : String)
  /-- The settings file holds no settings. -/
  | settingsMalformed (path : String)
  /-- A variable should hold a number. -/
  | notAnInteger (variableName : String) (cause : NumeralError)
  /-- No block could be produced under the settings of the stream. -/
  | invalidStream (cause : StreamError)
  | emptyRoster
  /-- The threshold is no number of nodes that a roster of this size has. -/
  | thresholdOutOfRange (size : UInt64)
  | noRoundInterval
  | invalidLogFilter (cause : LogFilterError)
  /-- A part of the stream refused to be set up. -/
  | stream (cause : StreamError)
  /-- A node's signing key cannot be derived. -/
  | keyDerivation (node : UInt64) (cause : CryptoError)
  | notConverged
  | noStrongMinority
  /-- The directory of block files cannot be used. -/
  | storage (cause : WriteError)
  /-- The position of the stream cannot be recovered. -/
  | recovery (cause : StreamError)
  /-- Closed blocks did not get stored. -/
  | shutdown (cause : StreamError)
  /-- Closed blocks did not get stored in time. -/
  | shutdownExceeded (limitMs : UInt64)
  /-- The stream refused a round. -/
  | intake (cause : StreamError)
  deriving DecidableEq, Repr

namespace NodeError

/-- Digits of a fraction without the zeros at its end. -/
def dropTrailingZeros (digits : List Char) : List Char :=
  (digits.reverse.dropWhile (· == '0')).reverse

/-- A span of milliseconds in the largest unit that it fills. -/
def spanText (ms : UInt64) : String :=
  if ms = 0 then "0ns"
  else if ms < 1000 then s!"{ms}ms"
  else
    match dropTrailingZeros (Numeral.padded 3 (ms.toNat % 1000)) with
    | [] => s!"{ms / 1000}s"
    | fraction => s!"{ms / 1000}.{String.ofList fraction}s"

/-- The texts of a cause. -/
def texts : NodeError → List String
  | settingsUnreadable path reason => ["Failed to read config file " ++ path, reason]
  | settingsMalformed path => ["Failed to parse config file " ++ path]
  | notAnInteger variableName cause => [variableName ++ " must be an integer", cause.message]
  | invalidStream cause => ["Invalid block stream configuration", cause.message]
  | emptyRoster => ["roster.size must be at least 1"]
  | thresholdOutOfRange size =>
    [s!"roster.threshold must be between 1 and {size} when hints are enabled"]
  | noRoundInterval => ["driver.round_interval_ms must be positive"]
  | invalidLogFilter cause => ["Invalid configuration: " ++ cause.message]
  | stream cause => [cause.message]
  | keyDerivation node cause => [s!"Failed to derive BLS key for node {node}", cause.message]
  | notConverged => ["Threshold construction did not converge"]
  | noStrongMinority => ["History roster did not reach a strong minority"]
  | storage cause => ["Failed to open block directory", cause.message]
  | recovery cause => ["Failed to recover block stream from disk", cause.message]
  | shutdown cause => ["Block stream did not shut down cleanly", cause.message]
  | shutdownExceeded limit => ["Block stream shutdown exceeded " ++ spanText limit]
  | intake cause => ["Block stream stopped on an intake error", cause.message]

/-- A cause on one line. -/
def message (e : NodeError) : String := ": ".intercalate e.texts

/-- A cause as a node reports it when it ends. -/
def report (e : NodeError) : String :=
  match e.texts with
  | [] => "Error\n"
  | text :: causes =>
    "Error: " ++ text ++
      (if causes.isEmpty then "" else "\n\nCaused by:\n    " ++ "\n    ".intercalate causes) ++ "\n"

end NodeError

end RoundChain
