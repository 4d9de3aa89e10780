import RoundChain.Error
import RoundChain.Timestamp

/-!
# Settings of the stream

`StreamConfig` gathers what production of blocks can be tuned by: when a block
closes, how much is kept and batched, how often signing and writing are tried, and
which signature schemes are on. Every setting has a default. `validate` refuses
the settings under which no block could ever be produced.
-/

namespace RoundChain

/-! ### Retrying -/

/-- How often a step is tried, and how long to wait between attempts. -/
structure RetryPolicy where
  maxAttempts : UInt32 := 5
  initialBackoffMs : UInt64 := 50
  maxBackoffMs : UInt64 := 2000
  deriving DecidableEq, Repr, Inhabited

namespace RetryPolicy

/-- A number, or the greatest word once it leaves the range. -/
def saturating (n : Nat) : Nat := min n (UInt64.size - 1)

/-- Milliseconds to wait after a failed attempt: the wait doubles with each attempt, sixteen times at
most, and is capped. -/
def backoff (policy : RetryPolicy) (attempt : UInt32) : UInt64 :=
  let doublings := min (attempt.toNat - 1) 16
  UInt64.ofNat
    (min (saturating (policy.initialBackoffMs.toNat <<< doublings)) policy.maxBackoffMs.toNat)

/-- Milliseconds waited in all after a number of failed attempts. -/
def totalBackoff (policy : RetryPolicy) (failures : Nat) : Nat :=
  (List.range failures).foldl (fun ms i => ms + (policy.backoff (UInt32.ofNat (i + 1))).toNat) 0

/-- Attempts that are made: at least one. -/
def attempts (policy : RetryPolicy) : UInt32 := if policy.maxAttempts = 0 then 1 else policy.maxAttempts

end RetryPolicy

/-! ### Sections -/

/-- When a block closes, looked at whenever a round ends. -/
inductive BoundaryRule where
  /-- After this many rounds. -/
  | rounds (count : UInt64)
  /-- Once the block holds this many items. -/
  | items (count : Nat)
  /-- Once consensus time has moved on by this many milliseconds since the block began. -/
  | period (ms : UInt64)
  deriving DecidableEq, Repr

instance : Inhabited BoundaryRule := ⟨.rounds 1⟩

/-- The name of a rule's kind in the settings. -/
def BoundaryRule.name : BoundaryRule → String
  | rounds _ => "rounds_per_block"
  | items _ => "items_per_block"
  | period _ => "block_period"

/-- How the signer's bootstrap is waited for. -/
structure ReadinessConfig where
  pollIntervalMs : UInt64 := 10
  gracePeriodMs : UInt64 := 30000
  deriving DecidableEq, Repr, Inhabited

/-- Milliseconds between two looks at the signer: at least one. -/
def ReadinessConfig.pollMs (c : ReadinessConfig) : UInt64 := if c.pollIntervalMs = 0 then 1 else c.pollIntervalMs

/-- Which signature schemes are on. -/
structure SchemeConfig where
  /-- Threshold signatures. -/
  hints : Bool := false
  /-- History proofs. -/
  history : Bool := false
  deriving DecidableEq, Repr, Inhabited

/-- Where and how block files are written. -/
structure StorageConfig where
  dataDir : String := "./data/blocks"
  compress : Bool := false
  deriving DecidableEq, Repr, Inhabited

/-- All settings of the stream. -/
structure StreamConfig where
  boundary : BoundaryRule := .rounds 1
  version : SoftwareVersion := ⟨0, 1, 0⟩
  /-- Blocks that may be in signing at the same time. -/
  maxInFlight : Nat := 64
  /-- Trailing hashes kept in the stream's position. -/
  trailingLimit : Nat := 256
  /-- Items handed to the store in one call. -/
  batchSize : Nat := 32
  signingRetry : RetryPolicy := {}
  writeRetry : RetryPolicy := {}
  readiness : ReadinessConfig := {}
  schemes : SchemeConfig := {}
  storage : StorageConfig := {}
  deriving DecidableEq, Repr, Inhabited

namespace StreamConfig

/-- The first reason why no block could be produced, if there is one. -/
def fault? (c : StreamConfig) : Option String :=
  if c.maxInFlight = 0 then some "max_in_flight_signatures must be at least 1"
  else if c.batchSize = 0 then some "serialization_batch_size must be at least 1"
  else if c.signingRetry.maxAttempts = 0 ∨ c.writeRetry.maxAttempts = 0 then
    some "retry max_attempts must be at least 1"
  else match c.boundary with
    | .rounds count => if count = 0 then some "rounds per block must be at least 1" else none
    | .items count => if count = 0 then some "items per block must be at least 1" else none
    | .period ms => if ms = 0 then some "block period must be positive" else none

/-- Refuses settings under which no block could be produced. -/
def validate (c : StreamConfig) : Except StreamError Unit :=
  match c.fault? with
  | some fault => .error (.invalidConfig fault)
  | none => .ok ()

end StreamConfig

end RoundChain
