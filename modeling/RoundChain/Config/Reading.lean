import RoundChain.Config.Basic
import RoundChain.Json.Record

/-!
# Reading the settings

The settings of the stream as a JSON record of records. A boundary rule is tagged
by its member `policy`; its value is read after the tag wherever the tag stands, so
the rest of the record has to be usable as a whole.
-/

namespace RoundChain

/-- Levels of nesting a settings document may have. -/
def settingsDepth : Nat := 127

/-- A version; all three parts must be given. -/
def SoftwareVersion.ofJson? (j : Json) : Option SoftwareVersion := do
  match ← j.fields? ["major", "minor", "patch"] with
  | [a, b, c] =>
    return ⟨← Json.field? Json.word32? a, ← Json.field? Json.word32? b, ← Json.field? Json.word32? c⟩
  | _ => none

namespace BoundaryRule

/-- The rule that a tag names, from its fields. -/
def ofTagged? (tag : String) (fields : Json) : Option BoundaryRule :=
  if tag = "rounds_per_block" then do
    match ← fields.fields? ["rounds"] with
    | [n] => return .rounds (← Json.field? Json.word64? n)
    | _ => none
  else if tag = "items_per_block" then do
    match ← fields.fields? ["items"] with
    | [n] => return .items (← Json.field? Json.count? n)
    | _ => none
  else if tag = "block_period" then do
    match ← fields.fields? ["period_ms"] with
    | [n] => return .period (← Json.field? Json.word64? n)
    | _ => none
  else none

/-- A rule, with `room` levels of nesting left inside it. -/
def ofJson? (room : Nat) : Json → Option BoundaryRule
  | .object ms => do
    let rest := ms.filter (·.1 != .whole "policy")
    if Json.usableMembers room rest then
      match ← Json.member? ms "policy" with
      | some tag => ofTagged? (← tag.text?) (.object rest)
      | none => none
    else none
  | .array (tag :: rest) => do
    if Json.usableElements room rest then ofTagged? (← tag.text?) (.array rest) else none
  | _ => none

end BoundaryRule

/-- A retry policy. -/
def RetryPolicy.ofJson? (j : Json) : Option RetryPolicy := do
  let d : RetryPolicy := {}
  match ← j.fields? ["max_attempts", "initial_backoff_ms", "max_backoff_ms"] with
  | [a, b, c] =>
    return { maxAttempts := ← Json.fieldOr? Json.word32? d.maxAttempts a
             initialBackoffMs := ← Json.fieldOr? Json.word64? d.initialBackoffMs b
             maxBackoffMs := ← Json.fieldOr? Json.word64? d.maxBackoffMs c }
  | _ => none

/-- The readiness settings. -/
def ReadinessConfig.ofJson? (j : Json) : Option ReadinessConfig := do
  let d : ReadinessConfig := {}
  match ← j.fields? ["poll_interval_ms", "grace_period_ms"] with
  | [a, b] =>
    return { pollIntervalMs := ← Json.fieldOr? Json.word64? d.pollIntervalMs a
             gracePeriodMs := ← Json.fieldOr? Json.word64? d.gracePeriodMs b }
  | _ => none

/-- The scheme settings. -/
def SchemeConfig.ofJson? (j : Json) : Option SchemeConfig := do
  let d : SchemeConfig := {}
  match ← j.fields? ["hints_enabled", "history_enabled"] with
  | [a, b] =>
    return { hints := ← Json.fieldOr? Json.bool? d.hints a
             history := ← Json.fieldOr? Json.bool? d.history b }
  | _ => none

/-- The storage settings. -/
def StorageConfig.ofJson? (j : Json) : Option StorageConfig := do
  let d : StorageConfig := {}
  match ← j.fields? ["data_dir", "compress"] with
  | [a, b] =>
    return { dataDir := ← Json.fieldOr? Json.text? d.dataDir a
             compress := ← Json.fieldOr? Json.bool? d.compress b }
  | _ => none

/-- The settings of the stream, found `level` levels deep in a document. -/
def StreamConfig.ofJson? (level : Nat) (j : Json) : Option StreamConfig := do
  let d : StreamConfig := {}
  match ← j.fields? ["boundary", "software_version", "max_in_flight_signatures",
      "trailing_hashes_limit", "serialization_batch_size", "signing_retry", "write_retry",
      "readiness", "tss", "writer"] with
  | [boundary, version, inFlight, trailing, batch, signing, write, readiness, schemes, storage] =>
    return { boundary :=
               ← Json.fieldOr? (BoundaryRule.ofJson? (settingsDepth - level - 2)) d.boundary boundary
             version := ← Json.fieldOr? SoftwareVersion.ofJson? d.version version
             maxInFlight := ← Json.fieldOr? Json.count? d.maxInFlight inFlight
             trailingLimit := ← Json.fieldOr? Json.count? d.trailingLimit trailing
             batchSize := ← Json.fieldOr? Json.count? d.batchSize batch
             signingRetry := ← Json.fieldOr? RetryPolicy.ofJson? d.signingRetry signing
             writeRetry := ← Json.fieldOr? RetryPolicy.ofJson? d.writeRetry write
             readiness := ← Json.fieldOr? ReadinessConfig.ofJson? d.readiness readiness
             schemes := ← Json.fieldOr? SchemeConfig.ofJson? d.schemes schemes
             storage := ← Json.fieldOr? StorageConfig.ofJson? d.storage storage }
  | _ => none

/-- The settings that a whole document spells. -/
def StreamConfig.parse? (text : String) : Option StreamConfig := do
  StreamConfig.ofJson? 0 (← Json.parse? text)

end RoundChain
