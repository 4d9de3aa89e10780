/-!
# Counters

What a running stream counts. Counters are words and wrap around. The averages
are binary floating-point numbers, zero while there is nothing to divide by.
-/

namespace RoundChain

/-- The counters of a stream. -/
structure Metrics where
  rounds : UInt64 := 0
  closed : UInt64 := 0
  finalized : UInt64 := 0
  items : UInt64 := 0
  signatureRetries : UInt64 := 0
  writeRetries : UInt64 := 0
  signingMicros : UInt64 := 0
  readinessWaitMs : UInt64 := 0
  deriving DecidableEq, Repr, Inhabited

namespace Metrics

/-- A round was started. -/
def countRound (m : Metrics) : Metrics := { m with rounds := m.rounds + 1 }

/-- An item was added to a block. -/
def countItem (m : Metrics) : Metrics := { m with items := m.items + 1 }

/-- A block was closed. -/
def countClosed (m : Metrics) : Metrics := { m with closed := m.closed + 1 }

/-- A block was stored; its signature took this long. -/
def countFinalized (m : Metrics) (micros : UInt64) : Metrics :=
  { m with finalized := m.finalized + 1, signingMicros := m.signingMicros + micros }

/-- A signature was asked for once more. -/
def countSignatureRetry (m : Metrics) : Metrics :=
  { m with signatureRetries := m.signatureRetries + 1 }

/-- A write was tried once more. -/
def countWriteRetry (m : Metrics) : Metrics := { m with writeRetries := m.writeRetries + 1 }

/-- The signer was waited for. -/
def countWait (m : Metrics) (ms : UInt64) : Metrics :=
  { m with readinessWaitMs := m.readinessWaitMs + ms }

/-- Blocks closed and not yet stored. -/
def inFlight (m : Metrics) : UInt64 :=
  if m.finalized ≤ m.closed then m.closed - m.finalized else 0

/-- A quotient of counters, zero if there is nothing to divide by. -/
def average (total count : UInt64) : Float :=
  if count = 0 then 0.0 else total.toFloat / count.toFloat

/-- Items per closed block. -/
def averageItems (m : Metrics) : Float := average m.items m.closed

/-- Microseconds of signing per stored block. -/
def averageSigning (m : Metrics) : Float := average m.signingMicros m.finalized

end Metrics

end RoundChain
