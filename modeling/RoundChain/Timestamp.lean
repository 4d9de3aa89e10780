import RoundChain.Stop

/-!
# Consensus time

A `Timestamp` counts seconds from the epoch and nanoseconds within the second.
The nanoseconds of a time that comes from outside need not be below 10⁹; adding
to a time always leaves them so.

Elapsed time is counted in whole milliseconds. Both ends are cut to milliseconds
before they are subtracted, so an elapsed time can differ from the exact one by a
millisecond; `Timestamp.totalNanos` is the exact measure to compare it with.
-/

namespace RoundChain

/-- A point in consensus time. -/
structure Timestamp where
  seconds : Int64
  nanos : UInt32
  deriving DecidableEq, Repr, Inhabited

namespace Timestamp

/-- The exact time in nanoseconds. -/
def totalNanos (t : Timestamp) : Int := t.seconds.toInt * 1000000000 + t.nanos.toNat

/-- Milliseconds since the epoch, the rest of the nanoseconds cut off. -/
def millis (t : Timestamp) : Int := t.seconds.toInt * 1000 + (t.nanos.toNat / 1000000 : Nat)

/-- Milliseconds from `earlier` to `t`: none if `t` is not later, and never more than a word holds. -/
def millisSince (t earlier : Timestamp) : UInt64 :=
  UInt64.ofNat (min (t.millis - earlier.millis).toNat (UInt64.size - 1))

/-- The time `ms` milliseconds later, if its seconds still fit. -/
def plusMillis {ε : Type} (t : Timestamp) (ms : UInt64) : Checked ε Timestamp :=
  let nanos := t.nanos.toNat + ms.toNat % 1000 * 1000000
  let seconds := t.seconds.toInt + (ms.toNat / 1000 : Nat) + (nanos / 1000000000 : Nat)
  if seconds < 0x8000000000000000 then
    .ok ⟨Int64.ofInt seconds, UInt32.ofNat (nanos % 1000000000)⟩
  else
    .error (.exceeded .word)

/-- Times are ordered by their seconds first. -/
def compare (a b : Timestamp) : Ordering :=
  (Ord.compare a.seconds.toInt b.seconds.toInt).then (Ord.compare a.nanos.toNat b.nanos.toNat)

instance : Ord Timestamp := ⟨Timestamp.compare⟩

/-- The first second of the proleptic calendar's year −262143. -/
def calendarFirst : Int := -8334601228800

/-- The last second of the calendar's year 262142. -/
def calendarLast : Int := 8210266876799

/-- A time names a moment of the calendar if its year is in range and its nanoseconds are those of
one second, or of a leap second, which only the last second of a minute may have. -/
def inCalendar (t : Timestamp) : Bool :=
  calendarFirst ≤ t.seconds.toInt && t.seconds.toInt ≤ calendarLast &&
    (t.nanos < 1000000000 || (t.nanos < 2000000000 && t.seconds.toInt % 60 == 59))

end Timestamp

/-- A software version, ordered by its parts from left to right. -/
structure SoftwareVersion where
  major : UInt32
  minor : UInt32
  patch : UInt32
  deriving DecidableEq, Repr, Inhabited

namespace SoftwareVersion

/-- The three parts with points between them. -/
def text (v : SoftwareVersion) : String :=
  toString v.major.toNat ++ "." ++ toString v.minor.toNat ++ "." ++ toString v.patch.toNat

/-- Versions are ordered by the first part that differs. -/
def compare (a b : SoftwareVersion) : Ordering :=
  (Ord.compare a.major.toNat b.major.toNat).then
    ((Ord.compare a.minor.toNat b.minor.toNat).then (Ord.compare a.patch.toNat b.patch.toNat))

instance : Ord SoftwareVersion := ⟨SoftwareVersion.compare⟩

end SoftwareVersion

end RoundChain
