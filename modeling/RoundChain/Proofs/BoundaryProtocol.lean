import RoundChain.Block.Boundary
import Mathlib.Data.List.Basic
import Mathlib.Data.List.Induction

/-!
# The protocol of a boundary

An accumulator is shared: the ledger captures batches at any time, also between the two flushes of a boundary, and
calls out of turn are refused. Whatever the calls, what an accumulator answers is a matter of their history alone:
`boundary_protocol`. A history is the list of the calls so far with their answers, and what counts in it is

* the boundary that began last and what it has flushed since, `NewestBoundary`;
* the batch captured last, unless a boundary's first flush came after it, `Pending` and `NothingPending`.

An accumulator is changed in place, so a call that fails halfway could leave half of its work behind. The operations
are therefore read once more as they go about it, one field after the other, `InPlace`; what they leave is what the
accumulator's own functions answer with, and if those answer with a cause, it is the accumulator as it was.
-/

namespace RoundChain

namespace BoundaryAccumulator

/-! ### Operations in place -/

/-- An operation that changes an accumulator as it goes. If it fails, what it has changed stays changed. -/
abbrev InPlace (α : Type) := ExceptT StreamError (StateM BoundaryAccumulator) α

def captureInPlace (batch : ChangeBatch) : InPlace Unit :=
  modify fun acc => { acc with captured := some batch }

def beginInPlace (time : Timestamp) : InPlace Unit := do
  if (← get).phase ≠ .idle then throw (← get).violation
  modify fun acc => { acc with time := some time }
  modify fun acc => { acc with phase := .awaitingLedger }

def timeInPlace : InPlace Timestamp := do
  match (← get).time with
  | some time => return time
  | none => throw .noBoundaryReached

/-- The captured batch, which is taken out. -/
def takeCaptured : InPlace (Option ChangeBatch) := do
  let captured := (← get).captured
  modify fun acc => { acc with captured := none }
  return captured

def flushInPlace (ledger : Option StreamInfo) : InPlace ChangeBatch := do
  match (← get).phase with
  | .idle => throw (← get).violation
  | .awaitingLedger =>
    let time ← timeInPlace
    let captured ← takeCaptured
    modify fun acc => { acc with phase := .awaitingSingleton }
    return captured.getD ⟨time, []⟩
  | .awaitingSingleton =>
    let time ← timeInPlace
    match ledger with
    | none => throw (.internal "block stream info missing from state at boundary")
    | some info =>
      modify fun acc => { acc with phase := .idle }
      return positionBatch time info

variable {α : Type}

/-- What is left after an operation: the accumulator it answers with, or else the one it was given. -/
def keep (acc : BoundaryAccumulator) : Except StreamError (α × BoundaryAccumulator) →
    Except StreamError α × BoundaryAccumulator
  | .ok (answer, left) => (.ok answer, left)
  | .error e => (.error e, acc)

theorem run_beginInPlace (acc : BoundaryAccumulator) (time : Timestamp) :
    (beginInPlace time).run.run acc = acc.keep ((acc.beginBoundary time).map ((), ·)) := by
  cases acc with
  | mk phase captured begun => cases phase <;> rfl

theorem run_flushInPlace (acc : BoundaryAccumulator) (ledger : Option StreamInfo) :
    (flushInPlace ledger).run.run acc = acc.keep (acc.flush ledger) := by
  cases acc with
  | mk phase captured begun =>
    cases phase with
    | idle => rfl
    | awaitingLedger => cases begun <;> rfl
    | awaitingSingleton => cases begun <;> cases ledger <;> rfl

end BoundaryAccumulator

/-! ### Histories -/

/-- A call on a shared accumulator, or a change of the ledger state that its flushes read. -/
inductive BoundaryCall where
  | capture (batch : ChangeBatch)
  | beginBoundary (time : Timestamp)
  | flush
  | update (ledger : Option StreamInfo)

/-- A call with its answer. -/
inductive BoundaryEvent where
  | captured (batch : ChangeBatch)
  | began (time : Timestamp) (answer : Except StreamError Unit)
  | flushed (answer : Except StreamError ChangeBatch)
  | updated (ledger : Option StreamInfo)

/-- The batch of a flush that succeeded. -/
def BoundaryEvent.batch? : BoundaryEvent → Option ChangeBatch
  | flushed (.ok batch) => some batch
  | _ => none

/-- The cause of a call that failed. -/
def BoundaryEvent.cause? : BoundaryEvent → Option StreamError
  | began _ (.error e) => some e
  | flushed (.error e) => some e
  | _ => none

/-- An accumulator beside the ledger's record of the stream's position. -/
structure BoundarySite where
  acc : BoundaryAccumulator
  ledger : Option StreamInfo

namespace BoundarySite

open BoundaryAccumulator

/-- A call, carried out in place. -/
def take (s : BoundarySite) : BoundaryCall → BoundaryEvent × BoundarySite
  | .capture batch => (.captured batch, { s with acc := ((captureInPlace batch).run.run s.acc).2 })
  | .beginBoundary time =>
    let (answer, acc) := (beginInPlace time).run.run s.acc
    (.began time answer, { s with acc })
  | .flush =>
    let (answer, acc) := (flushInPlace s.ledger).run.run s.acc
    (.flushed answer, { s with acc })
  | .update ledger => (.updated ledger, { s with ledger })

/-- The history of calls one after the other, and what they leave. -/
def run (s : BoundarySite) (calls : List BoundaryCall) : List BoundaryEvent × BoundarySite :=
  calls.foldl (fun done call => (done.1 ++ [(done.2.take call).1], (done.2.take call).2)) ([], s)

theorem run_concat (s : BoundarySite) (calls : List BoundaryCall) (call : BoundaryCall) :
    s.run (calls ++ [call]) =
      ((s.run calls).1 ++ [((s.run calls).2.take call).1], ((s.run calls).2.take call).2) :=
  List.foldl_concat ..

end BoundarySite

/-! ### What counts in a history -/

variable {h before : List BoundaryEvent} {e : BoundaryEvent} {time : Timestamp} {batch : ChangeBatch}
  {batches : List ChangeBatch}

/-- The boundary that began last in a history began at `time` and has flushed `batches` since. -/
def NewestBoundary (h : List BoundaryEvent) (time : Timestamp) (batches : List ChangeBatch) : Prop :=
  ∃ before later, h = before ++ .began time (.ok ()) :: later ∧
    (∀ other, .began other (.ok ()) ∉ later) ∧ later.filterMap (·.batch?) = batches

/-- A boundary has begun that has not flushed twice. -/
def InProgress (h : List BoundaryEvent) : Prop :=
  ∃ time batches, NewestBoundary h time batches ∧ batches.length < 2

/-- The event that comes next is the first flush of a boundary. -/
def IsFirstFlush (h : List BoundaryEvent) (e : BoundaryEvent) : Prop :=
  (∃ batch, e = .flushed (.ok batch)) ∧ ∃ time, NewestBoundary h time []

/-- The batch captured after the events `before` is the latest, and no boundary's first flush came after it. -/
def Pending (before h : List BoundaryEvent) (batch : ChangeBatch) : Prop :=
  ∃ later, h = before ++ .captured batch :: later ∧ (∀ other, .captured other ∉ later) ∧
    ∀ mid e rest, later = mid ++ e :: rest → ¬ IsFirstFlush (before ++ .captured batch :: mid) e

/-- After every batch captured came a boundary's first flush. -/
def NothingPending (h : List BoundaryEvent) : Prop :=
  ∀ before batch later, h = before ++ .captured batch :: later →
    ∃ mid e rest, later = mid ++ e :: rest ∧ IsFirstFlush (before ++ .captured batch :: mid) e

/-- An event of a history and one more is the last, or an event of the history. -/
theorem concat_eq_split {before later : List BoundaryEvent} {x : BoundaryEvent}
    (hsplit : h ++ [e] = before ++ x :: later) :
    (h = before ∧ e = x ∧ later = []) ∨ ∃ earlier, later = earlier ++ [e] ∧ h = before ++ x :: earlier := by
  rcases List.eq_nil_or_concat later with rfl | ⟨earlier, last, rfl⟩
  · obtain ⟨hbefore, hx⟩ := List.append_inj' hsplit rfl
    exact .inl ⟨hbefore, by simpa using hx, rfl⟩
  · rw [List.concat_eq_append, ← List.cons_append, ← List.append_assoc] at hsplit
    obtain ⟨hh, hlast⟩ := List.append_inj' hsplit rfl
    obtain rfl : e = last := by simpa using hlast
    exact .inr ⟨earlier, List.concat_eq_append, hh⟩

/-- How one more event changes which boundary is the newest. -/
theorem newestBoundary_concat_iff : NewestBoundary (h ++ [e]) time batches ↔
    (e = .began time (.ok ()) ∧ batches = []) ∨
      ((∀ other, e ≠ .began other (.ok ())) ∧
        ∃ earlier, NewestBoundary h time earlier ∧ batches = earlier ++ e.batch?.toList) := by
  constructor
  · rintro ⟨before, later, hsplit, hlast, rfl⟩
    rcases concat_eq_split hsplit with ⟨rfl, rfl, rfl⟩ | ⟨later, rfl, rfl⟩
    · exact .inl ⟨rfl, rfl⟩
    · simp only [List.mem_append, List.mem_singleton, not_or] at hlast
      refine .inr ⟨fun other heq => (hlast other).2 heq.symm, _,
        ⟨before, later, rfl, fun other => (hlast other).1, rfl⟩, ?_⟩
      rw [List.filterMap_append]
      cases hbatch : e.batch? <;> simp [hbatch]
  · rintro (⟨rfl, rfl⟩ | ⟨hother, _, ⟨before, later, rfl, hlast, rfl⟩, rfl⟩)
    · exact ⟨h, [], rfl, by simp, rfl⟩
    · refine ⟨before, later ++ [e], by simp, fun other => ?_, ?_⟩
      · rw [List.mem_append, List.mem_singleton, not_or]
        exact ⟨hlast other, fun heq => hother other heq.symm⟩
      · rw [List.filterMap_append]
        cases hbatch : e.batch? <;> simp [hbatch]

/-- There is one newest boundary. -/
theorem NewestBoundary.unique {other : Timestamp} {others : List ChangeBatch} (hnewest : NewestBoundary h time batches)
    (hother : NewestBoundary h other others) : other = time ∧ others = batches := by
  induction h using List.reverseRecOn generalizing batches others with
  | nil =>
    obtain ⟨before, later, hsplit, -⟩ := hnewest
    simp at hsplit
  | append_singleton h e ih =>
    rcases newestBoundary_concat_iff.mp hnewest with ⟨rfl, rfl⟩ | ⟨hnot, earlier, hbefore, rfl⟩
    · rcases newestBoundary_concat_iff.mp hother with ⟨heq, rfl⟩ | ⟨hnot, -⟩
      · cases heq
        exact ⟨rfl, rfl⟩
      · exact absurd rfl (hnot _)
    · rcases newestBoundary_concat_iff.mp hother with ⟨rfl, rfl⟩ | ⟨-, earlier', hbefore', rfl⟩
      · exact absurd rfl (hnot _)
      · obtain ⟨rfl, rfl⟩ := ih hbefore hbefore'
        exact ⟨rfl, rfl⟩

/-- A batch that has just been captured is pending. -/
theorem pending_captured (h : List BoundaryEvent) (batch : ChangeBatch) : Pending h (h ++ [.captured batch]) batch :=
  ⟨[], rfl, by simp, by simp⟩

/-- A batch stays pending until another is captured or a boundary flushes first. -/
theorem Pending.concat (hpending : Pending before h batch) (hother : ∀ other, e ≠ .captured other)
    (hflush : ¬ IsFirstFlush h e) : Pending before (h ++ [e]) batch := by
  obtain ⟨later, rfl, hlast, hnone⟩ := hpending
  refine ⟨later ++ [e], by simp, fun other => ?_, fun mid f rest hsplit => ?_⟩
  · rw [List.mem_append, List.mem_singleton, not_or]
    exact ⟨hlast other, fun heq => hother other heq.symm⟩
  · rcases concat_eq_split hsplit with ⟨rfl, rfl, -⟩ | ⟨rest, -, rfl⟩
    · exact hflush
    · exact hnone mid f rest rfl

/-- With the first flush of a boundary, nothing is pending. -/
theorem nothingPending_of_isFirstFlush (hflush : IsFirstFlush h e) : NothingPending (h ++ [e]) := by
  intro before batch later hsplit
  rcases concat_eq_split hsplit with ⟨rfl, rfl, -⟩ | ⟨later, rfl, rfl⟩
  · obtain ⟨⟨other, heq⟩, -⟩ := hflush
    cases heq
  · exact ⟨later, e, [], rfl, hflush⟩

/-- Nothing is pending until the next capture. -/
theorem NothingPending.concat (hnone : NothingPending h) (hother : ∀ other, e ≠ .captured other) :
    NothingPending (h ++ [e]) := by
  intro before batch later hsplit
  rcases concat_eq_split hsplit with ⟨rfl, rfl, -⟩ | ⟨later, rfl, rfl⟩
  · exact absurd rfl (hother batch)
  · obtain ⟨mid, f, rest, rfl, hflush⟩ := hnone before batch later rfl
    exact ⟨mid, f, rest ++ [e], by simp, hflush⟩

/-! ### Where an accumulator stands -/

/-- What phase and boundary time an accumulator has after a history. -/
inductive Standing (h : List BoundaryEvent) : FlushPhase → Option Timestamp → Prop where
  | unused (hnone : ∀ time, .began time (.ok ()) ∉ h) : Standing h .idle none
  | begun {time : Timestamp} (hnewest : NewestBoundary h time []) : Standing h .awaitingLedger (some time)
  | halfway {time : Timestamp} {batch : ChangeBatch} (hnewest : NewestBoundary h time [batch]) :
      Standing h .awaitingSingleton (some time)
  | finished {time : Timestamp} {first second : ChangeBatch} (hnewest : NewestBoundary h time [first, second]) :
      Standing h .idle (some time)

/-- What an accumulator holds after a history. -/
def Holding (h : List BoundaryEvent) : Option ChangeBatch → Prop
  | some batch => ∃ before, Pending before h batch
  | none => NothingPending h

/-- **The invariant**: an accumulator is where its history has brought it. -/
structure BoundaryAccumulator.Tracks (acc : BoundaryAccumulator) (h : List BoundaryEvent) : Prop where
  standing : Standing h acc.phase acc.time
  holding : Holding h acc.captured

theorem tracks_new : BoundaryAccumulator.new.Tracks [] :=
  ⟨.unused (by simp), fun before batch later hsplit => by simp at hsplit⟩

section

variable {phase : FlushPhase} {begun : Option Timestamp}

theorem not_newestBoundary (hnone : ∀ time, .began time (.ok ()) ∉ h) : ¬ NewestBoundary h time batches := by
  rintro ⟨before, later, rfl, -⟩
  exact hnone time (by simp)

theorem Standing.time_iff (hs : Standing h phase begun) :
    begun = some time ↔ ∃ batches, NewestBoundary h time batches := by
  cases hs with
  | unused hnone => simpa using fun batches => not_newestBoundary hnone
  | begun hnewest | halfway hnewest | finished hnewest =>
    constructor
    · intro heq
      exact ⟨_, Option.some.inj heq ▸ hnewest⟩
    · rintro ⟨batches, hother⟩
      rw [(hnewest.unique hother).1]

theorem Standing.awaitingLedger_iff (hs : Standing h phase begun) :
    phase = .awaitingLedger ↔ ∃ time, NewestBoundary h time [] := by
  cases hs with
  | unused hnone => simpa using fun time => not_newestBoundary hnone
  | begun hnewest => simpa using ⟨_, hnewest⟩
  | halfway hnewest | finished hnewest =>
    simp only [reduceCtorEq, false_iff, not_exists]
    intro time hother
    cases (hnewest.unique hother).2

theorem Standing.awaitingSingleton_iff (hs : Standing h phase begun) :
    phase = .awaitingSingleton ↔ ∃ time batch, NewestBoundary h time [batch] := by
  cases hs with
  | unused hnone => simpa using fun time batch => not_newestBoundary hnone
  | halfway hnewest => simpa using ⟨_, _, hnewest⟩
  | begun hnewest | finished hnewest =>
    simp only [reduceCtorEq, false_iff, not_exists]
    intro time batch hother
    cases (hnewest.unique hother).2

/-- No boundary is in progress if none has begun or the newest has flushed twice. -/
theorem Standing.idle_iff (hs : Standing h phase begun) : phase = .idle ↔ ¬ InProgress h := by
  cases hs with
  | unused hnone =>
    simp only [InProgress, true_iff]
    rintro ⟨time, batches, hnewest, -⟩
    exact not_newestBoundary hnone hnewest
  | begun hnewest => simpa using ⟨_, _, hnewest, Nat.two_pos⟩
  | halfway hnewest => simpa using ⟨_, _, hnewest, Nat.one_lt_two⟩
  | finished hnewest =>
    simp only [InProgress, true_iff]
    rintro ⟨time, batches, hother, hfew⟩
    rw [(hnewest.unique hother).2] at hfew
    exact absurd hfew (by simp)

/-- Events that neither begin a boundary nor flush it leave it where it is. -/
theorem Standing.concat (hs : Standing h phase begun)
    (hbegun : ∀ other, e ≠ .began other (.ok ())) (hflushed : e.batch? = none) : Standing (h ++ [e]) phase begun := by
  have hstill : ∀ {time batches}, NewestBoundary h time batches → NewestBoundary (h ++ [e]) time batches :=
    fun {_ batches} hnewest => newestBoundary_concat_iff.mpr (.inr ⟨hbegun, batches, hnewest, by simp [hflushed]⟩)
  cases hs with
  | unused hnone =>
    refine .unused fun time => ?_
    rw [List.mem_append, List.mem_singleton, not_or]
    exact ⟨hnone time, fun heq => hbegun time heq.symm⟩
  | begun hnewest => exact .begun (hstill hnewest)
  | halfway hnewest => exact .halfway (hstill hnewest)
  | finished hnewest => exact .finished (hstill hnewest)

end

theorem not_isFirstFlush (hflushed : e.batch? = none) : ¬ IsFirstFlush h e := by
  rintro ⟨⟨batch, rfl⟩, -⟩
  cases hflushed

/-- Events that neither capture a batch nor flush first leave what is held. -/
theorem Holding.concat {captured : Option ChangeBatch} (hh : Holding h captured)
    (hother : ∀ other, e ≠ .captured other) (hflush : ¬ IsFirstFlush h e) : Holding (h ++ [e]) captured := by
  cases captured with
  | none => exact NothingPending.concat hh hother
  | some batch =>
    obtain ⟨before, hpending⟩ := hh
    exact ⟨before, hpending.concat hother hflush⟩

namespace BoundarySite

open BoundaryAccumulator

variable {s : BoundarySite}

/-! ### What each call does -/

theorem take_beginBoundary_idle (hphase : s.acc.phase = .idle) (time : Timestamp) :
    s.take (.beginBoundary time) =
      (.began time (.ok ()), { s with acc := { s.acc with phase := .awaitingLedger, time := some time } }) := by
  simp [take, run_beginInPlace, beginBoundary, hphase, keep, Except.map]

theorem take_beginBoundary_violation (hphase : s.acc.phase ≠ .idle) (time : Timestamp) :
    s.take (.beginBoundary time) = (.began time (.error s.acc.violation), s) := by
  have hrefused : s.acc.beginBoundary time = .error s.acc.violation := by
    unfold beginBoundary
    split
    · exact absurd ‹_› hphase
    · rfl
  simp only [take, run_beginInPlace, hrefused]
  rfl

theorem take_flush_idle (hphase : s.acc.phase = .idle) :
    s.take .flush = (.flushed (.error s.acc.violation), s) := by
  simp [take, run_flushInPlace, BoundaryAccumulator.flush, hphase, keep]

theorem take_flush_first (hphase : s.acc.phase = .awaitingLedger) (htime : s.acc.time = some time) :
    s.take .flush = (.flushed (.ok (s.acc.captured.getD ⟨time, []⟩)),
      { s with acc := { s.acc with phase := .awaitingSingleton, captured := none } }) := by
  simp [take, run_flushInPlace, BoundaryAccumulator.flush, boundaryTime, hphase, htime, keep, bind, pure, Except.bind,
    Except.pure]

theorem take_flush_second {info : StreamInfo} (hphase : s.acc.phase = .awaitingSingleton)
    (htime : s.acc.time = some time) (hledger : s.ledger = some info) :
    s.take .flush = (.flushed (.ok (positionBatch time info)), { s with acc := { s.acc with phase := .idle } }) := by
  simp [take, run_flushInPlace, BoundaryAccumulator.flush, boundaryTime, hphase, htime, hledger, keep, bind, pure,
    Except.bind, Except.pure]

theorem take_flush_missing (hphase : s.acc.phase = .awaitingSingleton) (htime : s.acc.time = some time)
    (hledger : s.ledger = none) : s.take .flush =
      (.flushed (.error (.internal "block stream info missing from state at boundary")), s) := by
  have hsame : { s with ledger := none } = s := hledger ▸ rfl
  simpa [take, run_flushInPlace, BoundaryAccumulator.flush, boundaryTime, hphase, htime, hledger, keep, bind,
    Except.bind] using hsame

/-! ### Every call keeps the invariant -/

/-- An event that captures nothing, begins no boundary and flushes nothing, of an accumulator left as it is. -/
theorem tracks_concat {acc : BoundaryAccumulator} (ht : acc.Tracks h) (hother : ∀ other, e ≠ .captured other)
    (hbegun : ∀ other, e ≠ .began other (.ok ())) (hflushed : e.batch? = none) : acc.Tracks (h ++ [e]) :=
  ⟨ht.standing.concat hbegun hflushed, ht.holding.concat hother (not_isFirstFlush hflushed)⟩

theorem tracks_take_beginBoundary (ht : s.acc.Tracks h) (time : Timestamp) :
    (s.take (.beginBoundary time)).2.acc.Tracks (h ++ [(s.take (.beginBoundary time)).1]) := by
  by_cases hphase : s.acc.phase = .idle
  · rw [take_beginBoundary_idle hphase]
    exact ⟨.begun (newestBoundary_concat_iff.mpr (.inl ⟨rfl, rfl⟩)),
      ht.holding.concat (by simp) (not_isFirstFlush rfl)⟩
  · rw [take_beginBoundary_violation hphase]
    exact tracks_concat ht (by simp) (by simp) rfl

theorem tracks_take_flush (ht : s.acc.Tracks h) : (s.take .flush).2.acc.Tracks (h ++ [(s.take .flush).1]) := by
  obtain ⟨hstanding, hholding⟩ := ht
  generalize hphase : s.acc.phase = phase at hstanding
  generalize htime : s.acc.time = begun at hstanding
  have ht : s.acc.Tracks h := ⟨hphase ▸ htime ▸ hstanding, hholding⟩
  cases hstanding with
  | unused | finished =>
    rw [take_flush_idle hphase]
    exact tracks_concat ht (by simp) (by simp) rfl
  | begun hnewest =>
    rw [take_flush_first hphase htime]
    refine ⟨?_, nothingPending_of_isFirstFlush ⟨⟨_, rfl⟩, _, hnewest⟩⟩
    rw [htime]
    exact .halfway (newestBoundary_concat_iff.mpr (.inr ⟨by simp, [], hnewest, rfl⟩))
  | halfway hnewest =>
    cases hledger : s.ledger with
    | none =>
      rw [take_flush_missing hphase htime hledger]
      exact tracks_concat ht (by simp) (by simp) rfl
    | some info =>
      rw [take_flush_second hphase htime hledger]
      refine ⟨?_, hholding.concat (by simp) ?_⟩
      · rw [htime]
        exact .finished (newestBoundary_concat_iff.mpr (.inr ⟨by simp, _, hnewest, rfl⟩))
      · rintro ⟨-, other, hfirst⟩
        cases (hnewest.unique hfirst).2

/-- **Every call keeps the invariant.** -/
theorem tracks_take (ht : s.acc.Tracks h) (call : BoundaryCall) :
    (s.take call).2.acc.Tracks (h ++ [(s.take call).1]) := by
  cases call with
  | capture batch => exact ⟨ht.standing.concat (by simp [take]) rfl, h, pending_captured h batch⟩
  | update ledger => exact tracks_concat ht (by simp [take]) (by simp [take]) rfl
  | beginBoundary time => exact tracks_take_beginBoundary ht time
  | flush => exact tracks_take_flush ht

/-- After any calls on a new accumulator, it is where their history has brought it. -/
theorem tracks_run (ledger : Option StreamInfo) (calls : List BoundaryCall) :
    (run ⟨.new, ledger⟩ calls).2.acc.Tracks (run ⟨.new, ledger⟩ calls).1 := by
  induction calls using List.reverseRecOn with
  | nil => exact tracks_new
  | append_singleton calls call ih =>
    rw [run_concat]
    exact tracks_take ih call

/-! ### What an accumulator answers -/

/-- The next call is answered as the history of the calls so far has it. -/
structure FollowsProtocol (s : BoundarySite) (h : List BoundaryEvent) : Prop where
  /-- A boundary begins exactly if none is in progress. -/
  begins : ∀ time, (s.take (.beginBoundary time)).1 = .began time (.ok ()) ↔ ¬ InProgress h
  /-- A flush succeeds exactly as the first of its boundary, or as the second if the ledger holds a position. -/
  flushes : (∃ batch, (s.take .flush).1 = .flushed (.ok batch)) ↔
    ∃ time batches, NewestBoundary h time batches ∧ (batches = [] ∨ batches.length = 1 ∧ s.ledger ≠ none)
  /-- The second flush returns the position that the ledger holds then. -/
  second : ∀ time batch info, NewestBoundary h time [batch] → s.ledger = some info →
    (s.take .flush).1 = .flushed (.ok (positionBatch time info))
  /-- Without a position the second flush fails, and it may be tried again. -/
  retried : ∀ time batch info, NewestBoundary h time [batch] → s.ledger = none →
    s.take .flush = (.flushed (.error (.internal "block stream info missing from state at boundary")), s) ∧
      ((s.take .flush).2.take (.update (some info))).2.take .flush =
        (.flushed (.ok (positionBatch time info)), ⟨{ s.acc with phase := .idle }, some info⟩)
  /-- The time of a boundary is that of the last that began. -/
  time : ∀ time, s.acc.boundaryTime = .ok time ↔ ∃ batches, NewestBoundary h time batches
  /-- Before the first boundary, there is no such time. -/
  noTime : (∀ time, .began time (.ok ()) ∉ h) → s.acc.boundaryTime = .error .noBoundaryReached
  /-- A call that fails changes nothing. -/
  unchanged : ∀ call e, (s.take call).1.cause? = some e → (s.take call).2 = s

theorem take_flush_isOk_iff (ht : s.acc.Tracks h) : (∃ batch, (s.take .flush).1 = .flushed (.ok batch)) ↔
    ∃ time batches, NewestBoundary h time batches ∧ (batches = [] ∨ batches.length = 1 ∧ s.ledger ≠ none) := by
  constructor
  · rintro ⟨batch, hbatch⟩
    cases hphase : s.acc.phase with
    | idle =>
      rw [take_flush_idle hphase] at hbatch
      cases hbatch
    | awaitingLedger =>
      obtain ⟨time, hnewest⟩ := ht.standing.awaitingLedger_iff.mp hphase
      exact ⟨time, [], hnewest, .inl rfl⟩
    | awaitingSingleton =>
      obtain ⟨time, first, hnewest⟩ := ht.standing.awaitingSingleton_iff.mp hphase
      refine ⟨time, [first], hnewest, .inr ⟨rfl, fun hledger => ?_⟩⟩
      rw [take_flush_missing hphase (ht.standing.time_iff.mpr ⟨_, hnewest⟩) hledger] at hbatch
      cases hbatch
  · rintro ⟨time, batches, hnewest, rfl | ⟨hone, hledger⟩⟩
    · have hphase := ht.standing.awaitingLedger_iff.mpr ⟨time, hnewest⟩
      exact ⟨_, by rw [take_flush_first hphase (ht.standing.time_iff.mpr ⟨_, hnewest⟩)]⟩
    · obtain ⟨first, rfl⟩ := List.length_eq_one_iff.mp hone
      obtain ⟨info, hinfo⟩ := Option.ne_none_iff_exists'.mp hledger
      have hphase := ht.standing.awaitingSingleton_iff.mpr ⟨time, first, hnewest⟩
      exact ⟨_, by rw [take_flush_second hphase (ht.standing.time_iff.mpr ⟨_, hnewest⟩) hinfo]⟩

theorem take_of_cause (ht : s.acc.Tracks h) {call : BoundaryCall} {cause : StreamError}
    (hcause : (s.take call).1.cause? = some cause) : (s.take call).2 = s := by
  cases call with
  | capture batch => cases hcause
  | update ledger => cases hcause
  | beginBoundary time =>
    by_cases hphase : s.acc.phase = .idle
    · rw [take_beginBoundary_idle hphase] at hcause
      cases hcause
    · rw [take_beginBoundary_violation hphase]
  | flush =>
    cases hphase : s.acc.phase with
    | idle => rw [take_flush_idle hphase]
    | awaitingLedger =>
      obtain ⟨time, hnewest⟩ := ht.standing.awaitingLedger_iff.mp hphase
      rw [take_flush_first hphase (ht.standing.time_iff.mpr ⟨_, hnewest⟩)] at hcause
      cases hcause
    | awaitingSingleton =>
      obtain ⟨time, first, hnewest⟩ := ht.standing.awaitingSingleton_iff.mp hphase
      have htime := ht.standing.time_iff.mpr ⟨_, hnewest⟩
      cases hledger : s.ledger with
      | none => rw [take_flush_missing hphase htime hledger]
      | some info =>
        rw [take_flush_second hphase htime hledger] at hcause
        cases hcause

theorem followsProtocol_of_tracks (ht : s.acc.Tracks h) : s.FollowsProtocol h where
  begins time := by
    rw [← ht.standing.idle_iff]
    by_cases hphase : s.acc.phase = .idle
    · simp [take_beginBoundary_idle hphase, hphase]
    · simp [take_beginBoundary_violation hphase, hphase]
  flushes := take_flush_isOk_iff ht
  second time batch info hnewest hledger := by
    have hphase := ht.standing.awaitingSingleton_iff.mpr ⟨time, batch, hnewest⟩
    rw [take_flush_second hphase (ht.standing.time_iff.mpr ⟨_, hnewest⟩) hledger]
  retried time batch info hnewest hledger := by
    have hphase := ht.standing.awaitingSingleton_iff.mpr ⟨time, batch, hnewest⟩
    have htime := ht.standing.time_iff.mpr ⟨_, hnewest⟩
    have hmissing := take_flush_missing hphase htime hledger
    refine ⟨hmissing, ?_⟩
    rw [hmissing]
    exact take_flush_second (s := (s.take (.update (some info))).2) hphase htime rfl
  time time := by
    rw [← ht.standing.time_iff, boundaryTime]
    cases s.acc.time <;> simp
  noTime hnone := by
    have htime : s.acc.time = none := by
      rw [Option.eq_none_iff_forall_ne_some]
      intro time htime
      obtain ⟨batches, hnewest⟩ := ht.standing.time_iff.mp htime
      exact not_newestBoundary hnone hnewest
    rw [boundaryTime, htime]
  unchanged _ _ := take_of_cause ht

/-- The first flush of a boundary returns what is pending, or an empty batch at the boundary's time. -/
theorem take_flush_of_newest (ht : s.acc.Tracks h) (hnewest : NewestBoundary h time []) :
    (∃ before batch, Pending before h batch ∧ (s.take .flush).1 = .flushed (.ok batch)) ∨
      NothingPending h ∧ (s.take .flush).1 = .flushed (.ok ⟨time, []⟩) := by
  have hphase := ht.standing.awaitingLedger_iff.mpr ⟨time, hnewest⟩
  rw [take_flush_first hphase (ht.standing.time_iff.mpr ⟨_, hnewest⟩)]
  have hholding := ht.holding
  cases hcaptured : s.acc.captured with
  | none =>
    rw [hcaptured] at hholding
    exact .inr ⟨hholding, rfl⟩
  | some batch =>
    rw [hcaptured] at hholding
    obtain ⟨before, hpending⟩ := hholding
    exact .inl ⟨before, batch, hpending, rfl⟩

/-- Every first flush in a history of calls returned what was pending, or an empty batch. -/
theorem first_flushes_of_run (ledger : Option StreamInfo) (calls : List BoundaryCall) {g rest : List BoundaryEvent}
    (hsplit : (run ⟨.new, ledger⟩ calls).1 = g ++ .flushed (.ok batch) :: rest) (hnewest : NewestBoundary g time []) :
    (∃ before, Pending before g batch) ∨ NothingPending g ∧ batch = ⟨time, []⟩ := by
  induction calls using List.reverseRecOn generalizing rest with
  | nil => simp [run] at hsplit
  | append_singleton calls call ih =>
    rw [run_concat] at hsplit
    rcases concat_eq_split hsplit with ⟨rfl, hevent, -⟩ | ⟨earlier, -, hh⟩
    · have hflush : call = .flush := by
        cases call with
        | flush => rfl
        | capture => cases hevent
        | update => cases hevent
        | beginBoundary => cases hevent
      subst hflush
      rcases take_flush_of_newest (tracks_run ledger calls) hnewest with
        ⟨before, pending, hpending, hanswer⟩ | ⟨hnone, hanswer⟩
      · cases hevent.symm.trans hanswer
        exact .inl ⟨before, hpending⟩
      · cases hevent.symm.trans hanswer
        exact .inr ⟨hnone, rfl⟩
    · exact ih hh

end BoundarySite

/-! ### Main result -/

/-- In a history, the first flush after the events `g` returned the batch captured after the events `before`. -/
def Emits (h before g : List BoundaryEvent) : Prop :=
  ∃ batch rest, h = g ++ .flushed (.ok batch) :: rest ∧ IsFirstFlush g (.flushed (.ok batch)) ∧ Pending before g batch

/-- What a first flush has returned is not pending again. -/
theorem not_pending_of_isFirstFlush {g more : List BoundaryEvent} {other : ChangeBatch} (hflush : IsFirstFlush g e)
    (hpending : Pending before g batch) : ¬ Pending before (g ++ e :: more) other := by
  obtain ⟨later, rfl, -⟩ := hpending
  rintro ⟨later', hsplit, -, hnone⟩
  obtain ⟨hbatch, hlater⟩ : BoundaryEvent.captured batch = .captured other ∧ later ++ e :: more = later' := by
    simpa using hsplit
  exact hnone later e more hlater.symm (hbatch ▸ hflush)

/-- A captured batch is emitted by one flush at most. -/
theorem Emits.unique {g g' : List BoundaryEvent} (hemits : Emits h before g) (hother : Emits h before g') : g' = g := by
  obtain ⟨batch, rest, rfl, hflush, hpending⟩ := hemits
  obtain ⟨batch', rest', hsplit, hflush', hpending'⟩ := hother
  -- of two different flushes, the later one would find pending what the earlier one returned
  rcases List.append_eq_append_iff.mp hsplit with ⟨mid, rfl, hmid⟩ | ⟨mid, rfl, hmid⟩
  · cases mid with
    | nil => simp
    | cons f more =>
      obtain ⟨rfl, -⟩ := List.cons.inj hmid
      exact absurd hpending' (not_pending_of_isFirstFlush hflush hpending)
  · cases mid with
    | nil => simp
    | cons f more =>
      obtain ⟨rfl, -⟩ := List.cons.inj hmid
      exact absurd hpending (not_pending_of_isFirstFlush hflush' hpending')

/-- **A new accumulator follows the protocol of boundaries through any calls.** What an operation leaves when it is
carried out in place is what the accumulator's own functions say; the next call is answered as the history has it;
the first flush of every boundary has returned the batch that was pending, or an empty one at the boundary's time;
and no captured batch was returned twice. -/
theorem boundary_protocol (ledger : Option StreamInfo) (calls : List BoundaryCall) :
    let h := (BoundarySite.run ⟨.new, ledger⟩ calls).1
    let s := (BoundarySite.run ⟨.new, ledger⟩ calls).2
    (∀ time, (BoundaryAccumulator.beginInPlace time).run.run s.acc =
        s.acc.keep ((s.acc.beginBoundary time).map ((), ·))) ∧
      (BoundaryAccumulator.flushInPlace s.ledger).run.run s.acc = s.acc.keep (s.acc.flush s.ledger) ∧
      s.FollowsProtocol h ∧
      (∀ g batch rest time, h = g ++ .flushed (.ok batch) :: rest → NewestBoundary g time [] →
        (∃ before, Pending before g batch) ∨ NothingPending g ∧ batch = ⟨time, []⟩) ∧
      ∀ before g g', Emits h before g → Emits h before g' → g' = g :=
  ⟨fun _ => BoundaryAccumulator.run_beginInPlace .., BoundaryAccumulator.run_flushInPlace ..,
    BoundarySite.followsProtocol_of_tracks (BoundarySite.tracks_run ledger calls),
    fun _ _ _ _ hsplit hnewest => BoundarySite.first_flushes_of_run ledger calls hsplit hnewest,
    fun _ _ _ hemits hother => hemits.unique hother⟩

/-- A second flush that finds no position is tried again. -/
example (batch : ChangeBatch) (time : Timestamp) (info : StreamInfo) :
    ((BoundarySite.run ⟨.new, none⟩
      [.capture batch, .beginBoundary time, .flush, .flush, .update (some info), .flush]).1.filterMap (·.batch?)) =
        [batch, BoundaryAccumulator.positionBatch time info] :=
  rfl

end RoundChain
