import RoundChain.Stream.Pipeline

/-!
# Sessions

A session is a stream with the signer and the store that it works with. It ends with
a shutdown, which takes every closed block to its end, or is cut off; either way the
open block is lost. Another session can go on over the same signer, the same store
and the same ledger state. Blocks of a session that has ended may still wait for
their signature or their start state; they go on beside those of the sessions after
it.

## The model

A session knows the streams of the sessions before it. Every stream has a writer of
its own: that of the current stream has the place 0, that of the one before it the
place 1, and so on. `Session.settle` takes all streams as far as they come, in the
order that an `Agenda` of their steps gives.
-/

namespace RoundChain

/-- A stream, its signer and its store. -/
structure Session (σ ω : Type) where
  stream : StreamState
  /-- The streams of the sessions before, the newest first. -/
  earlier : List StreamState
  signer : σ
  store : ω

/-- How far a shutdown comes. -/
inductive Shutdown where
  /-- Every closed block is stored. -/
  | done (info : StreamInfo)
  /-- Production had stopped, or stopped on the way. -/
  | halted (reason : String)
  /-- Some block waits for what may never come. -/
  | pending
  deriving DecidableEq, Repr

/-- What is known of a block's way to the store. -/
inductive Awaited where
  | finalized
  | halted (reason : String)
  | pending
  deriving DecidableEq, Repr

namespace StreamState

/-- Whether a block was stored in this session. -/
def await (s : StreamState) (number : UInt64) : Awaited :=
  if s.lastFinalized.any (number ≤ ·) then .finalized
  else
    match s.halted with
    | some reason => .halted reason
    | none => .pending

/-- The stream without the hashes that were to be notified: they will not be. -/
def forgetNotified (s : StreamState) : StreamState :=
  let s := { s with slots := .empty }
  match s.awaitedState? with
  | some (.notified round) => s.informed (.notified round)
  | _ => s

/-- The stream without intake: the open block is dropped, with the wait for its state, and hashes that
were not notified will not be. -/
def stopIntake (s : StreamState) : StreamState :=
  let waiting := s.pending.any (·.startState == .supplied) || s.initialRound.isSome
  { s with pending := none, phase := .awaitingRound
           supplied := if waiting then s.supplied.dropReader.2 else s.supplied }.forgetNotified

end StreamState

namespace Session

variable {σ ω : Type}

/-- The first session over a signer and a store. -/
def new (stream : StreamState) (signer : σ) (store : ω) : Session σ ω := ⟨stream, [], signer, store⟩

/-! ### Working -/

/-- A step of the stream at a place. -/
abbrev Errand := Nat × Duty

/-- All streams, the current one first. -/
def streams (session : Session σ ω) : List StreamState := session.stream :: session.earlier

/-- The session with the stream at a place replaced. -/
def setStream (session : Session σ ω) (place : Nat) (s : StreamState) : Session σ ω :=
  match place with
  | 0 => { session with stream := s }
  | place + 1 => { session with earlier := session.earlier.set place s }

/-- Runs an errand, and answers with those that become due by it. -/
def run (signer : Signer σ) (writer : Nat → Writer ω) (session : Session σ ω) (errand : Errand) :
    Session σ ω × List (Urgency × Errand) :=
  let (place, duty) := errand
  match session.streams[place]? with
  | none => (session, [])
  | some s =>
    let (s, σ₁, ω₁, duties) := s.perform signer (writer place) duty session.signer session.store
    ({ session with signer := σ₁, store := ω₁ }.setStream place s,
      duties.map fun (urgency, duty) => (urgency, place, duty))

/-- Runs the errands on an agenda, and those that become due by them; at most `steps`. -/
def runAll (signer : Signer σ) (writer : Nat → Writer ω) :
    Nat → Session σ ω → Agenda Errand → Session σ ω
  | 0, session, _ => session
  | steps + 1, session, agenda =>
    match agenda.next? with
    | none => session
    | some (errand, agenda) =>
      let (session, errands) := session.run signer writer errand
      runAll signer writer steps session (agenda.enterAll errands)

/-- The errands of a stream that goes on again, and the stream without what it noted of them. -/
def resumeAt (place : Nat) (s : StreamState) : StreamState × List (Urgency × Errand) :=
  let (s, duties) := s.resume
  (s, duties.map fun (urgency, duty) => (urgency, place, duty))

/-- The errands of all streams as they go on again. -/
def resumeAll (session : Session σ ω) : Session σ ω × Agenda Errand :=
  let resumed := session.streams.mapIdx resumeAt
  ({ session with stream := session.stream.resume.1
                  earlier := session.earlier.map (·.resume.1) },
    Agenda.empty.enterAll (resumed.flatMap (·.2)))

/-- A bound on the errands that can be run before nothing more can happen. -/
def workload (signer : Signer σ) (session : Session σ ω) : Nat :=
  session.streams.foldl (fun steps s => steps + s.workload) 0 + 2 * signer.patience session.signer

/-- Signs and writes until nothing more can happen. -/
def settle (signer : Signer σ) (writer : Nat → Writer ω) (session : Session σ ω) : Session σ ω :=
  let (resumed, agenda) := session.resumeAll
  resumed.runAll signer writer (session.workload signer) agenda

/-! ### Ending -/

/-- Ends intake and takes every closed block as far as it goes. -/
def drain (signer : Signer σ) (writer : Nat → Writer ω) (session : Session σ ω) : Session σ ω :=
  { session with stream := session.stream.stopIntake }.settle signer writer

/-- What a drained session ends with. -/
def outcome (session : Session σ ω) : Shutdown :=
  match session.stream.halted with
  | some reason => .halted reason
  | none => if session.stream.idle then .done session.stream.finalized else .pending

/-- Ends a session. -/
def shutdown (signer : Signer σ) (writer : Nat → Writer ω) (session : Session σ ω) :
    Shutdown × Session σ ω :=
  let session := session.drain signer writer
  (session.outcome, session)

end Session

end RoundChain
