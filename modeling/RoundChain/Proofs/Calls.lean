import RoundChain.Proofs.Blocks
import RoundChain.Stream.Session

/-!
# What calls leave behind

One statement for each call of intake says everything that it can do to a stream. The
theorems on whole runs rest on these statements, and do not look into the calls again.

## The model

Most of what a call does concerns the state hashes that blocks wait for, the duties
and the counters. `StreamState.core` is a stream without these, so an equation between
cores says what has changed and that nothing else has. `StreamState.plain` keeps the
counters, and what is noted of stored blocks.

The end of a round may end the open block. `StreamState.made` tells, from the stream
before the call, the block that closes, the two boundary batches it ends with, and the
positions that are put into ledger state.
-/

namespace RoundChain

/-- A call of intake. -/
inductive IntakeCall where
  | initLastHash (hash : BlockHash)
  | startRound (round : UInt64) (time : Timestamp)
  | writeItem (item : Item)
  | notify (round : UInt64) (hash : BlockHash)
  | endRound (round : UInt64)
  | capture (batch : ChangeBatch)
  | beginBoundary (time : Timestamp)
  | flushBoundary
  deriving DecidableEq

/-- Whether a cause blames the order of rounds. -/
def StreamError.outOfTurn : StreamError → Bool
  | .orderingViolation .. | .roundMismatch .. => true
  | _ => false

/-- What the end of a round makes. -/
structure Made where
  closed : List ClosedBlock := []
  /-- The boundary batches. -/
  batches : List ChangeBatch := []
  /-- The positions put into ledger state. -/
  positions : List StreamInfo := []

/-- What was made before, and then some more. -/
def Made.add (made more : Made) : Made :=
  ⟨made.closed ++ more.closed, made.batches ++ more.batches, made.positions ++ more.positions⟩

namespace StreamCall

variable {α β : Type} {call : StreamCall α} {next : α → StreamState → StreamCall β}

theorem andThen_of_ok {a : α} (h : call.1 = .ok a) : call.andThen next = next a call.2 := by
  obtain ⟨r, s⟩ := call
  cases h
  rfl

theorem andThen_of_error {e : Stop StreamError} (h : call.1 = .error e) :
    call.andThen next = (.error e, call.2) := by
  obtain ⟨r, s⟩ := call
  cases h
  rfl

end StreamCall

namespace StreamState

/-- Makes a call. -/
def take (s : StreamState) : IntakeCall → StreamCall Unit
  | .initLastHash hash => s.initLastHash hash
  | .startRound round time => s.startRound round time
  | .writeItem item => s.writeItem item
  | .notify round hash => (.ok (), s.notify round hash)
  | .endRound round => s.endRound round
  | .capture batch => (.ok (), s.capture batch)
  | .beginBoundary time => s.beginBoundary time
  | .flushBoundary => let r := s.flushBoundary; (r.1.map fun _ => (), r.2)

/-- The stream without state hashes, duties and counters. -/
def core (s : StreamState) : StreamState :=
  { s with
    warm := false, initialRound := none, supplied := .pending, slots := .empty, delivered := .empty
    duties := [], lastFinalized := none, metrics := {} }

/-- What is told from the core alone is the same for streams with one core. -/
theorem of_core {α : Type} (f : StreamState → α) (hf : ∀ s, f s.core = f s) {s t : StreamState}
    (h : s.core = t.core) : f s = f t := by
  rw [← hf s, h, hf]

/-- The stream without state hashes and duties. -/
def plain (s : StreamState) : StreamState :=
  { s with
    warm := false, initialRound := none, supplied := .pending, slots := .empty, delivered := .empty
    duties := [] }

/-- What is told from the plain stream alone is the same for streams that are the same when plain. -/
theorem of_plain {α : Type} (f : StreamState → α) (hf : ∀ s, f s.plain = f s) {s t : StreamState}
    (h : s.plain = t.plain) : f s = f t := by
  rw [← hf s, h, hf]

/-! ### What is made -/

/-- The open block and the time of its end, if the end of a round closes it. -/
def closing? (s : StreamState) (round : UInt64) : Option (PendingBlock × Timestamp) :=
  match s.phase, s.pending with
  | .roundOpen opened time, some block =>
    if opened = round ∧ s.policy block s.config then some (block, time) else none
  | _, _ => none

/-- The captured batch that a boundary would begin with. -/
def capturedAt (s : StreamState) (time : Timestamp) : ChangeBatch :=
  s.boundary.captured.getD ⟨time, []⟩

/-- The batch that would publish the chain so far. -/
def positionAt (s : StreamState) (time : Timestamp) : ChangeBatch :=
  BoundaryAccumulator.positionBatch time s.chain

/-- The chain with one more block. -/
def chainWith (s : StreamState) (closed : ClosedBlock) : StreamInfo :=
  s.chain.record closed.number closed.hash closed.endTime s.config.trailingLimit

/-- What a call makes. -/
def made (s : StreamState) : IntakeCall → Made
  | .endRound round =>
    match s.closing? round with
    | none => {}
    | some (block, time) =>
      if s.boundary.phase = .idle then
        match block.sealed time (s.capturedAt time) (s.positionAt time) with
        | .ok closed => ⟨[closed], [s.capturedAt time, s.positionAt time], [s.chain, s.chainWith closed]⟩
        | .error _ => ⟨[], [s.capturedAt time, s.positionAt time], [s.chain]⟩
      else { positions := [s.chain] }
  | _ => {}

/-! ### State hashes, duties and counters -/

section

variable (s : StreamState)

theorem plain_must (duty : Duty) : (s.must duty).plain = s.plain := by
  unfold must
  split <;> rfl

theorem plain_informed (startState : StartState) : (s.informed startState).plain = s.plain := by
  unfold informed
  split
  · exact s.plain_must _
  · rfl

theorem plain_startStateFromSlots (round : UInt64) : (s.startStateFromSlots round).2.plain = s.plain := by
  unfold startStateFromSlots
  split
  · rfl
  · split <;> rfl

theorem plain_startStateFor (round : UInt64) : (s.startStateFor round).2.plain = s.plain := by
  unfold startStateFor
  split
  · exact s.plain_startStateFromSlots round
  · simp only
    split
    · rfl
    · split
      · rfl
      · exact plain_startStateFromSlots _ round

theorem plain_pruneSlots (round : UInt64) : (s.pruneSlots round).2.plain = s.plain := by
  unfold pruneSlots
  split <;> rfl

theorem plain_notify (round : UInt64) (hash : BlockHash) : (s.notify round hash).plain = s.plain := by
  unfold notify
  split
  · exact plain_informed _ _
  · rfl

theorem plain_supplyInitial (hash : BlockHash) : (s.supplyInitial hash).2.plain = s.plain := by
  simp only [supplyInitial, plain_informed]
  rfl

theorem plain_abandonInitial : s.abandonInitial.2.plain = s.plain := by
  simp only [abandonInitial, plain_informed]
  rfl

@[simp] theorem core_must (duty : Duty) : (s.must duty).core = s.core :=
  of_plain core (fun _ => rfl) (s.plain_must duty)

@[simp] theorem core_informed (startState : StartState) : (s.informed startState).core = s.core :=
  of_plain core (fun _ => rfl) (s.plain_informed startState)

theorem core_startStateFor (round : UInt64) : (s.startStateFor round).2.core = s.core :=
  of_plain core (fun _ => rfl) (s.plain_startStateFor round)

theorem core_pruneSlots (round : UInt64) : (s.pruneSlots round).2.core = s.core :=
  of_plain core (fun _ => rfl) (s.plain_pruneSlots round)

@[simp] theorem core_notify (round : UInt64) (hash : BlockHash) : (s.notify round hash).core = s.core :=
  of_plain core (fun _ => rfl) (s.plain_notify round hash)

@[simp] theorem core_supplyInitial (hash : BlockHash) : (s.supplyInitial hash).2.core = s.core :=
  of_plain core (fun _ => rfl) (s.plain_supplyInitial hash)

@[simp] theorem core_abandonInitial : s.abandonInitial.2.core = s.core :=
  of_plain core (fun _ => rfl) s.plain_abandonInitial

end

/-! ### The beginning of a session -/

theorem initLastHash_cases (s : StreamState) (hash : BlockHash) :
    s.initLastHash hash = (refuse .alreadyInitialized, s) ∨
      s.started = false ∧ s.anchor = none ∧
        s.initLastHash hash = (.ok (), { s with anchor := some hash }) := by
  unfold initLastHash
  split
  · exact .inl rfl
  · rename_i h
    simp only [not_or, Bool.not_eq_true, Option.isSome_eq_false_iff, Option.isNone_iff_eq_none] at h
    exact .inr ⟨h.1, h.2.2, rfl⟩

/-- The stream `b` is `s` once it has found the chain to continue. -/
inductive Bootstraps (s : StreamState) : StreamState → Prop where
  | before : s.started = true → Bootstraps s s.core
  | now {info : StreamInfo} {n : UInt64} : s.started = false → s.origin? = some info →
      info.nextNumber (ε := StreamError) = .ok n →
      Bootstraps s
        { s.core with
          lastClosedHash := info.lastHash, nextNumber := n, chain := info, finalized := info
          started := true }

theorem bootstrap_cases (s : StreamState) :
    (∃ limit, s.bootstrap.1 = .error (.exceeded limit)) ∨
      s.bootstrap = (refuse .notInitialized, s) ∨
      s.bootstrap.1 = .ok () ∧ Bootstraps s s.bootstrap.2.core := by
  unfold bootstrap
  split
  · rename_i h
    exact .inr (.inr ⟨rfl, .before h⟩)
  · rename_i h
    split
    · exact .inr (.inl rfl)
    · rename_i info hinfo
      simp only
      split
      · rename_i e he
        obtain ⟨limit, rfl⟩ : ∃ limit, e = .exceeded limit := by
          unfold StreamInfo.nextNumber nextWord at he
          split at he
          · cases he
          · split at he
            · cases he
            · cases he
              exact ⟨_, rfl⟩
        exact .inl ⟨limit, rfl⟩
      · rename_i n hn
        exact .inr (.inr ⟨rfl, .now (by simpa using h) hinfo hn⟩)

theorem Bootstraps.pending_eq {s b : StreamState} (h : Bootstraps s b) : b.pending = s.pending := by
  cases h <;> rfl

/-! ### Rounds -/

theorem startStateFor_cases (s : StreamState) (round : UInt64) :
    (∃ limit, (s.startStateFor round).1 = .error (.exceeded limit)) ∨
      ∃ startState, (s.startStateFor round).1 = .ok startState := by
  unfold startStateFor
  split
  · exact .inr ⟨_, rfl⟩
  · simp only
    split
    · rename_i e he
      unfold nextWord at he
      split at he
      · cases he
      · cases he
        exact .inl ⟨_, rfl⟩
    · split
      · exact .inr ⟨_, rfl⟩
      · exact .inr ⟨_, rfl⟩

theorem pruneSlots_cases (s : StreamState) (round : UInt64) :
    (∃ limit, (s.pruneSlots round).1 = .error (.exceeded limit)) ∨ (s.pruneSlots round).1 = .ok () := by
  unfold pruneSlots
  split
  · exact .inl ⟨_, rfl⟩
  · exact .inr rfl

/-- The stream with an open block. -/
def withBlock (s : StreamState) (block : PendingBlock) : StreamState := { s with pending := some block }

/-- The stream with an open round. -/
def inRound (s : StreamState) (round : UInt64) (time : Timestamp) : StreamState :=
  { s with lastRound := some round, phase := .roundOpen round time }

/-- The stream that a started round leads to: the round is in the block that was open, or in a new
one. -/
inductive StartsRound (s : StreamState) (round : UInt64) (time : Timestamp) : StreamState → Prop where
  | joined {b : StreamState} {block : PendingBlock} : Bootstraps s b → s.pending = some block →
      StartsRound s round time ((b.withBlock (block.beginRound round time)).inRound round time)
  | opened {b : StreamState} {startState : StartState} {block : PendingBlock} : Bootstraps s b →
      s.pending = none →
      PendingBlock.start b.nextNumber b.lastClosedHash round time b.config.version startState = .ok block →
      StartsRound s round time ((b.withBlock block).inRound round time)

theorem openBlock_cases (s : StreamState) (round : UInt64) (time : Timestamp) :
    (∃ limit, (s.openBlock round time).1 = .error (.exceeded limit)) ∨
      (s.openBlock round time).1 = .ok () ∧
        ∃ startState block,
          PendingBlock.start s.nextNumber s.lastClosedHash round time s.config.version startState =
              .ok block ∧
            (s.openBlock round time).2.core = s.core.withBlock block := by
  unfold openBlock
  rcases s.startStateFor_cases round with ⟨limit, hl⟩ | ⟨startState, hs⟩
  · exact .inl ⟨limit, by rw [StreamCall.andThen_of_error hl]⟩
  right
  have hcore := s.core_startStateFor round
  have hnumber := of_core nextNumber (fun _ => rfl) hcore
  have hlast := of_core lastClosedHash (fun _ => rfl) hcore
  have hconfig := of_core config (fun _ => rfl) hcore
  obtain ⟨block, hblock⟩ := PendingBlock.exists_start s.nextNumber s.lastClosedHash round time
    s.config.version startState
  have hopen : PendingBlock.start (s.startStateFor round).2.nextNumber
      (s.startStateFor round).2.lastClosedHash round time (s.startStateFor round).2.config.version
      startState = .ok block := by
    rw [hnumber, hlast, hconfig, hblock]
  rw [StreamCall.andThen_of_ok hs]
  simp only [hopen]
  exact ⟨trivial, startState, block, hblock, congrArg (withBlock · block) hcore⟩

theorem joinRound_cases (s : StreamState) (round : UInt64) (time : Timestamp) :
    (∃ limit, (s.joinRound round time).1 = .error (.exceeded limit)) ∨
      (s.joinRound round time).1 = .ok () ∧
        ∃ block, (s.joinRound round time).2.core = s.core.withBlock block ∧
          ((∃ before, s.pending = some before ∧ block = before.beginRound round time) ∨
            s.pending = none ∧ ∃ startState,
              PendingBlock.start s.nextNumber s.lastClosedHash round time s.config.version startState =
                .ok block) := by
  unfold joinRound
  split
  · rename_i before hpending
    exact .inr ⟨rfl, _, rfl, .inl ⟨before, hpending, rfl⟩⟩
  · rename_i hpending
    rcases s.openBlock_cases round time with hl | ⟨hok, startState, block, hblock, hcore⟩
    · exact .inl hl
    · exact .inr ⟨hok, block, hcore, .inr ⟨hpending, startState, hblock⟩⟩

/-- How the start of a round ends: it exceeds a limit, it is refused and has no effect, or the round is
open. -/
theorem startRound_cases (s : StreamState) (round : UInt64) (time : Timestamp) :
    (∃ limit, (s.startRound round time).1 = .error (.exceeded limit)) ∨
      (∃ e, s.startRound round time = (refuse e, s)) ∨
      (s.startRound round time).1 = .ok () ∧ s.halted = none ∧ s.phase = .awaitingRound ∧
        StartsRound s round time (s.startRound round time).2.core := by
  unfold startRound
  split
  · exact .inr (.inl ⟨_, rfl⟩)
  · exact .inr (.inl ⟨_, rfl⟩)
  rename_i hhalted hphase
  split
  · rename_i e he
    cases e with
    | refused e => exact .inr (.inl ⟨e, rfl⟩)
    | exceeded limit => exact .inl ⟨limit, rfl⟩
  rcases s.bootstrap_cases with ⟨limit, hl⟩ | hrefused | ⟨hok, hb⟩
  · exact .inl ⟨limit, by rw [StreamCall.andThen_of_error hl]⟩
  · exact .inr (.inl ⟨_, by rw [hrefused]; rfl⟩)
  have hpending : s.bootstrap.2.pending = s.pending := hb.pending_eq
  rw [StreamCall.andThen_of_ok hok]
  rcases s.bootstrap.2.joinRound_cases round time with ⟨limit, hl⟩ | ⟨hok, block, hcore, hblock⟩
  · exact .inl ⟨limit, by rw [StreamCall.andThen_of_error hl]⟩
  rw [StreamCall.andThen_of_ok hok]
  rcases pruneSlots_cases
    { (s.bootstrap.2.joinRound round time).2 with
      lastRound := some round, phase := .roundOpen round time
      metrics := (s.bootstrap.2.joinRound round time).2.metrics.countRound } round with ⟨limit, hl⟩ | hok
  · exact .inl ⟨limit, hl⟩
  refine .inr (.inr ⟨hok, hhalted, hphase, ?_⟩)
  have hround : StreamState.core
      { (s.bootstrap.2.joinRound round time).2 with
        lastRound := some round, phase := .roundOpen round time
        metrics := (s.bootstrap.2.joinRound round time).2.metrics.countRound } =
      (s.bootstrap.2.core.withBlock block).inRound round time :=
    congrArg (inRound · round time) hcore
  rw [core_pruneSlots, hround]
  rcases hblock with ⟨before, hbefore, rfl⟩ | ⟨hnone, startState, hstart⟩
  · exact .joined hb (hpending ▸ hbefore)
  · exact .opened hb (hpending ▸ hnone) hstart

/-! ### Items -/

theorem writeItem_cases (s : StreamState) (item : Item) :
    (∃ e, s.writeItem item = (refuse e, s)) ∨
      (s.writeItem item).1 = .ok () ∧ s.phase ≠ .awaitingRound ∧
        ∃ block extended, s.pending = some block ∧ block.append item = .ok extended ∧
          (s.writeItem item).2.core = s.core.withBlock extended := by
  unfold writeItem
  split
  · exact .inl ⟨_, rfl⟩
  · exact .inl ⟨_, rfl⟩
  · rename_i round time block hphase hpending
    split
    · exact .inl ⟨_, rfl⟩
    · rename_i extended happend
      exact .inr ⟨rfl, by rw [hphase]; nofun, block, extended, hpending, happend, rfl⟩

/-! ### The end of a round -/

/-- The stream after a round in which no block closed. -/
def afterRound (s : StreamState) : StreamState := { s with phase := .awaitingRound }

/-- The stream after a round, with its position put into ledger state. -/
def published (s : StreamState) : StreamState := { s.afterRound with ledger := some s.chain }

/-- The stream after a round that ended the open block. -/
def ended (s : StreamState) (time : Timestamp) : StreamState :=
  { s.published with pending := none, boundary := ⟨.idle, none, some time⟩ }

/-- The stream with a chain that has grown by a block. -/
def grown (s : StreamState) (closed : ClosedBlock) (next : UInt64) : StreamState :=
  { s with
    lastClosedHash := closed.hash, nextNumber := next, chain := s.chainWith closed
    ledger := some (s.chainWith closed) }

/-- The stream with a closed block handed on, if it still takes blocks. -/
def handedOver (s : StreamState) (closed : ClosedBlock) : StreamState :=
  { s with backlog := if s.accepting then s.backlog ++ [closed] else s.backlog }

/-- The stream after a round in which a block closed. -/
def extended (s : StreamState) (closed : ClosedBlock) (next : UInt64) : StreamState :=
  ((s.ended closed.endTime).grown closed next).handedOver closed

/-- How the end of a round ends, apart from limits: the answer, the core of the stream that it leads to,
and what was made. -/
inductive EndsRound (s : StreamState) (round : UInt64) :
    Checked StreamError Unit → StreamState → Made → Prop where
  /-- No such round is open. -/
  | refused {e : StreamError} : e.outOfTurn = true → EndsRound s round (refuse e) s.core {}
  /-- The block stays open. -/
  | kept {time : Timestamp} : s.phase = .roundOpen round time → s.pending.isSome →
      s.closing? round = none → EndsRound s round (.ok ()) s.core.afterRound {}
  /-- There is no block. -/
  | empty {time : Timestamp} {e : StreamError} : s.phase = .roundOpen round time → s.pending = none →
      e.outOfTurn = false → EndsRound s round (refuse e) s.core.afterRound {}
  /-- A boundary that was begun by hand is in the way. -/
  | blocked {block : PendingBlock} {time : Timestamp} {e : StreamError} :
      s.closing? round = some (block, time) → s.boundary.phase ≠ .idle → e.outOfTurn = false →
      EndsRound s round (refuse e) s.core.published { positions := [s.chain] }
  /-- A boundary batch is too long, and the block is lost. -/
  | lost {block : PendingBlock} {time : Timestamp} {e : StreamError} :
      s.closing? round = some (block, time) → s.boundary.phase = .idle →
      block.sealed time (s.capturedAt time) (s.positionAt time) = .error e → e.outOfTurn = false →
      EndsRound s round (refuse e) (s.core.ended time)
        ⟨[], [s.capturedAt time, s.positionAt time], [s.chain]⟩
  /-- The block closes. -/
  | closed {block : PendingBlock} {time : Timestamp} {closed : ClosedBlock} {next : UInt64} :
      s.closing? round = some (block, time) → s.boundary.phase = .idle →
      block.sealed time (s.capturedAt time) (s.positionAt time) = .ok closed →
      nextWord (ε := StreamError) closed.number = .ok next →
      EndsRound s round (if s.accepting then .ok () else refuse .pipelineClosed)
        (s.core.extended closed next)
        ⟨[closed], [s.capturedAt time, s.positionAt time], [s.chain, s.chainWith closed]⟩

theorem closing?_eq_some_iff {s : StreamState} {round : UInt64} {block : PendingBlock}
    {time : Timestamp} :
    s.closing? round = some (block, time) ↔
      s.phase = .roundOpen round time ∧ s.pending = some block ∧ s.policy block s.config = true := by
  unfold closing?
  split
  · rename_i opened time' block' hphase hpending
    rw [hphase, hpending]
    constructor
    · intro h
      split at h
      · rename_i hcond
        cases h
        exact ⟨by rw [hcond.1], rfl, hcond.2⟩
      · cases h
    · rintro ⟨hp, hb, hpolicy⟩
      cases hp
      cases hb
      rw [if_pos ⟨rfl, hpolicy⟩]
  · rename_i hnone
    constructor
    · nofun
    · rintro ⟨hp, hb, -⟩
      exact absurd hb (hnone _ _ _ hp)

theorem made_of_closing?_eq_none {s : StreamState} {round : UInt64} (h : s.closing? round = none) :
    s.made (.endRound round) = {} := by
  simp only [made, h]

theorem closeBlock_of_blocked {s : StreamState} {block : PendingBlock} {time : Timestamp}
    (h : s.boundary.phase ≠ .idle) :
    s.afterRound.closeBlock block time = (refuse s.boundary.violation, s.published) := by
  have hbegin : s.boundary.beginBoundary time = .error s.boundary.violation := by
    unfold BoundaryAccumulator.beginBoundary
    cases hphase : s.boundary.phase with
    | idle => exact absurd hphase h
    | awaitingLedger => rfl
    | awaitingSingleton => rfl
  simp only [closeBlock, afterRound, hbegin]
  rfl

theorem closeBlock_of_idle {s : StreamState} {block : PendingBlock} {time : Timestamp}
    (h : s.boundary.phase = .idle) :
    s.afterRound.closeBlock block time =
      sealBlock { s.published with boundary := ⟨.idle, none, some time⟩ } block time
        (s.capturedAt time) (s.positionAt time) := by
  have hbegin : s.boundary.beginBoundary time =
      .ok { s.boundary with phase := .awaitingLedger, time := some time } := by
    simp only [BoundaryAccumulator.beginBoundary, h]
  simp only [closeBlock, afterRound, hbegin]
  rfl

theorem sealBlock_of_ok {s : StreamState} {block : PendingBlock} {time : Timestamp}
    {captured position : ChangeBatch} {closed : ClosedBlock}
    (h : block.sealed time captured position = .ok closed) :
    s.sealBlock block time captured position =
      extendChain { s with pending := none, metrics := s.metrics.countItem.countItem } closed := by
  obtain ⟨first, h₁, h⟩ := bind_eq_ok_iff.mp h
  obtain ⟨second, h₂, h⟩ := bind_eq_ok_iff.mp h
  cases h
  have hended : (do (← block.append (.stateChanges captured)).append (.stateChanges position)) =
      Except.ok second := bind_eq_ok_iff.mpr ⟨first, h₁, h₂⟩
  simp only [sealBlock, hended]

theorem sealBlock_of_error {s : StreamState} {block : PendingBlock} {time : Timestamp}
    {captured position : ChangeBatch} {e : StreamError}
    (h : block.sealed time captured position = .error e) :
    s.sealBlock block time captured position = (refuse e, { s with pending := none }) := by
  have hended : (do (← block.append (.stateChanges captured)).append (.stateChanges position)) =
      Except.error e := by
    rcases bind_eq_error_iff.mp h with h₁ | ⟨first, h₁, h⟩
    · exact bind_eq_error_iff.mpr (.inl h₁)
    rcases bind_eq_error_iff.mp h with h₂ | ⟨second, -, h⟩
    · exact bind_eq_error_iff.mpr (.inr ⟨first, h₁, h₂⟩)
    · cases h
  simp only [sealBlock, hended]

theorem handOver_eq (s : StreamState) (closed : ClosedBlock) :
    (s.handOver closed).1 = (if s.accepting then .ok () else refuse .pipelineClosed) ∧
      (s.handOver closed).2.core = s.core.handedOver closed := by
  by_cases h : s.accepting = true
  · have hover : s.handOver closed =
        (.ok (), must { s with backlog := s.backlog ++ [closed] } .takeUp) := if_pos h
    have hcore : s.core.handedOver closed = { s.core with backlog := s.backlog ++ [closed] } := by
      unfold handedOver
      rw [if_pos (show s.core.accepting = true from h)]
      rfl
    rw [hover, if_pos h, hcore]
    exact ⟨rfl, core_must _ _⟩
  · have hover : s.handOver closed = (refuse .pipelineClosed, s) := if_neg h
    have hcore : s.core.handedOver closed = s.core := by
      unfold handedOver
      rw [if_neg (show ¬s.core.accepting = true from h)]
    rw [hover, if_neg h, hcore]
    exact ⟨rfl, rfl⟩

theorem extendChain_cases (s : StreamState) (closed : ClosedBlock) :
    (∃ limit, (s.extendChain closed).1 = .error (.exceeded limit)) ∨
      ∃ next, nextWord (ε := StreamError) closed.number = .ok next ∧
        (s.extendChain closed).1 = (if s.accepting then .ok () else refuse .pipelineClosed) ∧
        (s.extendChain closed).2.core = (s.core.grown closed next).handedOver closed := by
  unfold extendChain
  simp only
  cases hn : nextWord (ε := StreamError) closed.number with
  | error e =>
    obtain ⟨limit, rfl⟩ := nextWord_eq_error hn
    exact .inl ⟨limit, rfl⟩
  | ok next =>
    exact .inr ⟨next, rfl, handOver_eq _ closed⟩

theorem endRound_of_open {s : StreamState} {round : UInt64} {time : Timestamp}
    (h : s.phase = .roundOpen round time) : s.endRound round = s.afterRound.closeAtBoundary time := by
  simp only [endRound, h, ne_eq, not_true, if_false]
  rfl

theorem endRound_of_closing {s : StreamState} {round : UInt64} {block : PendingBlock} {time : Timestamp}
    (h : s.closing? round = some (block, time)) :
    s.endRound round = s.afterRound.closeBlock block time := by
  obtain ⟨hphase, hpending, hpolicy⟩ := closing?_eq_some_iff.mp h
  have hafter : s.afterRound.pending = some block := hpending
  have hcloses : s.afterRound.policy block s.afterRound.config = true := hpolicy
  rw [endRound_of_open hphase]
  simp only [closeAtBoundary, hafter, hcloses, if_true]

/-- The end of a round in which no block closes. -/
theorem endsRound_of_not_closing {s : StreamState} {round : UInt64} (h : s.closing? round = none) :
    EndsRound s round (s.endRound round).1 (s.endRound round).2.core (s.made (.endRound round)) := by
  rw [made_of_closing?_eq_none h]
  cases hphase : s.phase with
  | awaitingRound =>
    have hend : s.endRound round = (refuse (s.violation "end_round"), s) := by
      simp only [endRound, hphase]
    rw [hend]
    exact .refused rfl
  | roundOpen opened time =>
    by_cases hround : opened = round
    · subst hround
      rw [endRound_of_open hphase]
      cases hpending : s.pending with
      | none =>
        have hafter : s.afterRound.pending = none := hpending
        simp only [closeAtBoundary, hafter]
        exact .empty hphase hpending rfl
      | some block =>
        have hafter : s.afterRound.pending = some block := hpending
        have hstays : s.afterRound.policy block s.afterRound.config = false := by
          by_contra hcloses
          have := closing?_eq_some_iff.mpr ⟨hphase, hpending, (Bool.not_eq_false _).mp hcloses⟩
          rw [h] at this
          cases this
        simp only [closeAtBoundary, hafter, hstays, Bool.false_eq_true, if_false]
        exact .kept hphase (by rw [hpending]; rfl) h
    · have hend : s.endRound round = (refuse (.roundMismatch opened round), s) := by
        simp only [endRound, hphase, ne_eq, hround, not_false_eq_true, if_true]
      rw [hend]
      exact .refused rfl

/-- **How the end of a round ends**, and what it makes. -/
theorem endRound_cases (s : StreamState) (round : UInt64) :
    (∃ limit, (s.endRound round).1 = .error (.exceeded limit)) ∨
      EndsRound s round (s.endRound round).1 (s.endRound round).2.core (s.made (.endRound round)) := by
  cases hclosing : s.closing? round with
  | none => exact .inr (endsRound_of_not_closing hclosing)
  | some closing =>
    obtain ⟨block, time⟩ := closing
    rw [endRound_of_closing hclosing]
    by_cases hidle : s.boundary.phase = .idle
    · rw [closeBlock_of_idle hidle]
      cases hsealed : block.sealed time (s.capturedAt time) (s.positionAt time) with
      | error e =>
        rw [sealBlock_of_error hsealed]
        simp only [made, hclosing, if_pos hidle, hsealed]
        obtain ⟨text, rfl⟩ := PendingBlock.sealed_eq_error hsealed
        exact .inr (.lost hclosing hidle hsealed rfl)
      | ok closed =>
        have htime : closed.endTime = time := (PendingBlock.sealed_eq_ok hsealed).endTime
        rw [sealBlock_of_ok hsealed]
        rcases extendChain_cases
          { s.published with
            pending := none, boundary := ⟨.idle, none, some time⟩
            metrics := s.published.metrics.countItem.countItem } closed with
          hl | ⟨next, hnext, hanswer, hcore⟩
        · exact .inl hl
        · right
          rw [hanswer, hcore]
          simp only [made, hclosing, if_pos hidle, hsealed]
          have := EndsRound.closed hclosing hidle hsealed hnext
          rw [extended, htime] at this
          exact this
    · rw [closeBlock_of_blocked hidle]
      simp only [made, hclosing, if_neg hidle]
      have hturn : s.boundary.violation.outOfTurn = false := rfl
      exact .inr (.blocked hclosing hidle hturn)

/-! ### The shared boundary -/

theorem beginBoundary_cases (s : StreamState) (time : Timestamp) :
    (∃ e, s.beginBoundary time = (refuse e, s)) ∨
      ∃ boundary, s.boundary.beginBoundary time = .ok boundary ∧
        s.beginBoundary time = (.ok (), { s with boundary }) := by
  unfold beginBoundary
  split
  · rename_i boundary h
    exact .inr ⟨boundary, h, rfl⟩
  · exact .inl ⟨_, rfl⟩

theorem flushBoundary_cases (s : StreamState) :
    (∃ e, s.flushBoundary = (refuse e, s)) ∨
      ∃ batch boundary, s.boundary.flush s.ledger = .ok (batch, boundary) ∧
        s.flushBoundary = (.ok batch, { s with boundary }) := by
  unfold flushBoundary
  split
  · rename_i batch boundary h
    exact .inr ⟨batch, boundary, h, rfl⟩
  · exact .inl ⟨_, rfl⟩

/-! ### Any call -/

/-- How a call ends, apart from limits: the answer, the core of the stream that it leads to, and what was
made. -/
inductive Takes (s : StreamState) :
    IntakeCall → Checked StreamError Unit → StreamState → Made → Prop where
  /-- The call is refused and has no effect. -/
  | refused {call : IntakeCall} {e : StreamError} : (∀ round, call ≠ .endRound round) →
      Takes s call (refuse e) s.core {}
  | anchored {hash : BlockHash} : s.started = false → s.anchor = none →
      Takes s (.initLastHash hash) (.ok ()) { s.core with anchor := some hash } {}
  | starts {round : UInt64} {time : Timestamp} {t : StreamState} : s.halted = none →
      s.phase = .awaitingRound → StartsRound s round time t → Takes s (.startRound round time) (.ok ()) t {}
  | appends {item : Item} {block extended : PendingBlock} : s.phase ≠ .awaitingRound →
      s.pending = some block → block.append item = .ok extended →
      Takes s (.writeItem item) (.ok ()) (s.core.withBlock extended) {}
  | notified {round : UInt64} {hash : BlockHash} : Takes s (.notify round hash) (.ok ()) s.core {}
  | ends {round : UInt64} {answer : Checked StreamError Unit} {t : StreamState} {made : Made} :
      EndsRound s round answer t made → Takes s (.endRound round) answer t made
  | captured {batch : ChangeBatch} :
      Takes s (.capture batch) (.ok ()) { s.core with boundary := s.boundary.capture batch } {}
  | begun {time : Timestamp} {boundary : BoundaryAccumulator} :
      s.boundary.beginBoundary time = .ok boundary →
      Takes s (.beginBoundary time) (.ok ()) { s.core with boundary } {}
  | flushed {batch : ChangeBatch} {boundary : BoundaryAccumulator} :
      s.boundary.flush s.ledger = .ok (batch, boundary) →
      Takes s .flushBoundary (.ok ()) { s.core with boundary } {}

/-- **What every call does.** -/
theorem take_cases (s : StreamState) (call : IntakeCall) :
    (∃ limit, (s.take call).1 = .error (.exceeded limit)) ∨
      Takes s call (s.take call).1 (s.take call).2.core (s.made call) := by
  cases call with
  | initLastHash hash =>
    rcases s.initLastHash_cases hash with h | ⟨hstarted, hanchor, h⟩
    · rw [take, h]
      exact .inr (.refused nofun)
    · rw [take, h]
      exact .inr (.anchored hstarted hanchor)
  | startRound round time =>
    rcases s.startRound_cases round time with hl | ⟨e, h⟩ | ⟨hok, hhalted, hphase, hstarts⟩
    · exact .inl hl
    · rw [take, h]
      exact .inr (.refused nofun)
    · rw [take, hok]
      exact .inr (.starts hhalted hphase hstarts)
  | writeItem item =>
    rcases s.writeItem_cases item with ⟨e, h⟩ | ⟨hok, hphase, block, extended, hpending, happend, hcore⟩
    · rw [take, h]
      exact .inr (.refused nofun)
    · rw [take, hok, hcore]
      exact .inr (.appends hphase hpending happend)
  | notify round hash =>
    rw [take, core_notify]
    exact .inr .notified
  | endRound round => exact (s.endRound_cases round).imp_right .ends
  | capture batch => exact .inr .captured
  | beginBoundary time =>
    rcases s.beginBoundary_cases time with ⟨e, h⟩ | ⟨boundary, hbegin, h⟩
    · rw [take, h]
      exact .inr (.refused nofun)
    · rw [take, h]
      exact .inr (.begun hbegin)
  | flushBoundary =>
    rcases s.flushBoundary_cases with ⟨e, h⟩ | ⟨batch, boundary, hflush, h⟩
    · rw [take, h]
      exact .inr (.refused nofun)
    · rw [take, h]
      exact .inr (.flushed hflush)

/-! ### The end of intake -/

theorem plain_stopIntake (s : StreamState) :
    s.stopIntake.plain = { s.plain with pending := none, phase := .awaitingRound } := by
  simp only [stopIntake, forgetNotified]
  split
  · rw [plain_informed]
    rfl
  · rfl

theorem core_stopIntake (s : StreamState) :
    s.stopIntake.core = { s.core with pending := none, phase := .awaitingRound } :=
  congrArg core s.plain_stopIntake

end StreamState

end RoundChain
