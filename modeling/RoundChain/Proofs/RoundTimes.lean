import RoundChain.Proofs.Conservation
import RoundChain.Proofs.NodeSessions
import RoundChain.Proofs.TimeShifts
import Mathlib.Order.WithBot

/-!
# The times of blocks

A source of rounds moves its clock on after each round, so rounds start at later and later
times. A block begins at the time of its first round and ends at that of its last one, so
the blocks of a session are one after the other in time as well, `Node.Starts.timed`.

## The model

A `Span` is the time from the first to the last round of a block; a round alone is a single
moment. `Forward since spans` says of spans that each is later than the one before, and
the first later than a time, or than nothing if that is `⊥`. Calls may be refused, so what a
block spans is bounded by the calls that were made and not by the rounds that started.
-/

namespace RoundChain

/-! ### Spans -/

/-- A span of time. -/
structure Span where
  first : Timestamp
  last : Timestamp
  ordered : first ≤ last

/-- A single moment. -/
def Span.moment (time : Timestamp) : Span := ⟨time, time, le_rfl⟩

/-- Spans one after the other, the first of them later than a time. -/
def Forward : WithBot Timestamp → List Span → Prop
  | _, [] => True
  | since, span :: rest => since < span.first ∧ Forward span.last rest

/-- The end of the last span, or else the time that the first had to be later than. -/
def lastTime : WithBot Timestamp → List Span → WithBot Timestamp
  | since, [] => since
  | _, span :: rest => lastTime span.last rest

section

variable {since earlier : WithBot Timestamp} {spans later : List Span} {span : Span}

@[simp] theorem lastTime_concat : lastTime since (spans ++ [span]) = span.last := by
  induction spans generalizing since with
  | nil => rfl
  | cons _ _ ih => exact ih

theorem lastTime_append : lastTime since (spans ++ later) = lastTime (lastTime since spans) later := by
  induction spans generalizing since with
  | nil => rfl
  | cons _ _ ih => exact ih

theorem forward_append_iff :
    Forward since (spans ++ later) ↔ Forward since spans ∧ Forward (lastTime since spans) later := by
  induction spans generalizing since with
  | nil => exact (and_iff_right trivial).symm
  | cons span rest ih =>
    rw [List.cons_append, Forward, ih]
    exact and_assoc.symm

theorem Forward.mono (h : Forward since spans) (hearlier : earlier ≤ since) : Forward earlier spans := by
  cases spans with
  | nil => trivial
  | cons _ _ => exact ⟨hearlier.trans_lt h.1, h.2⟩

theorem Forward.lt_last (h : Forward since (span :: later)) : since < span.last :=
  h.1.trans_le (WithBot.coe_le_coe.mpr span.ordered)

theorem Forward.le_lastTime (h : Forward since spans) : since ≤ lastTime since spans := by
  induction spans generalizing since with
  | nil => exact le_rfl
  | cons _ _ ih => exact h.lt_last.le.trans (ih h.2)

theorem Forward.sublist (h : Forward since later) (hsub : spans.Sublist later) : Forward since spans := by
  induction hsub generalizing since with
  | slnil => trivial
  | cons _ _ ih => exact ih (h.2.mono h.lt_last.le)
  | cons_cons _ _ ih => exact ⟨h.1, ih h.2⟩

/-- The next span begins later than the one before ends. -/
theorem Forward.last_lt_first (h : Forward since spans) {i : Nat} {next : Span} (hspan : spans[i]? = some span)
    (hnext : spans[i + 1]? = some next) : span.last < next.first := by
  induction spans generalizing since i with
  | nil => cases hspan
  | cons first rest ih =>
    cases i with
    | succ i => exact ih h.2 hspan hnext
    | zero =>
      cases rest with
      | nil => cases hnext
      | cons second _ =>
        cases hspan
        cases hnext
        exact WithBot.coe_lt_coe.mp h.2.1

end

/-! ### Rounds -/

/-- The time at which a call starts a round. -/
def IntakeCall.time? : IntakeCall → Option Timestamp
  | .startRound _ time => some time
  | _ => none

/-- The moments at which calls start rounds. -/
def moments (calls : List IntakeCall) : List Span := (calls.filterMap IntakeCall.time?).map .moment

theorem moments_append (calls more : List IntakeCall) : moments (calls ++ more) = moments calls ++ moments more := by
  rw [moments, List.filterMap_append, List.map_append]
  rfl

theorem moments_sublist {calls more : List IntakeCall} (h : calls.Sublist more) :
    (moments calls).Sublist (moments more) := (h.filterMap _).map _

theorem moments_eq_nil {calls : List IntakeCall} (h : ∀ call ∈ calls, call.time? = none) : moments calls = [] := by
  rw [moments, List.filterMap_eq_nil_iff.mpr h]
  rfl

namespace RoundSource

variable {d : RoundSource}

theorem moments_roundCalls : moments d.roundCalls = [.moment d.clock] := by
  have hrest : moments ((d.roundItems d.nextRound).map .writeItem ++
      [.capture (roundChanges d.nextRound d.clock), .endRound d.nextRound,
        .notify d.nextRound (stateHash d.nextRound)]) = [] := by
    refine moments_eq_nil fun call hcall => ?_
    rcases List.mem_append.mp hcall with hcall | hcall
    · obtain ⟨item, -, rfl⟩ := List.mem_map.mp hcall
      rfl
    · simp only [List.mem_cons, List.not_mem_nil, or_false] at hcall
      rcases hcall with rfl | rfl | rfl <;> rfl
  exact congrArg (.moment d.clock :: ·) hrest

/-- **Rounds start at later and later times.** -/
theorem forward_script {since : WithBot Timestamp} (hinterval : d.config.intervalMs ≠ 0) (hsince : since < d.clock)
    (rounds : Nat) : Forward since (moments (d.script rounds)) := by
  induction rounds generalizing d since with
  | zero => trivial
  | succ rounds ih =>
    rw [script]
    split
    · trivial
    split
    · rename_i hadvance
      obtain ⟨hconfig, -, hclock⟩ := advance_eq_ok hadvance
      rw [moments_append, moments_roundCalls]
      exact ⟨hsince, ih (hconfig ▸ hinterval)
        (WithBot.coe_lt_coe.mpr (Timestamp.lt_plusMillis hinterval hclock))⟩
    · rw [moments_roundCalls]
      exact ⟨hsince, trivial⟩

end RoundSource

/-! ### Blocks -/

/-- The block begins with a header of the first time, and ends with a batch of the last one. -/
def ClosedBlock.Spans (block : ClosedBlock) (span : Span) : Prop :=
  ∃ header middle position, header.time = span.first ∧ position.time = span.last ∧
    block.items = (Item.blockHeader header).encode :: (middle ++ [(Item.stateChanges position).encode])

theorem PendingBlock.firstTime_of_start {number : UInt64} {previous : BlockHash} {round : UInt64} {time : Timestamp}
    {version : SoftwareVersion} {startState : StartState} {block : PendingBlock}
    (h : start number previous round time version startState = .ok block) : block.firstTime = time := by
  obtain ⟨-, hpush⟩ := append_eq_ok_iff.mp h
  obtain ⟨framed, -, rfl⟩ := push_eq_ok_iff.mp hpush
  rfl

theorem PendingBlock.Headed.spans {version : SoftwareVersion} {block : PendingBlock} (h : block.Headed version)
    {captured position : ChangeBatch} {time : Timestamp} {closed : ClosedBlock}
    (hsealed : block.sealed time captured position = .ok closed) {span : Span} (hfirst : block.firstTime = span.first)
    (hlast : position.time = span.last) : closed.Spans span := by
  refine ⟨⟨block.number, version, block.firstRound, block.firstTime⟩,
    block.body ++ [(Item.stateChanges captured).encode], position, hfirst, hlast, ?_⟩
  rw [(PendingBlock.sealed_eq_ok hsealed).items, h]
  simp [header]

namespace StreamState

variable {s t : StreamState} {newest reached : WithBot Timestamp}

/-- Where a stream stands in time: its closed blocks go up to the newest time, and calls have started rounds up to
the one that is reached. -/
structure Stands (s : StreamState) (newest reached : WithBot Timestamp) : Prop where
  newest_le : newest ≤ reached
  headed : ∀ block, s.pending = some block → ∃ version, block.Headed version
  begun : ∀ block, s.pending = some block → newest < block.firstTime ∧ block.firstTime ≤ reached
  running : ∀ round time, s.phase = .roundOpen round time →
    time ≤ reached ∧ ∀ block, s.pending = some block → block.firstTime ≤ time

/-- A stream keeps standing where it does, however far calls go on. -/
theorem Stands.mono {further : WithBot Timestamp} (h : s.Stands newest reached) (hfurther : reached ≤ further) :
    s.Stands newest further where
  newest_le := h.newest_le.trans hfurther
  headed := h.headed
  begun block hblock := (h.begun block hblock).imp_right (·.trans hfurther)
  running round time hphase := (h.running round time hphase).imp_left (·.trans hfurther)

theorem Stands.of_eq (h : s.Stands newest reached) (hpending : t.pending = s.pending) (hphase : t.phase = s.phase) :
    t.Stands newest reached := by
  refine ⟨h.newest_le, ?_, ?_, ?_⟩ <;> rw [hpending]
  · exact h.headed
  · exact h.begun
  · rw [hphase]
    exact h.running

/-- Between rounds, the open block is all that counts. -/
theorem Stands.between (h : s.Stands newest reached) (hpending : t.pending = s.pending)
    (hphase : t.phase = .awaitingRound) : t.Stands newest reached := by
  refine ⟨h.newest_le, ?_, ?_, fun round time hopen => ?_⟩
  · rw [hpending]
    exact h.headed
  · rw [hpending]
    exact h.begun
  · rw [hphase] at hopen
    cases hopen

theorem stands_empty (hle : newest ≤ reached) (hpending : s.pending = none) (hphase : s.phase = .awaitingRound) :
    s.Stands newest reached := by
  refine ⟨hle, ?_, ?_, fun round time hopen => ?_⟩
  · rw [hpending]
    nofun
  · rw [hpending]
    nofun
  · rw [hphase] at hopen
    cases hopen

/-- A round that starts later than all before is in the open block, or in a new one that begins with it. -/
theorem StartsRound.stands {round : UInt64} {time : Timestamp} (ht : StartsRound s round time t)
    (h : s.Stands newest reached) (hlater : reached < time) : t.Stands newest time := by
  have hnewest := h.newest_le.trans_lt hlater
  cases ht with
  | @joined b block _ hblock =>
    obtain ⟨version, hheaded⟩ := h.headed block hblock
    obtain ⟨hbegun, hreached⟩ := h.begun block hblock
    have hfirst := hreached.trans hlater.le
    refine ⟨hnewest.le, ?_, ?_, ?_⟩
    · rintro _ ⟨⟩
      exact ⟨version, hheaded⟩
    · rintro _ ⟨⟩
      exact ⟨hbegun, hfirst⟩
    · rintro _ _ ⟨⟩
      refine ⟨le_rfl, ?_⟩
      rintro _ ⟨⟩
      exact WithBot.coe_le_coe.mp hfirst
  | @opened b startState block _ _ hstart =>
    obtain ⟨hheaded, -⟩ := PendingBlock.headed_of_start hstart
    have hfirst : block.firstTime = time := PendingBlock.firstTime_of_start hstart
    refine ⟨hnewest.le, ?_, ?_, ?_⟩
    · rintro _ ⟨⟩
      exact ⟨_, hheaded⟩
    · rintro _ ⟨⟩
      rw [hfirst]
      exact ⟨hnewest, le_rfl⟩
    · rintro _ _ ⟨⟩
      refine ⟨le_rfl, ?_⟩
      rintro _ ⟨⟩
      exact hfirst.le

/-- A round that ends leaves the open block, or closes it with the span up to this round. -/
theorem EndsRound.stands {round : UInt64} {answer : Checked StreamError Unit} {more : Made}
    (ht : EndsRound s round answer t more) (h : s.Stands newest reached) :
    ∃ spans, List.Forall₂ ClosedBlock.Spans more.closed spans ∧ Forward newest spans ∧
      t.Stands (lastTime newest spans) reached := by
  cases ht with
  | refused _ => exact ⟨[], .nil, trivial, h.of_eq rfl rfl⟩
  | kept _ _ _ => exact ⟨[], .nil, trivial, h.between rfl rfl⟩
  | empty _ _ _ => exact ⟨[], .nil, trivial, h.between rfl rfl⟩
  | blocked _ _ _ => exact ⟨[], .nil, trivial, h.between rfl rfl⟩
  | lost _ _ _ _ => exact ⟨[], .nil, trivial, stands_empty h.newest_le rfl rfl⟩
  | @closed block time closed _ hclosing _ hsealed _ =>
    obtain ⟨hphase, hpending, -⟩ := closing?_eq_some_iff.mp hclosing
    obtain ⟨version, hheaded⟩ := h.headed block hpending
    obtain ⟨hreached, hfirst⟩ := h.running round time hphase
    have hspan : closed.Spans ⟨block.firstTime, time, hfirst block hpending⟩ := hheaded.spans hsealed rfl rfl
    exact ⟨[_], .cons hspan .nil, ⟨(h.begun block hpending).1, trivial⟩, stands_empty hreached rfl rfl⟩

/-- **Every call keeps blocks one after the other**, as long as calls start rounds at later and later times. -/
theorem Takes.stands {call : IntakeCall} {answer : Checked StreamError Unit} {more : Made}
    (ht : Takes s call answer t more) (h : s.Stands newest reached) (hlater : Forward reached (moments [call])) :
    ∃ spans, List.Forall₂ ClosedBlock.Spans more.closed spans ∧ Forward newest spans ∧
      t.Stands (lastTime newest spans) (lastTime reached (moments [call])) := by
  cases ht with
  | refused _ =>
    have hkept : s.core.Stands newest reached := h.of_eq rfl rfl
    exact ⟨[], .nil, trivial, hkept.mono hlater.le_lastTime⟩
  | starts _ _ hround => exact ⟨[], .nil, trivial, hround.stands h hlater.1⟩
  | @appends _ block _ _ hblock happend =>
    obtain ⟨version, hheaded⟩ := h.headed block hblock
    obtain ⟨framed, -, rfl⟩ := PendingBlock.push_eq_ok_iff.mp (PendingBlock.append_eq_ok_iff.mp happend).2
    refine ⟨[], .nil, trivial, h.newest_le, ?_, ?_, fun round time hphase => ?_⟩
    · rintro _ ⟨⟩
      exact ⟨version, (hheaded.append happend).1⟩
    · rintro _ ⟨⟩
      exact h.begun block hblock
    · obtain ⟨hreached, hfirst⟩ := h.running round time hphase
      refine ⟨hreached, ?_⟩
      rintro _ ⟨⟩
      exact hfirst block hblock
  | ends hround => exact hround.stands h
  | _ => exact ⟨[], .nil, trivial, h.of_eq rfl rfl⟩

end StreamState

/-! ### Sessions -/

namespace Course

variable {σ ω : Type} {signer : Signer σ} {writer : Writer ω} {c d : Course σ ω} {since : WithBot Timestamp}

/-- The moments at which calls of a session were to start rounds. -/
def moments (c : Course σ ω) : List Span := RoundChain.moments (c.calls.map Prod.fst)

/-- The blocks of a session are one after the other in time. -/
def Timed (since : WithBot Timestamp) (c : Course σ ω) : Prop :=
  ∃ spans, List.Forall₂ ClosedBlock.Spans c.made.closed spans ∧ Forward since spans ∧
    c.stream.Stands (lastTime since spans) (lastTime since c.moments)

theorem Timed.moves (h : c.Timed since) (hd : c.Moves d) (hlater : Forward since d.moments) : d.Timed since := by
  obtain ⟨spans, hspans, hforward, hstands⟩ := h
  cases hd with
  | stays => exact ⟨spans, hspans, hforward, hstands⟩
  | @takes call _ ht =>
    have hmoments : RoundChain.moments ((c.calls ++ [(call, (c.stream.take call).1)]).map Prod.fst) =
        c.moments ++ RoundChain.moments [call] := by
      rw [List.map_append, moments_append]
      rfl
    have hcall : Forward (lastTime since c.moments) (RoundChain.moments [call]) :=
      (forward_append_iff.mp (hmoments ▸ hlater)).2
    obtain ⟨more, hmore, hfollow, hafter⟩ := ht.stands hstands hcall
    refine ⟨spans ++ more, List.rel_append hspans hmore, forward_append_iff.mpr ⟨hforward, hfollow⟩, ?_⟩
    rw [lastTime_append]
    refine StreamState.Stands.of_eq ?_ rfl rfl (s := (c.stream.take call).2.core)
    rw [Course.moments, hmoments, lastTime_append]
    exact hafter
  | stops _ =>
    have hcore := c.stream.core_stopIntake
    have hpending : c.stream.stopIntake.core.pending = none := by rw [hcore]
    have hphase : c.stream.stopIntake.core.phase = .awaitingRound := by rw [hcore]
    exact ⟨spans, hspans, hforward, StreamState.stands_empty hstands.newest_le hpending hphase⟩
  | aside hintake =>
    have hpending := congrArg (·.pending) hintake
    have hphase := congrArg (·.phase) hintake
    exact ⟨spans, hspans, hforward, hstands.of_eq hpending hphase⟩

/-- Calls that start rounds at later and later times close blocks one after the other. -/
theorem timed_run (h : c.Timed since) {hs : List (Happening σ ω)} (hlimits : (c.run signer writer hs).WithinLimits)
    (hlater : Forward since (c.run signer writer hs).moments) : (c.run signer writer hs).Timed since :=
  run_induction signer writer (P := fun d => Forward since d.moments → d.Timed since)
    (fun d happening hd hl hlater =>
      have hmoves := d.moves_step happening hl
      have hbefore := hlater.sublist (moments_sublist ((d.calls_step happening).sublist.map Prod.fst))
      (hd hbefore).moves hmoves hlater)
    (fun _ => h) hlimits hlater

end Course

namespace Node

variable [Compression] [Bls12381.Library]
variable {config : NodeConfig} {dir : Directory} {node : Node} {recovered : Option StreamInfo}

/-- **The blocks of a session are one after the other in time**, from the time on at which its source begins. -/
theorem Starts.timed (h : Starts config dir node recovered) {hs : List (Happening SchemeSigner FileStore)}
    (hlimits : (node.course hs).WithinLimits) {rounds : Nat} (hcalls : Course.callsOf hs <+: node.source.script rounds)
    (hinterval : node.source.config.intervalMs ≠ 0) {since : WithBot Timestamp} (hsince : since < node.source.clock) :
    ∃ spans, List.Forall₂ ClosedBlock.Spans (node.course hs).made.closed spans ∧ Forward since spans := by
  obtain ⟨start, hstream⟩ := h.stream
  have hbegun : node.begun.moments = [] := by
    refine moments_eq_nil fun call hcall => ?_
    obtain ⟨entry, hentry, rfl⟩ := List.mem_map.mp hcall
    obtain ⟨hash, -, rfl⟩ := List.mem_map.mp hentry
    rfl
  have hfirst : node.begun.Timed since := by
    have hempty : node.session.stream.pending = none ∧ node.session.stream.phase = .awaitingRound := by
      rw [hstream]
      exact ⟨rfl, rfl⟩
    refine ⟨[], .nil, trivial, StreamState.stands_empty ?_ hempty.1 hempty.2⟩
    rw [hbegun, lastTime]
  obtain ⟨later, hall, hlater⟩ := Course.calls_run_eq SchemeSigner.signer FileStore.writer node.begun hs
  have hscript := RoundSource.forward_script hinterval hsince rounds
  have hmoments : Forward since (node.course hs).moments := by
    refine hscript.sublist ?_
    rw [Course.moments, course, hall, List.map_append, moments_append]
    show (node.begun.moments ++ _).Sublist _
    rw [hbegun]
    exact moments_sublist (hlater.trans hcalls.sublist)
  obtain ⟨spans, hspans, hforward, -⟩ := Course.timed_run hfirst hlimits hmoments
  exact ⟨spans, hspans, hforward⟩

end Node

end RoundChain
