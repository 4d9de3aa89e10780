import RoundChain.Libraries
import RoundChain.Proofs.CallLogs
import RoundChain.Store.Memory

/-!
# When the numbers run out

Rounds, blocks and the slots of state hashes are counted in words, and a call that would
leave the range of a word stops the program. `Course.first_to_exceed` says which call is the
first to do so in a session whose own numbers are in range: a round that starts after a hash
was notified for the last word. Pruning counts one on from the round of every slot, also from
rounds that no session can reach.

## The model

Nothing that a refused call does is counted, so the theorem is about rounds that are not
refused. The rounds of an open block are counted in natural numbers here; while a session
is within limits, their count is in the range of a word as well.
-/

namespace RoundChain

variable {σ ω : Type}

namespace StreamState

variable {s t : StreamState}

/-! ### Calls that exceed a limit -/

theorem toNat_of_nextWord_error {n : UInt64} {e : Stop StreamError} (h : nextWord n = .error e) :
    n.toNat + 1 = UInt64.size := by
  obtain ⟨limit, rfl⟩ := nextWord_eq_error h
  cases limit with
  | word => exact nextWord_eq_exceeded_iff.mp h
  | places =>
    unfold nextWord at h
    split at h <;> cases h

/-- What has run out when a round cannot start: the numbers of rounds or blocks, or the slot of the last word is
in use. -/
inductive RunsOut (s : StreamState) : Prop where
  | rounds {previous : UInt64} : s.lastRound = some previous → previous.toNat + 1 = UInt64.size → RunsOut s
  | blocks {info : StreamInfo} {number : UInt64} : s.started = false → s.origin? = some info →
      info.lastNumber = some number → number.toNat + 1 = UInt64.size → RunsOut s
  | initial {round : UInt64} : s.initialRound = some round → round.toNat + 1 = UInt64.size → RunsOut s
  | slot : s.slots.find? lastWord ≠ none → RunsOut s

theorem checkSequence_exceeds {round : UInt64} {limit : Limit}
    (h : s.checkSequence round = .error (.exceeded limit)) : s.RunsOut := by
  unfold checkSequence at h
  split at h
  · cases h
  · rename_i previous hprevious
    rcases bind_eq_error_iff.mp h with hnext | ⟨next, -, hnext⟩
    · exact .rounds hprevious (toNat_of_nextWord_error hnext)
    · split at hnext <;> cases hnext

theorem bootstrap_exceeds {limit : Limit} (h : s.bootstrap.1 = .error (.exceeded limit)) : s.RunsOut := by
  unfold bootstrap at h
  split at h
  · cases h
  rename_i hstarted
  split at h
  · cases h
  rename_i info horigin
  simp only at h
  split at h
  · rename_i e hnext
    unfold StreamInfo.nextNumber at hnext
    split at hnext
    · cases hnext
    · rename_i number hnumber
      exact .blocks ((Bool.not_eq_true _).mp hstarted) horigin hnumber (toNat_of_nextWord_error hnext)
  · cases h

theorem joinRound_exceeds {round : UInt64} {time : Timestamp} {limit : Limit}
    (h : (s.joinRound round time).1 = .error (.exceeded limit)) :
    ∃ initial, s.initialRound = some initial ∧ initial.toNat + 1 = UInt64.size := by
  unfold joinRound at h
  split at h
  · cases h
  unfold openBlock at h
  rcases s.startStateFor_cases round with ⟨limit', hl⟩ | ⟨startState, hok⟩
  · unfold startStateFor at hl
    split at hl
    · cases hl
    rename_i initial hinitial
    simp only at hl
    split at hl
    · rename_i e hnext
      exact ⟨initial, hinitial, toNat_of_nextWord_error hnext⟩
    · split at hl <;> cases hl
  · rw [StreamCall.andThen_of_ok hok] at h
    split at h <;> cases h

/-- A round cannot start only if some number has run out. -/
theorem startRound_exceeds {round : UInt64} {time : Timestamp}
    (h : (s.startRound round time).1.exceeds = true) : s.RunsOut := by
  unfold startRound at h
  split at h
  · cases h
  · cases h
  split at h
  · rename_i e hsequence
    cases e with
    | refused e => cases h
    | exceeded limit => exact checkSequence_exceeds hsequence
  rcases s.bootstrap_cases with ⟨limit, hl⟩ | hrefused | ⟨hfound, -⟩
  · exact bootstrap_exceeds hl
  · rw [hrefused] at h
    cases h
  rw [StreamCall.andThen_of_ok hfound] at h
  rcases s.founded.joinRound_cases round time with ⟨limit, hl⟩ | ⟨hjoin, -⟩
  · obtain ⟨initial, hinitial, hlast⟩ := joinRound_exceeds hl
    exact .initial ((founded_spec hfound).1.initialRound ▸ hinitial) hlast
  have hjoin' := hjoin
  rw [founded] at hjoin'
  rw [StreamCall.andThen_of_ok hjoin'] at h
  unfold pruneSlots at h
  split at h
  · rename_i hfull
    refine .slot fun hnone => ?_
    have hfull' : ((s.roundBegun round time).slots.find? lastWord).isSome = true := hfull
    rw [roundBegun_slots_ahead hfound hjoin (le_lastWord round), hnone] at hfull'
    cases hfull'
  · cases h

theorem EndsRound.within {round : UInt64} {answer : Checked StreamError Unit} {more : Made}
    (ht : EndsRound s round answer t more) : answer.exceeds = false := by
  cases ht with
  | closed _ _ _ _ => split <;> rfl
  | _ => rfl

/-- A round cannot end only if it closes the block with the last number. -/
theorem endRound_exceeds {round : UInt64} (h : (s.endRound round).1.exceeds = true) :
    ∃ block time captured position closed, s.pending = some block ∧
      block.sealed time captured position = .ok closed ∧ (s.made (.endRound round)).closed = [closed] ∧
      closed.number.toNat + 1 = UInt64.size := by
  cases hclosing : s.closing? round with
  | none =>
    rw [(endsRound_of_not_closing hclosing).within] at h
    cases h
  | some closing =>
    obtain ⟨block, time⟩ := closing
    rw [endRound_of_closing hclosing] at h
    by_cases hidle : s.boundary.phase = .idle
    · rw [closeBlock_of_idle hidle] at h
      cases hsealed : block.sealed time (s.capturedAt time) (s.positionAt time) with
      | error e =>
        rw [sealBlock_of_error hsealed] at h
        cases h
      | ok closed =>
        refine ⟨block, time, _, _, closed, (closing?_eq_some_iff.mp hclosing).2.1, hsealed, ?_, ?_⟩
        · simp only [made, hclosing, if_pos hidle, hsealed]
        · rw [sealBlock_of_ok hsealed] at h
          unfold extendChain at h
          simp only at h
          split at h
          · rename_i e hnext
            exact toNat_of_nextWord_error hnext
          · rw [(handOver_eq _ _).1] at h
            split at h <;> cases h
    · rw [closeBlock_of_blocked hidle] at h
      cases h

/-- Only rounds that start or end are counted. -/
theorem take_exceeds {call : IntakeCall} (h : (s.take call).1.exceeds = true) :
    (∃ round time, call = .startRound round time) ∨ ∃ round, call = .endRound round := by
  cases call with
  | startRound round time => exact .inl ⟨round, time, rfl⟩
  | endRound round => exact .inr ⟨round, rfl⟩
  | initLastHash hash =>
    rcases s.initLastHash_cases hash with hcase | ⟨-, -, hcase⟩ <;> rw [take, hcase] at h <;> cases h
  | writeItem item =>
    rcases s.writeItem_cases item with ⟨e, hcase⟩ | ⟨hcase, -⟩ <;> rw [take, hcase] at h <;> cases h
  | notify round hash => cases h
  | capture batch => cases h
  | beginBoundary time =>
    rcases s.beginBoundary_cases time with ⟨e, hcase⟩ | ⟨boundary, -, hcase⟩ <;> rw [take, hcase] at h <;> cases h
  | flushBoundary =>
    rcases s.flushBoundary_cases with ⟨e, hcase⟩ | ⟨batch, boundary, -, hcase⟩ <;> rw [take, hcase] at h <;> cases h

end StreamState

namespace Course

variable {signer : Signer σ} {writer : Writer ω} {config : StreamConfig} {policy : BoundaryPolicy}
  {start : InitialState} {ledger : Option StreamInfo} {c : Course σ ω}

/-! ### Where a call stands in a run -/

/-- A step adds a call to the history, or nothing. -/
theorem calls_step_eq (signer : Signer σ) (writer : Writer ω) (c : Course σ ω) (happening : Happening σ ω) :
    (c.step signer writer happening).calls = c.calls ∨
      ∃ call, happening = .call call ∧ c.stopped = false ∧
        (c.step signer writer happening).calls = c.calls ++ [(call, (c.stream.take call).1)] := by
  cases happening with
  | call call =>
    rw [step]
    split
    · exact .inl rfl
    · rename_i hgoing
      exact .inr ⟨call, rfl, (Bool.not_eq_true _).mp hgoing, rfl⟩
  | stop =>
    rw [step]
    split <;> exact .inl rfl
  | _ => exact .inl rfl

/-- Every entry of the history is of a call that was made after a part of the run. -/
theorem call_of_entry {hs : List (Happening σ ω)} {before after : CallLog}
    {entry : IntakeCall × Checked StreamError Unit}
    (h : (c.run signer writer hs).calls = c.calls ++ before ++ entry :: after) :
    ∃ earlier later, hs = earlier ++ .call entry.1 :: later ∧
      (c.run signer writer earlier).calls = c.calls ++ before ∧ (c.run signer writer earlier).stopped = false ∧
      entry.2 = ((c.run signer writer earlier).stream.take entry.1).1 := by
  induction hs generalizing c before with
  | nil =>
    have hlength := congrArg List.length h
    simp only [run, List.foldl_nil, List.length_append, List.length_cons] at hlength
    omega
  | cons happening hs ih =>
    have hlater : ∀ before', ((c.step signer writer happening).run signer writer hs).calls =
        (c.step signer writer happening).calls ++ before' ++ entry :: after →
        c.calls ++ before = (c.step signer writer happening).calls ++ before' →
        ∃ earlier later, happening :: hs = earlier ++ .call entry.1 :: later ∧
          (c.run signer writer earlier).calls = c.calls ++ before ∧ (c.run signer writer earlier).stopped = false ∧
          entry.2 = ((c.run signer writer earlier).stream.take entry.1).1 := by
      intro before' hcalls hsame
      obtain ⟨earlier, later, rfl, hearlier, hgoing, hanswer⟩ := ih hcalls
      exact ⟨happening :: earlier, later, rfl, hearlier.trans hsame.symm, hgoing, hanswer⟩
    rcases calls_step_eq signer writer c happening with hsame | ⟨call, rfl, hgoing, hnew⟩
    · exact hlater before (hsame ▸ h) (by rw [hsame])
    · have hmore : (c.step signer writer (.call call)).calls <+: ((c.step signer writer (.call call)).run signer writer
          hs).calls := calls_run _ hs
      obtain ⟨rest, hrest⟩ := hmore
      have hall : [(call, (c.stream.take call).1)] ++ rest = before ++ entry :: after := by
        rw [hnew] at hrest
        have hsame : c.calls ++ ([(call, (c.stream.take call).1)] ++ rest) = c.calls ++ (before ++ entry :: after) := by
          rw [← List.append_assoc, ← List.append_assoc, hrest]
          exact h
        exact List.append_cancel_left hsame
      cases before with
      | nil =>
        cases hall
        exact ⟨[], hs, rfl, (List.append_nil _).symm, hgoing, rfl⟩
      | cons first before' =>
        obtain ⟨rfl, -⟩ := List.cons_eq_cons.mp hall
        refine hlater before' ?_ ?_
        · rw [hnew, List.append_assoc c.calls]
          exact h
        · rw [hnew, List.append_assoc]
          rfl

/-- Every entry of the history of a session is of a call that was made after a part of what happened. -/
theorem session_of_entry {σ₀ : σ} {ω₀ : ω} {hs : List (Happening σ ω)} {before after : CallLog}
    {call : IntakeCall} {answer : Checked StreamError Unit}
    (h : (ofSession signer writer config policy start ledger σ₀ ω₀ hs).calls = before ++ (call, answer) :: after) :
    ∃ earlier later, hs = earlier ++ .call call :: later ∧
      (ofSession signer writer config policy start ledger σ₀ ω₀ earlier).calls = before ∧
      (ofSession signer writer config policy start ledger σ₀ ω₀ earlier).stopped = false ∧
      answer = ((ofSession signer writer config policy start ledger σ₀ ω₀ earlier).stream.take call).1 :=
  call_of_entry (c := Course.start (.initial config policy start ledger) σ₀ ω₀) h

theorem made_step (signer : Signer σ) (writer : Writer ω) (c : Course σ ω) (happening : Happening σ ω) :
    ∃ more, (c.step signer writer happening).made = c.made.add more := by
  cases happening with
  | call call =>
    rw [step]
    split
    · exact ⟨{}, (Made.add_empty _).symm⟩
    · exact ⟨_, rfl⟩
  | stop =>
    rw [step]
    split <;> exact ⟨{}, (Made.add_empty _).symm⟩
  | _ => exact ⟨{}, (Made.add_empty _).symm⟩

/-- What was made stays, also the blocks that closed. -/
theorem made_run (signer : Signer σ) (writer : Writer ω) (c : Course σ ω) (hs : List (Happening σ ω)) :
    ∃ more, (c.run signer writer hs).made = c.made.add more := by
  induction hs generalizing c with
  | nil => exact ⟨{}, (Made.add_empty _).symm⟩
  | cons happening hs ih =>
    obtain ⟨first, hfirst⟩ := made_step signer writer c happening
    obtain ⟨more, hmore⟩ := ih (c.step signer writer happening)
    refine ⟨first.add more, ?_⟩
    rw [run, List.foldl_cons, ← run, hmore, hfirst, Made.add_assoc]

/-! ### The first call to exceed a limit -/

/-- The number of blocks in the chain that a session continues, for a session over a ledger state. -/
def heightBefore (ledger : Option StreamInfo) : Nat := (ledger.map StreamInfo.height).getD 0

theorem Continues.height_eq {version : SoftwareVersion} {info : StreamInfo}
    (h : c.Continues ledger version info) : info.height = heightBefore ledger := by
  rcases h with rfl | ⟨rfl, anchor, -, rfl⟩ <;> rfl

/-- Numbers that have not run out leave only the slot of the last word. -/
theorem Remembers.hashesNotified_of_runsOut (h : c.Remembers start) (hr : c.Regular config policy ledger)
    (hgoing : c.stopped = false) (hblocks : heightBefore ledger < UInt64.size)
    (hrounds : ∀ round ∈ roundsStarted c.calls, round.toNat + 1 < UInt64.size)
    (hinitial : start.round.toNat + 1 < UInt64.size) (hout : c.stream.RunsOut) :
    hashesNotified lastWord c.calls ≠ [] := by
  cases hout with
  | rounds hprevious hlast =>
    have hmem := List.mem_of_getLast? (h.lastRound ▸ hprevious)
    have := hrounds _ hmem
    omega
  | @blocks info number hnew horigin hnumber hlast =>
    have hcontinues := hr.continues_of_origin hnew horigin
    have hheight := hcontinues.height_eq
    rw [StreamInfo.height, hnumber] at hheight
    simp only at hheight
    omega
  | @initial round hround hlast =>
    by_cases hnone : roundsStarted c.calls = []
    · rw [(h.unstarted hnone).2] at hround
      cases hround
      omega
    · rw [h.begun hnone] at hround
      cases hround
  | slot hslot =>
    intro hnone
    have hlast := h.ahead hgoing lastWord fun previous _ => le_lastWord previous
    rw [hnone] at hlast
    exact hslot hlast

/-- A round that cannot end closes the block with the last number. -/
theorem Regular.closed_of_endRound_exceeds (h : c.Regular config policy ledger) {round : UInt64}
    (hexceeds : (c.stream.endRound round).1.exceeds = true) :
    heightBefore ledger + (c.made.add (c.stream.made (.endRound round))).closed.length = UInt64.size := by
  obtain ⟨block, time, captured, position, closed, hblock, hsealed, hmade, hlast⟩ :=
    StreamState.endRound_exceeds hexceeds
  rcases h.progress with ⟨hfresh, -⟩ | ⟨info, hinfo, hgrown, -⟩
  · rw [hfresh.pending] at hblock
    cases hblock
  · have hnumber : closed.number = c.stream.nextNumber :=
      (PendingBlock.sealed_eq_ok hsealed).number.trans (hgrown.openNext block hblock).number
    have hnext := hgrown.nextNumber
    rw [Made.add, hmade, List.length_append, List.length_singleton, ← hinfo.height_eq]
    rw [hnumber] at hlast
    omega

/-- A call exceeds a limit exactly if it starts a round that is not refused, while the slot of the last word is in
use. -/
theorem Remembers.exceeds_iff (h : c.Remembers start) (hr : c.Regular config policy ledger)
    (hgoing : c.stopped = false) (call : IntakeCall)
    (hblocks : heightBefore ledger + (c.made.add (c.stream.made call)).closed.length + 1 < UInt64.size)
    (hrounds : ∀ round ∈ roundsStarted c.calls, round.toNat + 1 < UInt64.size)
    (hinitial : start.round.toNat + 1 < UInt64.size) :
    (c.stream.take call).1.exceeds = true ↔ (∃ round time, call = .startRound round time) ∧
      hashesNotified lastWord c.calls ≠ [] ∧ ∀ e, (c.stream.take call).1 ≠ refuse e := by
  constructor
  · intro hexceeds
    rcases StreamState.take_exceeds hexceeds with ⟨round, time, rfl⟩ | ⟨round, rfl⟩
    · refine ⟨⟨round, time, rfl⟩, ?_, fun e he => ?_⟩
      · exact h.hashesNotified_of_runsOut hr hgoing (by omega) hrounds hinitial
          (StreamState.startRound_exceeds hexceeds)
      · rw [he] at hexceeds
        cases hexceeds
    · have hlast := hr.closed_of_endRound_exceeds hexceeds
      omega
  · rintro ⟨⟨round, time, rfl⟩, hnotified, hheeded⟩
    have hslot := h.ahead hgoing lastWord fun previous _ => le_lastWord previous
    rcases c.stream.startRound_cases round time with ⟨limit, hl⟩ | ⟨e, hrefused⟩ | ⟨hok, -⟩
    · rw [StreamState.take, hl]
      rfl
    · exact absurd (congrArg Prod.fst hrefused) (hheeded e)
    · -- a round that started would have found the slot of the last word empty
      rw [(StreamState.startRound_spec hok).room] at hslot
      have hnone := Option.map_eq_none_iff.mp hslot.symm
      exact absurd (List.getLast?_eq_none_iff.mp hnone) hnotified

/-- The rounds of the open block are those from its first one to the last. -/
def RoundsCounted (c : Course σ ω) : Prop :=
  ∀ block, c.stream.pending = some block → ∃ last, c.stream.lastRound = some last ∧
    block.firstRound.toNat + block.roundCount = last.toNat + 1

/-- A round that starts is counted, and nothing else is. -/
theorem RoundsCounted.takes (h : c.RoundsCounted) {call : IntakeCall}
    (ht : StreamState.Takes c.stream call (c.stream.take call).1 (c.stream.take call).2.core (c.stream.made call)) :
    (c.called call).RoundsCounted := by
  intro block hblock
  cases hstart : startedBy (call, (c.stream.take call).1) with
  | none =>
    obtain ⟨before, hbefore, hfirst, -, hcount⟩ := ht.pending_of_unstarted hstart hblock
    obtain ⟨last, hlast, hsum⟩ := h before hbefore
    exact ⟨last, (ht.rounds_eq hstart).1.trans hlast, by rw [hfirst, hcount, hsum]⟩
  | some round =>
    obtain ⟨time, rfl, hok⟩ := startedBy_eq_some hstart
    have hstarts := StreamState.startRound_spec hok
    refine ⟨round, hstarts.lastRound, ?_⟩
    rcases hstarts.block with ⟨before, hbefore, -, joined, hjoined, hfirst, -, hcount⟩ |
      ⟨-, -, opened, hopened, hfirst, -, hcount⟩
    · obtain ⟨last, hlast, hsum⟩ := h before hbefore
      have hfollows := hstarts.follows last hlast
      cases hjoined.symm.trans hblock
      rw [hfirst, hcount]
      omega
    · cases hopened.symm.trans hblock
      rw [hfirst, hcount]

theorem Moves.roundsCounted {d : Course σ ω} (hd : c.Moves d) (h : c.RoundsCounted) : d.RoundsCounted := by
  cases hd with
  | stays => exact h
  | takes _ ht => exact h.takes ht
  | stops _ =>
    have hpending : c.stream.stopIntake.core.pending = none := by rw [StreamState.core_stopIntake]
    exact fun block hblock => by cases hpending.symm.trans hblock
  | @aside stream signer store hintake =>
    have hpending := congrArg (·.pending) hintake
    have hlast := congrArg (·.lastRound) hintake
    intro block hblock
    obtain ⟨last, hsame, hsum⟩ := h block (hpending.symm.trans hblock)
    exact ⟨last, hlast.trans hsame, hsum⟩

theorem roundsCounted_ofSession {start : InitialState} {σ₀ : σ} {ω₀ : ω} {hs : List (Happening σ ω)}
    (hlimits : (ofSession signer writer config policy start ledger σ₀ ω₀ hs).WithinLimits) :
    (ofSession signer writer config policy start ledger σ₀ ω₀ hs).RoundsCounted :=
  run_induction signer writer (P := RoundsCounted)
    (fun d happening hd hl => (d.moves_step happening hl).roundsCounted hd)
    (fun _ hblock => by cases hblock) hlimits

/-- **The first call to exceed a limit starts a round after a hash was notified for the last word.** In a session
whose first block number and closed blocks, started rounds and initial round are below the last word, a call that
comes while the program runs stops it exactly if it starts a round, is not refused, and the last word is among the
rounds that hashes were notified for. No other call does, whatever its arguments. While no call has, the rounds of
the open block are in the range of a word. -/
theorem first_to_exceed (signer : Signer σ) (writer : Writer ω) (config : StreamConfig)
    (policy : BoundaryPolicy) (start : InitialState) (ledger : Option StreamInfo) (σ₀ : σ) (ω₀ : ω)
    (hs : List (Happening σ ω)) :
    let c := ofSession signer writer config policy start ledger σ₀ ω₀ hs
    heightBefore ledger + c.made.closed.length + 1 < UInt64.size →
    (∀ round ∈ roundsStarted c.calls, round.toNat + 1 < UInt64.size) →
    start.round.toNat + 1 < UInt64.size →
    (∀ before call answer after, c.calls = before ++ (call, answer) :: after →
      (∀ entry ∈ before, entry.2.exceeds = false) →
      (answer.exceeds = true ↔ (∃ round time, call = .startRound round time) ∧
        hashesNotified lastWord before ≠ [] ∧ ∀ e, answer ≠ refuse e)) ∧
    (c.WithinLimits → ∀ block, c.stream.pending = some block → block.roundCount < UInt64.size) := by
  intro c hblocks hrounds hinitial
  refine ⟨?_, ?_⟩
  · intro before call answer after hcalls hbefore
    obtain ⟨earlier, later, rfl, hcalled, hgoing, rfl⟩ := session_of_entry hcalls
    have hwithin : (ofSession signer writer config policy start ledger σ₀ ω₀ earlier).WithinLimits :=
      fun entry hentry => hbefore entry (hcalled ▸ hentry)
    have hr := regular_ofSession hwithin
    have hd := remembers_ofSession hwithin
    have hthen : c = ((ofSession signer writer config policy start ledger σ₀ ω₀ earlier).step signer writer
        (.call call)).run signer writer later := ofSession_append ..
    generalize ofSession signer writer config policy start ledger σ₀ ω₀ earlier = d at *
    have hclosed : (d.made.add (d.stream.made call)).closed.length ≤ c.made.closed.length := by
      have hstep : (d.step signer writer (.call call)).made = d.made.add (d.stream.made call) := by
        rw [step, if_neg (by rw [hgoing]; exact Bool.false_ne_true)]
      obtain ⟨more, hmore⟩ := made_run signer writer (d.step signer writer (.call call)) later
      rw [hthen, hmore, ← hstep, Made.add, List.length_append]
      exact Nat.le_add_right ..
    have hstarted : ∀ round ∈ roundsStarted d.calls, round.toNat + 1 < UInt64.size := by
      intro round hround
      refine hrounds round ?_
      rw [hcalls, ← hcalled, roundsStarted, List.filterMap_append]
      exact List.mem_append_left _ hround
    rw [← hcalled]
    exact hd.exceeds_iff hr hgoing call (by omega) hstarted hinitial
  · intro hlimits block hblock
    obtain ⟨last, hlast, hcount⟩ := roundsCounted_ofSession hlimits block hblock
    have := hrounds last (List.mem_of_getLast? ((remembers_ofSession hlimits).lastRound ▸ hlast))
    omega

/-- A session whose own numbers are small, and a hash for the last word. -/
def lastWordNotified : List (Happening SchemeSigner MemoryStore) :=
  [.call (.initLastHash .zero), .call (.notify lastWord .zero), .call (.startRound 1 ⟨⟨0⟩, 0⟩)]

/-- The session in which a hash is notified for the last word, with blocks in memory. -/
def lastWordSession : Course SchemeSigner MemoryStore :=
  ofSession SchemeSigner.signer MemoryStore.writer {} .configured ⟨0, Promise.resolved .zero⟩ none
    SchemeSigner.trivial MemoryStore.new lastWordNotified

set_option maxRecDepth 10000 in
theorem lastWordSession_calls : lastWordSession.calls =
    [(.initLastHash .zero, .ok ()), (.notify lastWord .zero, .ok ())] ++
      [(.startRound 1 ⟨⟨0⟩, 0⟩, .error (.exceeded .word))] := by
  decide +kernel

theorem lastWordSession_rounds (round : UInt64) : round ∉ roundsStarted lastWordSession.calls := by
  rw [lastWordSession_calls]
  exact List.not_mem_nil

set_option maxRecDepth 10000 in
theorem first_to_exceed_one_round :
    heightBefore none + lastWordSession.made.closed.length + 1 < UInt64.size ∧
      (∀ round ∈ roundsStarted lastWordSession.calls, round.toNat + 1 < UInt64.size) ∧
      ∃ before round time answer, lastWordSession.calls = before ++ [(.startRound round time, answer)] ∧
        hashesNotified lastWord before = [.zero] ∧ answer.exceeds = true := by
  have hblocks : heightBefore none + lastWordSession.made.closed.length + 1 < UInt64.size := by decide +kernel
  have hrounds : ∀ round ∈ roundsStarted lastWordSession.calls, round.toNat + 1 < UInt64.size :=
    fun round hmem => absurd hmem (lastWordSession_rounds round)
  obtain ⟨hfirst, -⟩ := first_to_exceed SchemeSigner.signer MemoryStore.writer {} .configured
    ⟨0, Promise.resolved .zero⟩ none SchemeSigner.trivial MemoryStore.new lastWordNotified hblocks hrounds
    (by decide)
  refine ⟨hblocks, hrounds, _, 1, _, _, lastWordSession_calls, by decide +kernel, ?_⟩
  refine (hfirst _ _ _ [] lastWordSession_calls ?_).mpr ⟨⟨1, _, rfl⟩, by decide +kernel, ?_⟩
  · decide
  · intro e he
    cases he

set_option maxRecDepth 10000 in
/-- Numbers in range do not keep a session within limits. -/
theorem exceeded_with_small_numbers :
    heightBefore none + lastWordSession.made.closed.length + 1 < UInt64.size ∧
      (∀ round ∈ roundsStarted lastWordSession.calls, round.toNat + 1 < UInt64.size) ∧
      ¬ lastWordSession.WithinLimits :=
  ⟨by decide +kernel, fun round hmem => absurd hmem (lastWordSession_rounds round), by decide +kernel⟩

end Course

end RoundChain
