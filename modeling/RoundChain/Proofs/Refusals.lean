import RoundChain.Proofs.Conservation

/-!
# Calls that are turned away

Intake turns a call away that comes out of turn, names a wrong round, brings an item that no
block takes, or finds production halted or no chain to continue. Such a call leaves the
stream as it found it, so a run without these calls is the same run:
`Course.turned_away_calls_leave_no_trace`.

## The model

`IntakeCall.turnedAwayBy` lists the causes. The end of a round and the calls that handle the
boundary by hand can be refused for other causes as well; every other refusal is on the list.

`Course.heeded` takes the calls that are turned away out of a list of happenings. What
is left is not the same list for every session: whether a call is turned away is decided by
what happened before it.
-/

namespace RoundChain

variable {σ ω : Type}

/-- Whether a cause turns a call away before it has done anything. -/
def IntakeCall.turnedAwayBy : IntakeCall → StreamError → Bool
  | .initLastHash _, .alreadyInitialized => true
  | .startRound .., .halted _ => true
  | .startRound .., .orderingViolation .. => true
  | .startRound .., .nonSequentialRound .. => true
  | .startRound .., .notInitialized => true
  | .writeItem _, .orderingViolation .. => true
  | .writeItem _, .serialization _ => true
  | .endRound _, e => e.outOfTurn
  | _, _ => false

/-- Whether a call with an answer was turned away. -/
def IntakeCall.turnedAway (call : IntakeCall) : Checked StreamError Unit → Bool
  | .error (.refused e) => call.turnedAwayBy e
  | _ => false

/-- Whether a call is about boundaries, which can refuse it halfway. -/
def IntakeCall.atBoundary : IntakeCall → Bool
  | .endRound _ => true
  | .beginBoundary _ => true
  | .flushBoundary => true
  | _ => false

theorem IntakeCall.turnedAway_eq_true_iff {call : IntakeCall} {answer : Checked StreamError Unit} :
    call.turnedAway answer = true ↔ ∃ e, answer = refuse e ∧ call.turnedAwayBy e = true := by
  rcases answer with (e | limit) | _ <;> simp [turnedAway, refuse]

/-- An item that a block does not take is a proof, or it is too long. -/
theorem PendingBlock.turnedAwayBy_of_append {block : PendingBlock} {item : Item} {e : StreamError}
    (h : block.append item = .error e) : (IntakeCall.writeItem item).turnedAwayBy e = true := by
  by_cases hproof : item.isProof = true
  · cases item with
    | blockProof _ => cases h; rfl
    | _ => cases hproof
  · obtain ⟨text, rfl⟩ := append_eq_error ((Bool.not_eq_true _).mp hproof) h
    rfl

/-- No block takes a proof, or an item that is too long for a frame. -/
theorem PendingBlock.append_of_unfit (block : PendingBlock) {item : Item}
    (h : item.isProof = true ∨ UInt32.size ≤ item.encode.length) : ∃ e, block.append item = .error e := by
  cases happend : block.append item with
  | error e => exact ⟨e, rfl⟩
  | ok extended =>
    obtain ⟨hproof, hpush⟩ := append_eq_ok_iff.mp happend
    obtain ⟨framed, hframe, -⟩ := push_eq_ok_iff.mp hpush
    have hlength := (frame_eq_ok_iff.mp hframe).1
    rcases h with h | h
    · rw [hproof] at h
      cases h
    · omega

namespace StreamState

variable {s t : StreamState}

/-! ### One call -/

/-- A block that cannot be closed is not refused for the order of calls. -/
theorem outOfTurn_of_closeBlock {block : PendingBlock} {time : Timestamp} {e : StreamError}
    (h : (s.afterRound.closeBlock block time).1 = refuse e) : e.outOfTurn = false := by
  by_cases hidle : s.boundary.phase = .idle
  · rw [closeBlock_of_idle hidle] at h
    cases hsealed : block.sealed time (s.capturedAt time) (s.positionAt time) with
    | error cause =>
      rw [sealBlock_of_error hsealed] at h
      obtain ⟨text, rfl⟩ := PendingBlock.sealed_eq_error hsealed
      cases h
      rfl
    | ok closed =>
      rw [sealBlock_of_ok hsealed] at h
      rcases extendChain_cases
        { s.published with
          pending := none, boundary := ⟨.idle, none, some time⟩
          metrics := s.published.metrics.countItem.countItem } closed with
        ⟨limit, hl⟩ | ⟨next, -, hanswer, -⟩
      · rw [hl] at h
        cases h
      · rw [hanswer] at h
        split at h
        · cases h
        · cases h
          rfl
  · rw [closeBlock_of_blocked hidle] at h
    cases h
    rfl

/-- A round that is not open cannot be ended, and the attempt does nothing. -/
theorem endRound_of_outOfTurn {round : UInt64} {e : StreamError} (h : (s.endRound round).1 = refuse e)
    (he : e.outOfTurn = true) : (s.endRound round).2 = s ∧ s.closing? round = none := by
  cases hclosing : s.closing? round with
  | some closing =>
    obtain ⟨block, time⟩ := closing
    rw [endRound_of_closing hclosing] at h
    rw [outOfTurn_of_closeBlock h] at he
    cases he
  | none =>
    refine ⟨?_, rfl⟩
    cases hphase : s.phase with
    | awaitingRound => simp only [endRound, hphase]
    | roundOpen opened time =>
      by_cases hround : opened = round
      · subst hround
        -- the round ends: a cause that blames its order cannot come from what follows
        rw [endRound_of_open hphase] at h
        unfold closeAtBoundary at h
        split at h
        · cases h
          cases he
        · split at h
          · rw [outOfTurn_of_closeBlock h] at he
            cases he
          · cases h
      · simp only [endRound, hphase, ne_eq, hround, not_false_eq_true, if_true]

/-- **A call that is turned away leaves the stream as it found it**, and makes nothing. -/
theorem take_of_turnedAway {call : IntakeCall} (h : call.turnedAway (s.take call).1 = true) :
    (s.take call).2 = s ∧ s.made call = {} := by
  obtain ⟨e, hanswer, hcause⟩ := IntakeCall.turnedAway_eq_true_iff.mp h
  cases call with
  | initLastHash hash =>
    rcases s.initLastHash_cases hash with hsame | ⟨-, -, hdone⟩
    · exact ⟨congrArg Prod.snd hsame, rfl⟩
    · rw [take, hdone] at hanswer
      cases hanswer
  | startRound round time =>
    rcases s.startRound_cases round time with ⟨limit, hl⟩ | ⟨e', hsame⟩ | ⟨hok, -⟩
    · rw [take, hl] at hanswer
      cases hanswer
    · exact ⟨congrArg Prod.snd hsame, rfl⟩
    · rw [take, hok] at hanswer
      cases hanswer
  | writeItem item =>
    rcases s.writeItem_cases item with ⟨e', hsame⟩ | ⟨hok, -⟩
    · exact ⟨congrArg Prod.snd hsame, rfl⟩
    · rw [take, hok] at hanswer
      cases hanswer
  | endRound round =>
    obtain ⟨hsame, hnone⟩ := endRound_of_outOfTurn hanswer hcause
    exact ⟨hsame, made_of_closing?_eq_none hnone⟩
  | _ => cases hcause

/-! ### Which calls are turned away -/

/-- While a round is open, a block is. -/
def Furnished (s : StreamState) : Prop := s.phase ≠ .awaitingRound → s.pending.isSome = true

theorem Furnished.of_intake_eq (h : s.Furnished) (ht : t.intake = s.intake) : t.Furnished := by
  have hs : s.intake.Furnished := h
  rw [← ht] at hs
  exact hs

theorem Furnished.takes (h : s.Furnished) {call : IntakeCall} {answer : Checked StreamError Unit}
    {more : Made} (ht : Takes s call answer t more) : t.Furnished := by
  cases ht with
  | starts _ _ hstarts => cases hstarts <;> exact fun _ => rfl
  | appends _ _ _ => exact fun _ => rfl
  | ends hends =>
    cases hends with
    | refused _ => exact h
    | _ => exact fun hopen => absurd rfl hopen
  | _ => exact h

/-- A block can always be opened, so a round is refused before anything has happened. -/
theorem turnedAwayBy_of_startRound {round : UInt64} {time : Timestamp} {e : StreamError}
    (h : (s.startRound round time).1 = refuse e) : (IntakeCall.startRound round time).turnedAwayBy e = true := by
  unfold startRound at h
  split at h
  · cases h
    rfl
  · cases h
    rfl
  split at h
  · rename_i cause hsequence
    cases h
    unfold checkSequence at hsequence
    split at hsequence
    · cases hsequence
    · rcases bind_eq_error_iff.mp hsequence with hnext | ⟨next, -, hnext⟩
      · obtain ⟨limit, hlimit⟩ := nextWord_eq_error hnext
        cases hlimit
      · split at hnext
        · cases hnext
        · cases hnext
          rfl
  rcases s.bootstrap_cases with ⟨limit, hl⟩ | hrefused | ⟨hok, -⟩
  · rw [StreamCall.andThen_of_error hl] at h
    cases h
  · rw [hrefused] at h
    cases h
    rfl
  rw [StreamCall.andThen_of_ok hok] at h
  rcases s.bootstrap.2.joinRound_cases round time with ⟨limit, hl⟩ | ⟨hok, -⟩
  · rw [StreamCall.andThen_of_error hl] at h
    cases h
  rw [StreamCall.andThen_of_ok hok] at h
  rcases pruneSlots_cases
    { (s.bootstrap.2.joinRound round time).2 with
      lastRound := some round, phase := .roundOpen round time
      metrics := (s.bootstrap.2.joinRound round time).2.metrics.countRound } round with ⟨limit, hl⟩ | hok
  · rw [hl] at h
    cases h
  · rw [hok] at h
    cases h

theorem turnedAwayBy_of_writeItem (hs : s.Furnished) {item : Item} {e : StreamError}
    (h : (s.writeItem item).1 = refuse e) : (IntakeCall.writeItem item).turnedAwayBy e = true := by
  unfold writeItem at h
  split at h
  · cases h
    rfl
  · rename_i hphase hpending
    have hopen := hs (by rw [hphase]; nofun)
    rw [hpending] at hopen
    cases hopen
  · split at h
    · rename_i cause happend
      cases h
      exact PendingBlock.turnedAwayBy_of_append happend
    · cases h

/-- **A refused call is turned away**, if it is not about boundaries. -/
theorem turnedAway_of_refused (hs : s.Furnished) {call : IntakeCall} (hcall : call.atBoundary = false)
    {e : StreamError} (h : (s.take call).1 = refuse e) : call.turnedAway (s.take call).1 = true := by
  refine IntakeCall.turnedAway_eq_true_iff.mpr ⟨e, h, ?_⟩
  cases call with
  | initLastHash hash =>
    rcases s.initLastHash_cases hash with hsame | ⟨-, -, hdone⟩
    · rw [take, hsame] at h
      cases h
      rfl
    · rw [take, hdone] at h
      cases h
  | startRound round time => exact turnedAwayBy_of_startRound h
  | writeItem item => exact turnedAwayBy_of_writeItem hs h
  | notify round hash => cases h
  | capture batch => cases h
  | _ => cases hcall

/-- An item that no block takes is turned away at any time. -/
theorem turnedAway_of_unfit (hs : s.Furnished) {item : Item}
    (h : item.isProof = true ∨ UInt32.size ≤ item.encode.length) :
    (IntakeCall.writeItem item).turnedAway (s.writeItem item).1 = true := by
  rcases s.writeItem_cases item with ⟨e, hrefused⟩ | ⟨-, -, block, extended, -, happend, -⟩
  · exact turnedAway_of_refused hs rfl (congrArg Prod.fst hrefused)
  · obtain ⟨e, he⟩ := block.append_of_unfit h
    rw [happend] at he
    cases he

end StreamState

namespace Course

variable (signer : Signer σ) (writer : Writer ω)

/-! ### Runs without the calls that are turned away -/

/-- Whether what happens is a call that is turned away. -/
def turnsAway (c : Course σ ω) : Happening σ ω → Bool
  | .call call => !c.stopped && call.turnedAway (c.stream.take call).1
  | _ => false

/-- What happens, without the calls that are turned away. -/
def heeded (c : Course σ ω) : List (Happening σ ω) → List (Happening σ ω)
  | [] => []
  | h :: hs =>
    if c.turnsAway h then (c.step signer writer h).heeded hs
    else h :: (c.step signer writer h).heeded hs

/-- The calls that were not turned away, with their answers. -/
def heededCalls (c : Course σ ω) : List (IntakeCall × Checked StreamError Unit) :=
  c.calls.filter fun entry => !entry.1.turnedAway entry.2

/-- The session with a history that does not have the calls that were turned away. -/
def unheard (c : Course σ ω) : Course σ ω := { c with calls := c.heededCalls }

variable {signer writer} {c : Course σ ω}

/-- A call that is turned away leaves its entry in the history, and nothing else. -/
theorem unheard_step_of_turnsAway (signer : Signer σ) (writer : Writer ω) {h : Happening σ ω}
    (haway : c.turnsAway h = true) :
    (c.step signer writer h).unheard = c.unheard := by
  cases h with
  | call call =>
    simp only [turnsAway, Bool.and_eq_true, Bool.not_eq_true'] at haway
    obtain ⟨hgoing, haway⟩ := haway
    obtain ⟨hstream, hmade⟩ := StreamState.take_of_turnedAway haway
    have hcalls : (c.calls ++ [(call, (c.stream.take call).1)]).filter
        (fun entry => !entry.1.turnedAway entry.2) = c.heededCalls := by
      rw [List.filter_append, heededCalls, List.filter_cons_of_neg (by simp [haway]), List.filter_nil,
        List.append_nil]
    simp only [step, hgoing, Bool.false_eq_true, if_false, unheard, heededCalls, hstream, hmade,
      Made.add_empty]
    rw [hcalls, heededCalls]
  | _ => cases haway

/-- Anything else does the same whether or not calls were turned away before. -/
theorem unheard_step (signer : Signer σ) (writer : Writer ω) {h : Happening σ ω} (hheeded : c.turnsAway h = false) :
    (c.step signer writer h).unheard = c.unheard.step signer writer h := by
  cases h with
  | call call =>
    cases hstopped : c.stopped with
    | true => simp only [step, unheard, hstopped, if_true]
    | false =>
      have hkept : call.turnedAway (c.stream.take call).1 = false := by
        simpa [turnsAway, hstopped] using hheeded
      have hcalls : (c.calls ++ [(call, (c.stream.take call).1)]).filter
          (fun entry => !entry.1.turnedAway entry.2) =
          c.heededCalls ++ [(call, (c.stream.take call).1)] := by
        rw [List.filter_append, heededCalls, List.filter_cons_of_pos (by simp [hkept]), List.filter_nil]
      simp only [step, hstopped, Bool.false_eq_true, if_false, unheard, heededCalls]
      rw [hcalls, heededCalls]
  | stop => cases hstopped : c.stopped <;> simp [step, unheard, heededCalls, hstopped]
  | _ => rfl

/-- **A run without the calls that are turned away comes to the same.** -/
theorem run_heeded (c : Course σ ω) (hs : List (Happening σ ω)) :
    c.unheard.run signer writer (c.heeded signer writer hs) = (c.run signer writer hs).unheard := by
  induction hs generalizing c with
  | nil => rfl
  | cons h hs ih =>
    rw [heeded]
    by_cases haway : c.turnsAway h = true
    · rw [if_pos haway, ← unheard_step_of_turnsAway signer writer haway, ih]
      rfl
    · rw [if_neg haway]
      have hstep := unheard_step signer writer ((Bool.not_eq_true _).mp haway)
      show (c.unheard.step signer writer h).run signer writer ((c.step signer writer h).heeded signer writer hs) =
        ((c.step signer writer h).run signer writer hs).unheard
      rw [← hstep, ih]

theorem heeded_sublist (c : Course σ ω) (hs : List (Happening σ ω)) : (c.heeded signer writer hs).Sublist hs := by
  induction hs generalizing c with
  | nil => exact .slnil
  | cons h hs ih =>
    rw [heeded]
    split
    · exact (ih _).cons h
    · exact (ih _).cons_cons h

/-! ### Sessions -/

theorem Moves.furnished {d : Course σ ω} (hd : c.Moves d) (h : c.stream.Furnished) : d.stream.Furnished := by
  cases hd with
  | stays => exact h
  | takes _ ht => exact (h.takes ht).of_intake_eq rfl
  | stops _ =>
    have hphase : c.stream.stopIntake.core.phase = .awaitingRound := by rw [StreamState.core_stopIntake]
    exact fun hopen => absurd hphase hopen
  | aside hintake => exact h.of_intake_eq hintake

/-- In a session within limits, a block is open while a round is. -/
theorem furnished_ofSession {config : StreamConfig} {policy : BoundaryPolicy} {start : InitialState}
    {ledger : Option StreamInfo} {σ₀ : σ} {ω₀ : ω} {hs : List (Happening σ ω)}
    (hlimits : (ofSession signer writer config policy start ledger σ₀ ω₀ hs).WithinLimits) :
    (ofSession signer writer config policy start ledger σ₀ ω₀ hs).stream.Furnished :=
  run_induction signer writer (P := fun d => d.stream.Furnished)
    (fun d happening hd hl => (d.moves_step happening hl).furnished hd) (fun hopen => absurd rfl hopen) hlimits

/-- **Calls that are turned away leave no trace.** At any time of a session within limits, a call that is
turned away leaves the whole stream as it found it and makes no block. Every refusal of a call that is not about
boundaries is of this kind, and items that no block takes are always turned away. The session in which these calls
were not made has the same blocks, the same stream, logs, signer and store, and gives the other calls the same
answers. -/
theorem turned_away_calls_leave_no_trace (signer : Signer σ) (writer : Writer ω) (config : StreamConfig)
    (policy : BoundaryPolicy) (start : InitialState) (ledger : Option StreamInfo) (σ₀ : σ) (ω₀ : ω)
    (hs : List (Happening σ ω))
    (hlimits : (ofSession signer writer config policy start ledger σ₀ ω₀ hs).WithinLimits) :
    let session := ofSession signer writer config policy start ledger σ₀ ω₀
    let begun := Course.start (.initial config policy start ledger) σ₀ ω₀
    let c := session hs
    (∀ call, call.turnedAway (c.stream.take call).1 = true →
        (c.stream.take call).2 = c.stream ∧ c.stream.made call = {}) ∧
      (∀ call e, call.atBoundary = false → (c.stream.take call).1 = refuse e →
        call.turnedAway (c.stream.take call).1 = true) ∧
      (∀ item : Item, item.isProof = true ∨ UInt32.size ≤ item.encode.length →
        (IntakeCall.writeItem item).turnedAway (c.stream.take (.writeItem item)).1 = true) ∧
      (begun.heeded signer writer hs).Sublist hs ∧
      session (begun.heeded signer writer hs) = { c with calls := c.heededCalls } := by
  intro session begun c
  have hfurnished : c.stream.Furnished := furnished_ofSession hlimits
  refine ⟨?_, ?_, ?_, begun.heeded_sublist hs, begun.run_heeded hs⟩
  · exact fun call haway => StreamState.take_of_turnedAway haway
  · exact fun call e hcall hrefused => StreamState.turnedAway_of_refused hfurnished hcall hrefused
  · exact fun item hitem => StreamState.turnedAway_of_unfit hfurnished hitem

/-- The happenings of one round among calls that are turned away. -/
def oneRoundDisturbed : List (Happening SchemeSigner MemoryStore) :=
  [.call (.startRound 1 ⟨⟨0⟩, 0⟩), .call (.initLastHash .zero), .call (.writeItem (.eventTransaction [7])),
    .call (.initLastHash .zero), .call (.startRound 1 ⟨⟨0⟩, 0⟩), .call (.startRound 2 ⟨⟨0⟩, 0⟩),
    .call (.writeItem (.eventTransaction [7])),
    .call (.writeItem (.blockProof ⟨0, .zero, .zero, ⟨.trivial, [], none⟩⟩)),
    .call (.endRound 2), .call (.endRound 1), .call (.endRound 1), .call (.startRound 1 ⟨⟨0⟩, 0⟩),
    .work .takeUp, .work (.sign 0), .work .consider, .work .write]

/-- The session of one round, disturbed. -/
def disturbedSession : Course SchemeSigner MemoryStore :=
  ofSession SchemeSigner.signer MemoryStore.writer {} .configured ⟨0, Promise.resolved .zero⟩ none
    SchemeSigner.trivial MemoryStore.new oneRoundDisturbed

set_option maxRecDepth 10000 in
theorem turned_away_calls_leave_no_trace_one_round :
    disturbedSession.WithinLimits ∧ disturbedSession.heededCalls.length + 8 = disturbedSession.calls.length ∧
      disturbedSession.made.closed.length = 1 ∧
      oneRoundSession = { disturbedSession with calls := disturbedSession.heededCalls } := by
  have hlimits : disturbedSession.WithinLimits := by decide +kernel
  obtain ⟨-, -, -, -, hsame⟩ := turned_away_calls_leave_no_trace SchemeSigner.signer MemoryStore.writer {}
    .configured ⟨0, Promise.resolved .zero⟩ none SchemeSigner.trivial MemoryStore.new oneRoundDisturbed hlimits
  have hheeded : (Course.start (.initial {} .configured ⟨0, Promise.resolved .zero⟩ none)
      SchemeSigner.trivial MemoryStore.new).heeded SchemeSigner.signer MemoryStore.writer oneRoundDisturbed =
        oneRound := rfl
  rw [hheeded] at hsame
  exact ⟨hlimits, by decide +kernel, by decide +kernel, hsame⟩

end Course

end RoundChain
