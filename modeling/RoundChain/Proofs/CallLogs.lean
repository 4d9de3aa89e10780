import RoundChain.Proofs.StateHashes

/-!
# What a stream remembers of its calls

Hashes can be notified for any round, at any time and more than once. The slots of a stream,
the hashes that it delivered and its last round are what the calls made of them:
`Course.Remembers` reads them off the history of the session.

## The model

The history of a session is the list of its calls with their answers; `roundsStarted` and
`hashesNotified` read it. A slot that a block to come may need has the newest hash of its
round, one that a block waits for has none so far, and a delivered hash is the first of its
round.
-/

namespace RoundChain

variable {σ ω : Type}

/-! ### Histories -/

/-- The calls of a session with their answers. -/
abbrev CallLog := List (IntakeCall × Checked StreamError Unit)

/-- The round that is started by a call with its answer. -/
def startedBy : IntakeCall × Checked StreamError Unit → Option UInt64
  | (.startRound round _, .ok ()) => some round
  | _ => none

/-- The hash that is notified for a round by a call with its answer. -/
def notifiedBy (round : UInt64) : IntakeCall × Checked StreamError Unit → Option BlockHash
  | (.notify other hash, .ok ()) => if other = round then some hash else none
  | _ => none

/-- The rounds that were started, in their order. -/
def roundsStarted (calls : CallLog) : List UInt64 := calls.filterMap startedBy

/-- The hashes that were notified for a round, in their order. -/
def hashesNotified (round : UInt64) (calls : CallLog) : List BlockHash := calls.filterMap (notifiedBy round)

theorem roundsStarted_concat (calls : CallLog) (entry : IntakeCall × Checked StreamError Unit) :
    roundsStarted (calls ++ [entry]) = roundsStarted calls ++ (startedBy entry).toList := by
  rw [roundsStarted, List.filterMap_append]
  cases h : startedBy entry <;> simp [roundsStarted, h]

theorem hashesNotified_concat (round : UInt64) (calls : CallLog)
    (entry : IntakeCall × Checked StreamError Unit) :
    hashesNotified round (calls ++ [entry]) = hashesNotified round calls ++ (notifiedBy round entry).toList := by
  rw [hashesNotified, List.filterMap_append]
  cases h : notifiedBy round entry <;> simp [hashesNotified, h]

/-- An ascending list goes on with anything that is greater than its end. -/
theorem pairwise_concat {rounds : List UInt64} {round : UInt64} (h : rounds.Pairwise (· < ·))
    (hlast : ∀ last, rounds.getLast? = some last → last < round) : (rounds ++ [round]).Pairwise (· < ·) := by
  rw [List.pairwise_append]
  refine ⟨h, List.pairwise_singleton _ _, ?_⟩
  rintro earlier hearlier _ ⟨⟩
  · rcases List.eq_nil_or_concat rounds with rfl | ⟨before, last, rfl⟩
    · cases hearlier
    · rw [List.concat_eq_append] at h hearlier hlast
      have hend := hlast last List.getLast?_concat
      rcases List.mem_append.mp hearlier with hbefore | hbefore
      · exact UInt64.lt_trans ((List.pairwise_append.mp h).2.2 earlier hbefore last (List.mem_singleton_self _)) hend
      · rw [List.mem_singleton.mp hbefore]
        exact hend
  · rename_i hmem
    cases hmem

theorem startedBy_eq_some {call : IntakeCall} {answer : Checked StreamError Unit} {round : UInt64}
    (h : startedBy (call, answer) = some round) :
    ∃ time, call = .startRound round time ∧ answer = .ok () := by
  unfold startedBy at h
  split at h
  · rename_i heq
    cases h
    cases heq
    exact ⟨_, rfl, rfl⟩
  · cases h

theorem notifiedBy_eq_none {call : IntakeCall} {answer : Checked StreamError Unit}
    (h : ∀ round hash, call ≠ .notify round hash) (round : UInt64) : notifiedBy round (call, answer) = none := by
  cases call with
  | notify other hash => exact absurd rfl (h other hash)
  | _ => rfl

namespace StreamState

variable {s t : StreamState}

/-! ### Calls that are about neither -/

/-- A call within limits that starts no round and brings no hash changes nothing that is known of state
hashes. -/
theorem Takes.keepsHashes {call : IntakeCall} {more : Made} (ht : Takes s call (s.take call).1 t more)
    (hstart : startedBy (call, (s.take call).1) = none) (hnotify : ∀ round hash, call ≠ .notify round hash) :
    s.KeepsHashes (s.take call).2 := by
  cases call with
  | initLastHash hash =>
    rcases s.initLastHash_cases hash with h | ⟨-, -, h⟩ <;> rw [take, h]
    · exact .refl s
    · exact ⟨rfl, rfl, rfl, .inl rfl⟩
  | startRound round time =>
    rw [take] at ht hstart ⊢
    rcases s.startRound_cases round time with ⟨limit, hl⟩ | ⟨e, hrefused⟩ | ⟨hok, -⟩
    · rw [hl] at ht
      cases ht
    · rw [hrefused]
      exact .refl s
    · rw [hok] at hstart
      cases hstart
  | notify round hash => exact absurd rfl (hnotify round hash)
  | writeItem item =>
    rw [take, writeItem]
    split
    · exact .refl s
    · exact .refl s
    · split
      · exact .refl s
      · exact ⟨rfl, rfl, rfl, .inl rfl⟩
  | endRound round => exact s.keepsHashes_endRound round
  | capture batch => exact ⟨rfl, rfl, rfl, .inl rfl⟩
  | beginBoundary time =>
    rcases s.beginBoundary_cases time with ⟨e, h⟩ | ⟨boundary, -, h⟩ <;> rw [take, h]
    · exact .refl s
    · exact ⟨rfl, rfl, rfl, .inl rfl⟩
  | flushBoundary =>
    rcases s.flushBoundary_cases with ⟨e, h⟩ | ⟨batch, boundary, -, h⟩ <;> rw [take, h]
    · exact .refl s
    · exact ⟨rfl, rfl, rfl, .inl rfl⟩

/-- Only a round that starts changes the last round, or that the stream has started. -/
theorem Takes.rounds_eq {call : IntakeCall} {answer : Checked StreamError Unit} {more : Made}
    (ht : Takes s call answer t more) (hstart : startedBy (call, answer) = none) :
    t.lastRound = s.lastRound ∧ t.started = s.started := by
  cases ht with
  | starts _ _ _ => cases hstart
  | ends hends => cases hends <;> exact ⟨rfl, rfl⟩
  | _ => exact ⟨rfl, rfl⟩

/-- Such a call keeps the open block but for items, or ends it. -/
theorem Takes.pending_of_unstarted {call : IntakeCall} {answer : Checked StreamError Unit} {more : Made}
    (ht : Takes s call answer t more) (hstart : startedBy (call, answer) = none) {block : PendingBlock}
    (hblock : t.pending = some block) : ∃ before, s.pending = some before ∧ block.firstRound = before.firstRound ∧
      block.startState = before.startState ∧ block.roundCount = before.roundCount := by
  cases ht with
  | starts _ _ _ => cases hstart
  | appends _ hpending happend =>
    cases hblock
    exact ⟨_, hpending, PendingBlock.append_eq_ok_startState happend⟩
  | ends hends =>
    cases hends with
    | lost _ _ _ _ => cases hblock
    | closed _ _ _ _ => cases hblock
    | _ => exact ⟨block, hblock, rfl, rfl, rfl⟩
  | _ => exact ⟨block, hblock, rfl, rfl, rfl⟩

end StreamState

/-! ### Courses -/

namespace Course

variable {signer : Signer σ} {writer : Writer ω} {config : StreamConfig} {policy : BoundaryPolicy}
  {start : InitialState} {ledger : Option StreamInfo} {c : Course σ ω}

/-- What a stream keeps of rounds and state hashes, read off the calls that were made. -/
structure Remembers (start : InitialState) (c : Course σ ω) : Prop where
  lastRound : c.stream.lastRound = (roundsStarted c.calls).getLast?
  /-- Rounds are started in their order. -/
  increasing : (roundsStarted c.calls).Pairwise (· < ·)
  unstarted : roundsStarted c.calls = [] → c.stream.started = false ∧ c.stream.initialRound = some start.round
  /-- The first block has taken the hash that was supplied with the session, or has passed it over. -/
  begun : roundsStarted c.calls ≠ [] → c.stream.initialRound = none
  /-- The slot of a round that was not started past has the newest hash of the round. -/
  ahead : c.stopped = false → ∀ q, (∀ previous, c.stream.lastRound = some previous → previous ≤ q) →
    c.stream.slots.find? q = (hashesNotified q c.calls).getLast?.map .known
  awaited : ∀ q, c.stream.slots.find? q = some .awaited → hashesNotified q c.calls = []
  /-- What a block waited for is the first hash of the round. -/
  delivered : ∀ q hash, c.stream.delivered.find? q = some hash → (hashesNotified q c.calls).head? = some hash

/-- A stream that has not started has no block. -/
theorem Regular.fresh_of_unstarted (h : c.Regular config policy ledger) (hnew : c.stream.started = false) :
    c.stream.Fresh ledger := by
  rcases h.progress with ⟨hfresh, -⟩ | ⟨info, -, hgrown, -⟩
  · exact hfresh
  · rw [hgrown.started] at hnew
    cases hnew

/-- A step that is not about rounds or state hashes. -/
theorem Remembers.elsewhere (h : c.Remembers start) {d : Course σ ω}
    (hrounds : roundsStarted d.calls = roundsStarted c.calls)
    (hhashes : ∀ q, hashesNotified q d.calls = hashesNotified q c.calls)
    (hlast : d.stream.lastRound = c.stream.lastRound) (hstarted : d.stream.started = c.stream.started)
    (hinitial : d.stream.initialRound = c.stream.initialRound)
    (hslots : d.stream.slots = c.stream.slots ∧ d.stopped = c.stopped ∨ d.stream.slots = .empty ∧ d.stopped = true)
    (hdelivered : d.stream.delivered = c.stream.delivered) : d.Remembers start := by
  refine ⟨?_, ?_, ?_, ?_, ?_, ?_, ?_⟩
  · rw [hlast, hrounds]
    exact h.lastRound
  · rw [hrounds]
    exact h.increasing
  · rw [hrounds, hstarted, hinitial]
    exact h.unstarted
  · rw [hrounds, hinitial]
    exact h.begun
  · intro hgoing q hq
    rcases hslots with ⟨hslots, hstopped⟩ | ⟨-, hstopped⟩
    · rw [hslots, hhashes]
      exact h.ahead (hstopped ▸ hgoing) q (hlast ▸ hq)
    · rw [hstopped] at hgoing
      cases hgoing
  · intro q hq
    rcases hslots with ⟨hslots, -⟩ | ⟨hslots, -⟩ <;> rw [hslots] at hq
    · rw [hhashes]
      exact h.awaited q hq
    · cases hq
  · intro q hash hq
    rw [hhashes]
    exact h.delivered q hash (hdelivered ▸ hq)

/-- The course after a call. -/
def called (c : Course σ ω) (call : IntakeCall) : Course σ ω :=
  { c with
    stream := (c.stream.take call).2, calls := c.calls ++ [(call, (c.stream.take call).1)]
    made := c.made.add (c.stream.made call) }

/-- A hash is notified. -/
theorem Remembers.notify (h : c.Remembers start) (round : UInt64) (hash : BlockHash) :
    (c.called (.notify round hash)).Remembers start := by
  obtain ⟨hinitial, -, hslots⟩ := c.stream.notify_spec round hash
  have hrounds : roundsStarted (c.calls ++ [(.notify round hash, .ok ())]) = roundsStarted c.calls := by
    rw [roundsStarted_concat]
    exact List.append_nil _
  have hself : hashesNotified round (c.calls ++ [(.notify round hash, .ok ())]) =
      hashesNotified round c.calls ++ [hash] := by
    rw [hashesNotified_concat, notifiedBy, if_pos rfl]
    rfl
  have hother : ∀ q, q ≠ round →
      hashesNotified q (c.calls ++ [(.notify round hash, .ok ())]) = hashesNotified q c.calls := by
    intro q hq
    rw [hashesNotified_concat, notifiedBy, if_neg (Ne.symm hq)]
    exact List.append_nil _
  have hcore := c.stream.core_notify round hash
  have hlast := StreamState.of_core StreamState.lastRound (fun _ => rfl) hcore
  have hstarted := StreamState.of_core StreamState.started (fun _ => rfl) hcore
  refine ⟨?_, ?_, ?_, ?_, ?_, ?_, ?_⟩ <;> simp only [called, StreamState.take]
  · rw [hlast, hrounds]
    exact h.lastRound
  · rw [hrounds]
    exact h.increasing
  · rw [hrounds, hstarted, hinitial]
    exact h.unstarted
  · rw [hrounds, hinitial]
    exact h.begun
  · intro hgoing q hq
    have hbefore := h.ahead hgoing q (hlast ▸ hq)
    by_cases hqr : q = round
    · subst hqr
      rw [hself, List.getLast?_concat]
      rcases hslots with ⟨hawaited, -, -⟩ | ⟨-, hslots, -⟩
      · -- no block waits for a round that was not started past
        rw [hawaited] at hbefore
        cases hlatest : (hashesNotified q c.calls).getLast? <;> rw [hlatest] at hbefore <;> cases hbefore
      · rw [hslots, WordMap.find?_insert, if_pos rfl]
        rfl
    · rw [hother q hqr, ← hbefore]
      rcases hslots with ⟨-, hslots, -⟩ | ⟨-, hslots, -⟩
      · rw [hslots, WordMap.find?_erase, if_neg hqr]
      · rw [hslots, WordMap.find?_insert, if_neg hqr]
  · intro q hq
    by_cases hqr : q = round
    · rcases hslots with ⟨-, hslots, -⟩ | ⟨-, hslots, -⟩
      · rw [hslots, WordMap.find?_erase, if_pos hqr] at hq
        cases hq
      · rw [hslots, WordMap.find?_insert, if_pos hqr] at hq
        cases hq
    · rw [hother q hqr]
      rcases hslots with ⟨-, hslots, -⟩ | ⟨-, hslots, -⟩
      · rw [hslots, WordMap.find?_erase, if_neg hqr] at hq
        exact h.awaited q hq
      · rw [hslots, WordMap.find?_insert, if_neg hqr] at hq
        exact h.awaited q hq
  · intro q first hq
    rcases hslots with ⟨hawaited, -, hdelivered⟩ | ⟨-, -, hdelivered⟩
    · rw [hdelivered, WordMap.find?_insert] at hq
      by_cases hqr : q = round
      · subst hqr
        rw [if_pos rfl] at hq
        rw [hself, h.awaited q hawaited, ← hq]
        rfl
      · rw [if_neg hqr] at hq
        rw [hother q hqr]
        exact h.delivered q first hq
    · rw [hdelivered] at hq
      have hfirst := h.delivered q first hq
      by_cases hqr : q = round
      · subst hqr
        rw [hself, List.head?_append, hfirst]
        rfl
      · rw [hother q hqr]
        exact hfirst

/-- A round starts. -/
theorem Remembers.startRound (h : c.Remembers start) (hunopened : c.stream.started = false → c.stream.pending = none)
    (hgoing : c.stopped = false) {round : UInt64} {time : Timestamp}
    (hok : (c.stream.startRound round time).1 = .ok ()) :
    (c.called (.startRound round time)).Remembers start := by
  have hstarts := StreamState.startRound_spec hok
  have hrounds : roundsStarted (c.calls ++ [(.startRound round time, .ok ())]) = roundsStarted c.calls ++ [round] :=
    roundsStarted_concat _ _
  have hhashes : ∀ q, hashesNotified q (c.calls ++ [(.startRound round time, .ok ())]) = hashesNotified q c.calls := by
    intro q
    rw [hashesNotified_concat]
    exact List.append_nil _
  have hlater : ∀ previous, c.stream.lastRound = some previous → previous < round := by
    intro previous hprevious
    have := hstarts.follows previous hprevious
    rw [UInt64.lt_iff_toNat_lt]
    omega
  refine ⟨?_, ?_, ?_, ?_, ?_, ?_, ?_⟩ <;> simp only [called, StreamState.take, hok]
  · rw [hrounds, List.getLast?_concat]
    exact hstarts.lastRound
  · rw [hrounds]
    exact pairwise_concat h.increasing fun last hlast => hlater last (h.lastRound.trans hlast)
  · rw [hrounds]
    intro hnone
    simp at hnone
  · intro _
    rcases hstarts.block with ⟨block, hblock, hsame, -⟩ | ⟨-, hnone, -⟩
    · rw [hsame]
      refine h.begun fun hunstarted => ?_
      rw [hunopened (h.unstarted hunstarted).1] at hblock
      cases hblock
    · exact hnone
  · intro _ q hq
    have hround := hq round hstarts.lastRound
    rw [hhashes, hstarts.ahead q hround]
    refine h.ahead hgoing q fun previous hprevious => ?_
    exact UInt64.le_trans (UInt64.le_of_lt (hlater previous hprevious)) hround
  · intro q hq
    rw [hhashes]
    rcases hstarts.awaited q hq with hbefore | ⟨hround, rfl, hunknown⟩
    · exact h.awaited q hbefore
    · -- the slot before the round was not started past, so it is empty
      have hslot := h.ahead hgoing (round - 1) fun previous hprevious => by
        have := hstarts.follows previous hprevious
        have := toNat_pred hround
        rw [UInt64.le_iff_toNat_le]
        omega
      cases hlatest : (hashesNotified (round - 1) c.calls).getLast? with
      | none => exact List.getLast?_eq_none_iff.mp hlatest
      | some hash =>
        rw [hlatest] at hslot
        exact absurd hslot (hunknown hash)
  · intro q hash hq
    rw [hhashes]
    exact h.delivered q hash (hstarts.delivered ▸ hq)

/-- A call. -/
theorem Remembers.call (h : c.Remembers start) (hr : c.Regular config policy ledger) (hgoing : c.stopped = false)
    {call : IntakeCall}
    (ht : StreamState.Takes c.stream call (c.stream.take call).1 (c.stream.take call).2.core (c.stream.made call)) :
    (c.called call).Remembers start := by
  by_cases hnotify : ∃ round hash, call = .notify round hash
  · obtain ⟨round, hash, rfl⟩ := hnotify
    exact h.notify round hash
  push Not at hnotify
  have hhashes : ∀ q, hashesNotified q (c.calls ++ [(call, (c.stream.take call).1)]) = hashesNotified q c.calls := by
    intro q
    rw [hashesNotified_concat, notifiedBy_eq_none hnotify]
    exact List.append_nil _
  cases hstart : startedBy (call, (c.stream.take call).1) with
  | none =>
    have hkeeps := ht.keepsHashes hstart hnotify
    have hrounds : roundsStarted (c.calls ++ [(call, (c.stream.take call).1)]) = roundsStarted c.calls := by
      rw [roundsStarted_concat, hstart]
      exact List.append_nil _
    obtain ⟨hlast, hstarted⟩ := ht.rounds_eq hstart
    exact h.elsewhere hrounds hhashes hlast hstarted hkeeps.initialRound (.inl ⟨hkeeps.slots, rfl⟩) hkeeps.delivered
  | some round =>
    obtain ⟨time, rfl, hok⟩ := startedBy_eq_some hstart
    refine h.startRound (fun hnew => ?_) hgoing hok
    exact (hr.fresh_of_unstarted hnew).pending

/-- **Whatever happens within limits, a stream remembers what it was told.** -/
theorem Remembers.step (h : c.Remembers start) (hr : c.Regular config policy ledger) (happening : Happening σ ω)
    (hlimits : (c.step signer writer happening).WithinLimits) : (c.step signer writer happening).Remembers start := by
  cases happening with
  | call call =>
    rcases c.call_cases call hlimits with hstays | ⟨hgoing, ht, hstep⟩
    · rw [hstays]
      exact h
    · rw [hstep]
      exact h.call hr hgoing ht
  | stop =>
    rw [Course.step]
    split
    · exact h
    · obtain ⟨hslots, hdelivered, hinitial, -⟩ := c.stream.stopIntake_spec
      have hlast : c.stream.stopIntake.core.lastRound = c.stream.lastRound := by
        rw [StreamState.core_stopIntake]
        rfl
      have hstarted : c.stream.stopIntake.core.started = c.stream.started := by
        rw [StreamState.core_stopIntake]
        rfl
      exact h.elsewhere rfl (fun _ => rfl) hlast hstarted hinitial (.inr ⟨hslots, rfl⟩) hdelivered
  | supply hash =>
    have hcore := c.stream.core_supplyInitial hash
    have hkeeps := c.stream.keepsHashes_supplyInitial hash
    exact h.elsewhere rfl (fun _ => rfl) (StreamState.of_core StreamState.lastRound (fun _ => rfl) hcore)
      (StreamState.of_core StreamState.started (fun _ => rfl) hcore) hkeeps.initialRound
      (.inl ⟨hkeeps.slots, rfl⟩) hkeeps.delivered
  | abandon =>
    have hcore := c.stream.core_abandonInitial
    have hkeeps := c.stream.keepsHashes_abandonInitial
    exact h.elsewhere rfl (fun _ => rfl) (StreamState.of_core StreamState.lastRound (fun _ => rfl) hcore)
      (StreamState.of_core StreamState.started (fun _ => rfl) hcore) hkeeps.initialRound
      (.inl ⟨hkeeps.slots, rfl⟩) hkeeps.delivered
  | work duty =>
    have hintake := c.stream.intake_perform signer.recorded writer.recorded c.signer c.store duty
    have hkeeps := StreamState.keepsHashes_perform signer.recorded writer.recorded c.stream c.signer c.store duty
    have hlast := congrArg (·.lastRound) hintake
    have hstarted := congrArg (·.started) hintake
    exact h.elsewhere rfl (fun _ => rfl) hlast hstarted hkeeps.initialRound (.inl ⟨hkeeps.slots, rfl⟩)
      hkeeps.delivered
  | resume => exact h.elsewhere rfl (fun _ => rfl) rfl rfl rfl (.inl ⟨rfl, rfl⟩) rfl
  | signer state => exact h.elsewhere rfl (fun _ => rfl) rfl rfl rfl (.inl ⟨rfl, rfl⟩) rfl
  | store state => exact h.elsewhere rfl (fun _ => rfl) rfl rfl rfl (.inl ⟨rfl, rfl⟩) rfl

theorem remembers_start (config : StreamConfig) (policy : BoundaryPolicy) (start : InitialState)
    (ledger : Option StreamInfo) (signer : σ) (store : ω) :
    (Course.start (.initial config policy start ledger) signer store).Remembers start where
  lastRound := rfl
  increasing := .nil
  unstarted _ := ⟨rfl, rfl⟩
  begun hnone := absurd rfl hnone
  ahead _ _ _ := rfl
  awaited _ hq := by cases hq
  delivered _ _ hq := by cases hq

/-- A session within limits remembers what it was told. -/
theorem remembers_ofSession {signer : Signer σ} {writer : Writer ω} {config : StreamConfig}
    {policy : BoundaryPolicy} {start : InitialState} {ledger : Option StreamInfo} {σ₀ : σ} {ω₀ : ω}
    {hs : List (Happening σ ω)}
    (hlimits : (ofSession signer writer config policy start ledger σ₀ ω₀ hs).WithinLimits) :
    (ofSession signer writer config policy start ledger σ₀ ω₀ hs).Remembers start :=
  (run_induction signer writer (P := fun d => d.Regular config policy ledger ∧ d.Remembers start)
    (fun _ happening ⟨hr, hd⟩ hl => ⟨hr.step happening hl, hd.step hr happening hl⟩)
    ⟨regular_start config policy start ledger σ₀ ω₀, remembers_start config policy start ledger σ₀ ω₀⟩ hlimits).2

end Course

end RoundChain
