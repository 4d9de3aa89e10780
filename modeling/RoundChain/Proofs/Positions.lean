import RoundChain.Proofs.Finalized
import RoundChain.Proofs.Limits
import Mathlib.Data.List.Induction

/-!
# Positions that blocks publish

The position of a chain is kept three times: in the stream, which is ahead of the others, in
ledger state, and in what is reported of blocks in the store. Each block ends with the position
before it. `Course.positions_published` ties them together: after every run, what is reported is
the position after the blocks that were delivered, which ledger state held when the last of
these closed, and which the next block publishes.

## The model

Nobody but the stream begins a boundary here; then the accumulator is idle between calls. What
others do with it is to capture batches: `CapturedLast` says from what happened which batch a
boundary would begin with.
-/

namespace RoundChain

variable {σ ω : Type}

namespace StreamState

variable {s t : StreamState}

/-! ### Boundaries -/

/-- Nobody but the stream begins a boundary, so none is in progress after a call. -/
theorem Takes.idle {call : IntakeCall} {answer : Checked StreamError Unit} {more : Made}
    (ht : Takes s call answer t more) (hidle : s.boundary.phase = .idle) (hcall : ∀ time, call ≠ .beginBoundary time) :
    t.boundary.phase = .idle := by
  cases ht with
  | begun _ => exact absurd rfl (hcall _)
  | @flushed batch boundary hflush =>
    rw [BoundaryAccumulator.flush, hidle] at hflush
    cases hflush
  | starts _ _ hstarts => rwa [hstarts.kept.2.2]
  | ends hends =>
    cases hends with
    | lost _ _ _ _ => rfl
    | closed _ _ _ _ => rfl
    | _ => exact hidle
  | _ => exact hidle

/-- While no boundary is in progress, the end of a round does not fail for the order of boundary operations. -/
theorem endRound_ne_violation (hidle : s.boundary.phase = .idle) (round : UInt64) (text : String) :
    (s.endRound round).1 ≠ refuse (.flushProtocolViolation text) := by
  unfold endRound
  split
  · simp [refuse, violation]
  split
  · simp [refuse]
  rename_i opened time _ _
  unfold closeAtBoundary
  split
  · simp [refuse]
  rename_i block hpending
  split
  · have hclose : s.afterRound.closeBlock block time = _ := closeBlock_of_idle hidle
    rw [afterRound] at hclose
    rw [hclose]
    cases hsealed : block.sealed time (s.capturedAt time) (s.positionAt time) with
    | error e =>
      obtain ⟨cause, rfl⟩ := PendingBlock.sealed_eq_error hsealed
      rw [sealBlock_of_error hsealed]
      simp [refuse]
    | ok closed =>
      rw [sealBlock_of_ok hsealed]
      unfold extendChain
      simp only
      split
      · rename_i e hnext
        obtain ⟨limit, rfl⟩ := nextWord_eq_error hnext
        simp [refuse]
      · rw [(handOver_eq _ _).1]
        split <;> simp [refuse]
  · simp [refuse]

/-- What a boundary begins with changes only when a batch is captured or a boundary is passed. -/
theorem Takes.captured_eq {call : IntakeCall} {answer : Checked StreamError Unit} {more : Made}
    (ht : Takes s call answer t more) (hidle : s.boundary.phase = .idle) (hcapture : ∀ batch, call ≠ .capture batch)
    (hmore : more.batches = []) : t.boundary.captured = s.boundary.captured := by
  cases ht with
  | captured => exact absurd rfl (hcapture _)
  | begun hbegin =>
    unfold BoundaryAccumulator.beginBoundary at hbegin
    split at hbegin
    · cases hbegin
      rfl
    · cases hbegin
  | @flushed batch boundary hflush =>
    rw [BoundaryAccumulator.flush, hidle] at hflush
    cases hflush
  | starts _ _ hstarts => rw [hstarts.kept.2.2]
  | ends hends =>
    cases hends with
    | lost _ _ _ _ => cases hmore
    | closed _ _ _ _ => cases hmore
    | _ => rfl
  | _ => rfl

/-- A boundary that is passed leaves nothing captured. -/
theorem Takes.captured_eq_none {call : IntakeCall} {answer : Checked StreamError Unit} {more : Made}
    (ht : Takes s call answer t more) (hmore : more.batches ≠ []) : t.boundary.captured = none := by
  cases ht with
  | ends hends =>
    cases hends with
    | lost _ _ _ _ => rfl
    | closed _ _ _ _ => rfl
    | _ => exact absurd rfl hmore
  | _ => exact absurd rfl hmore

/-- Only a round that starts opens one. -/
theorem Takes.phase_eq {call : IntakeCall} {answer : Checked StreamError Unit} {more : Made}
    (ht : Takes s call answer t more) {round : UInt64} {time : Timestamp} (hopen : t.phase = .roundOpen round time) :
    s.phase = .roundOpen round time ∨ call = .startRound round time ∧ answer = .ok () := by
  cases ht with
  | starts _ _ hstarts => cases hstarts <;> cases hopen <;> exact .inr ⟨rfl, rfl⟩
  | ends hends =>
    cases hends with
    | refused _ => exact .inl hopen
    | _ => cases hopen
  | _ => exact .inl hopen

/-! ### Blocks that close -/

/-- The end of a round closes a block: what the block ends with, and what ledger state holds then. -/
structure Closes (s : StreamState) (round : UInt64) (block : ClosedBlock) (t : StreamState) : Prop where
  items : ∃ time rest, s.phase = .roundOpen round time ∧
    block.items = rest ++ [(Item.stateChanges (s.boundary.captured.getD ⟨time, []⟩)).encode,
      (Item.stateChanges (BoundaryAccumulator.positionBatch time s.chain)).encode]
  ledger : t.ledger = some (s.chainWith block)

theorem Takes.closes {call : IntakeCall} {answer : Checked StreamError Unit} {more : Made}
    (ht : Takes s call answer t more) {block : ClosedBlock} (hblock : block ∈ more.closed) :
    more.closed = [block] ∧ ∃ round, call = .endRound round ∧ s.Closes round block t := by
  cases ht with
  | ends hends =>
    cases hends with
    | closed hclosing _ hsealed _ =>
      obtain rfl := List.mem_singleton.mp hblock
      exact ⟨rfl, _, rfl, ⟨_, _, (closing?_eq_some_iff.mp hclosing).1, (PendingBlock.sealed_eq_ok hsealed).items⟩, rfl⟩
    | _ => cases hblock
  | _ => cases hblock

end StreamState

namespace Course

variable {signer : Signer σ} {writer : Writer ω} {config : StreamConfig} {policy : BoundaryPolicy}
  {start : InitialState} {ledger : Option StreamInfo} {c : Course σ ω}

/-! ### Steps -/

theorem WithinLimits.of_step {happening : Happening σ ω} (h : (c.step signer writer happening).WithinLimits) :
    c.WithinLimits :=
  fun entry hentry => h entry ((c.calls_step happening).subset hentry)

/-- A step is a call that is taken, or it makes nothing and leaves the boundary alone. -/
theorem step_cases (c : Course σ ω) (happening : Happening σ ω)
    (hlimits : (c.step signer writer happening).WithinLimits) :
    (∃ call, happening = .call call ∧ c.stopped = false ∧ c.step signer writer happening = c.called call ∧
        StreamState.Takes c.stream call (c.stream.take call).1 (c.stream.take call).2.core (c.stream.made call)) ∨
      (c.step signer writer happening).made = c.made ∧
        (c.step signer writer happening).stream.boundary = c.stream.boundary ∧
        ((c.step signer writer happening).stopped = false → c.stopped = false ∧ ∀ call, happening ≠ .call call) := by
  by_cases hcall : ∃ call, happening = .call call
  · obtain ⟨call, rfl⟩ := hcall
    by_cases hgoing : c.stopped = true
    · rw [step, if_pos hgoing]
      refine .inr ⟨rfl, rfl, fun hnot => ?_⟩
      rw [hgoing] at hnot
      cases hnot
    rcases c.call_cases call hlimits with hstays | ⟨hnot, ht, hstep⟩
    · rw [step, if_neg hgoing] at hstays
      have hlength := congrArg (fun d : Course σ ω => d.calls.length) hstays
      simp only [List.length_append, List.length_singleton] at hlength
      omega
    · exact .inl ⟨call, rfl, hnot, hstep, ht⟩
  push Not at hcall
  have haside : ∀ {stream : StreamState}, stream.intake = c.stream.intake → stream.boundary = c.stream.boundary := by
    intro stream hintake
    have hboundary := congrArg StreamState.boundary hintake
    exact hboundary
  right
  cases happening with
  | call call => exact absurd rfl (hcall call)
  | stop =>
    rw [step]
    split
    · exact ⟨rfl, rfl, fun hgoing => ⟨hgoing, hcall⟩⟩
    · have hboundary : c.stream.stopIntake.core.boundary = c.stream.boundary := by
        rw [StreamState.core_stopIntake]
        rfl
      exact ⟨rfl, hboundary, fun hgoing => Bool.noConfusion hgoing⟩
  | supply hash =>
    exact ⟨rfl, haside (StreamState.intake_of_core_eq (c.stream.core_supplyInitial hash)),
      fun hgoing => ⟨hgoing, hcall⟩⟩
  | abandon =>
    exact ⟨rfl, haside (StreamState.intake_of_core_eq c.stream.core_abandonInitial), fun hgoing => ⟨hgoing, hcall⟩⟩
  | work duty => exact ⟨rfl, haside (c.stream.intake_perform _ _ _ _ duty), fun hgoing => ⟨hgoing, hcall⟩⟩
  | _ => exact ⟨rfl, rfl, fun hgoing => ⟨hgoing, hcall⟩⟩

/-- An open round has been started, with its time. -/
def Opened (c : Course σ ω) : Prop :=
  ∀ round time, c.stream.phase = .roundOpen round time → (.startRound round time, .ok ()) ∈ c.calls

theorem Moves.opened {d : Course σ ω} (hd : c.Moves d) (h : c.Opened) : d.Opened := by
  cases hd with
  | stays => exact h
  | @takes call _ ht =>
    intro round time hopen
    rcases ht.phase_eq hopen with hbefore | ⟨rfl, hok⟩
    · exact List.mem_append_left _ (h round time hbefore)
    · exact List.mem_append_right _ (List.mem_singleton.mpr (Prod.ext rfl hok.symm))
  | stops _ =>
    intro round time hopen
    have hphase : c.stream.stopIntake.core.phase = .awaitingRound := by rw [StreamState.core_stopIntake]
    cases hphase.symm.trans hopen
  | aside hintake =>
    intro round time hopen
    exact h round time ((congrArg StreamState.phase hintake).symm.trans hopen)

/-! ### What has been captured -/

/-- The batch that a boundary after `hs` begins with: the one that was captured last, unless a boundary has been
passed since. -/
def CapturedLast (session : List (Happening σ ω) → Course σ ω) (hs : List (Happening σ ω)) :
    Option ChangeBatch → Prop
  | some batch => ∃ before between, hs = before ++ .call (.capture batch) :: between ∧
      (∀ other, .call (.capture other) ∉ between) ∧ (session before).made.batches = (session hs).made.batches
  | none => ∀ before batch between, hs = before ++ .call (.capture batch) :: between →
      (session before).made.batches ≠ (session hs).made.batches

section

variable {session : List (Happening σ ω) → Course σ ω} {hs : List (Happening σ ω)} {happening : Happening σ ω}

/-- A capture that is not the newest happening came before. -/
theorem capture_before (hother : ∀ batch, happening ≠ .call (.capture batch)) {before between : List (Happening σ ω)}
    {batch : ChangeBatch} (h : hs ++ [happening] = before ++ .call (.capture batch) :: between) :
    ∃ between', hs = before ++ .call (.capture batch) :: between' := by
  rcases List.eq_nil_or_concat between with rfl | ⟨between', last, rfl⟩
  · exact absurd (List.singleton_inj.mp (List.append_inj_right' h rfl)) (hother batch)
  · rw [List.concat_eq_append, ← List.cons_append, ← List.append_assoc] at h
    exact ⟨between', List.append_inj_left' h rfl⟩

theorem CapturedLast.other {captured : Option ChangeBatch} (h : CapturedLast session hs captured)
    (hother : ∀ batch, happening ≠ .call (.capture batch))
    (hsame : (session (hs ++ [happening])).made.batches = (session hs).made.batches) :
    CapturedLast session (hs ++ [happening]) captured := by
  cases captured with
  | some batch =>
    obtain ⟨before, between, hbefore, hnone, hbatches⟩ := h
    refine ⟨before, between ++ [happening], by rw [hbefore]; simp, fun other hmem => ?_, hbatches.trans hsame.symm⟩
    rcases List.mem_append.mp hmem with hmem | hmem
    · exact hnone other hmem
    · exact hother other (List.mem_singleton.mp hmem).symm
  | none =>
    intro before batch between hbefore
    obtain ⟨between', hbefore'⟩ := capture_before hother hbefore
    rw [hsame]
    exact h before batch between' hbefore'

theorem CapturedLast.passed (hother : ∀ batch, happening ≠ .call (.capture batch))
    (hpassed : ∀ before, before <+: hs → (session before).made.batches ≠ (session (hs ++ [happening])).made.batches) :
    CapturedLast session (hs ++ [happening]) none := by
  intro before batch between hbefore
  obtain ⟨between', hbefore'⟩ := capture_before hother hbefore
  exact hpassed before ⟨_, hbefore'.symm⟩

/-- A call that is taken changes what is captured as the history says. -/
theorem CapturedLast.called {call : IntakeCall} (h : CapturedLast session hs (session hs).stream.boundary.captured)
    (hstep : session (hs ++ [.call call]) = (session hs).called call)
    (hidle : (session hs).stream.boundary.phase = .idle)
    (ht : StreamState.Takes (session hs).stream call ((session hs).stream.take call).1
      ((session hs).stream.take call).2.core ((session hs).stream.made call))
    (hgrown : ∀ before, before <+: hs → (session before).made.batches <+: (session hs).made.batches) :
    CapturedLast session (hs ++ [.call call]) (session (hs ++ [.call call])).stream.boundary.captured := by
  have hbatches : (session (hs ++ [.call call])).made.batches =
      (session hs).made.batches ++ ((session hs).stream.made call).batches := by
    rw [hstep]
    rfl
  have hcaptured : (session (hs ++ [.call call])).stream.boundary.captured =
      ((session hs).stream.take call).2.core.boundary.captured := by
    rw [hstep]
    rfl
  by_cases hcapture : ∃ batch, call = .capture batch
  · obtain ⟨batch, rfl⟩ := hcapture
    rw [hcaptured]
    refine ⟨hs, [], rfl, fun _ hmem => (by cases hmem), ?_⟩
    rw [hbatches]
    exact (List.append_nil _).symm
  have hother : ∀ batch, (.call call : Happening σ ω) ≠ .call (.capture batch) := by
    rintro batch ⟨⟩
    exact hcapture ⟨batch, rfl⟩
  by_cases hmore : ((session hs).stream.made call).batches = []
  · rw [hcaptured, ht.captured_eq hidle (fun batch hbatch => hcapture ⟨batch, hbatch⟩) hmore]
    exact h.other hother (by rw [hbatches, hmore, List.append_nil])
  · rw [hcaptured, ht.captured_eq_none hmore]
    refine CapturedLast.passed hother fun before hbefore hsame => ?_
    -- the boundary adds batches to those of every earlier time
    have hle := (hgrown before hbefore).length_le
    have hlength := congrArg List.length hsame
    rw [hbatches, List.length_append] at hlength
    have := List.length_pos_of_ne_nil hmore
    omega

end

/-! ### When blocks close -/

/-- On the way to `hs` the end of a round closes `block`, when the first `i` of the blocks have closed. -/
def ClosesAfter (session : List (Happening σ ω) → Course σ ω) (hs : List (Happening σ ω)) (closed : List ClosedBlock)
    (i : Nat) (block : ClosedBlock) : Prop :=
  ∃ earlier round later, hs = earlier ++ .call (.endRound round) :: later ∧ (session earlier).stopped = false ∧
    (session earlier).made.closed = closed.take i ∧
    (session (earlier ++ [.call (.endRound round)])).made.closed = closed.take (i + 1) ∧
    (session earlier).stream.Closes round block (session (earlier ++ [.call (.endRound round)])).stream

theorem ClosesAfter.mono {session : List (Happening σ ω) → Course σ ω} {hs : List (Happening σ ω)}
    {closed : List ClosedBlock} {i : Nat} {block : ClosedBlock} (h : ClosesAfter session hs closed i block)
    (hi : i < closed.length) (happening : Happening σ ω) (more : List ClosedBlock) :
    ClosesAfter session (hs ++ [happening]) (closed ++ more) i block := by
  obtain ⟨earlier, round, later, rfl, hgoing, htake, htake', hcloses⟩ := h
  refine ⟨earlier, round, later ++ [happening], by simp, hgoing, ?_, ?_, hcloses⟩
  · rw [htake, List.take_append_of_le_length (Nat.le_of_lt hi)]
  · rw [htake', List.take_append_of_le_length hi]

/-! ### Sessions -/

section

variable (signer : Signer σ) (writer : Writer ω) (config : StreamConfig) (policy : BoundaryPolicy)
  (start : InitialState) (ledger : Option StreamInfo) (σ₀ : σ) (ω₀ : ω) {hs : List (Happening σ ω)}

theorem opened_ofSession (hlimits : (ofSession signer writer config policy start ledger σ₀ ω₀ hs).WithinLimits) :
    (ofSession signer writer config policy start ledger σ₀ ω₀ hs).Opened :=
  run_induction signer writer (P := Opened) (fun d happening hd hl => (d.moves_step happening hl).opened hd)
    (fun _ _ hopen => by cases hopen) hlimits

/-- If nobody else begins a boundary, none is in progress. -/
theorem idle_ofSession (hlimits : (ofSession signer writer config policy start ledger σ₀ ω₀ hs).WithinLimits)
    (hunbegun : ∀ time, .call (.beginBoundary time) ∉ hs) :
    (ofSession signer writer config policy start ledger σ₀ ω₀ hs).stream.boundary.phase = .idle := by
  induction hs using List.reverseRecOn with
  | nil => rfl
  | append_singleton hs happening ih =>
    rw [ofSession_append] at hlimits ⊢
    have hidle := ih hlimits.of_run fun time hmem => hunbegun time (List.mem_append_left _ hmem)
    rcases step_cases _ happening hlimits with ⟨call, rfl, -, hstep, ht⟩ | ⟨-, hboundary, -⟩
    · have hcall : ∀ time, call ≠ .beginBoundary time := by
        rintro time rfl
        exact hunbegun time (List.mem_append_right _ (List.mem_singleton_self _))
      rw [run, List.foldl_cons, List.foldl_nil, hstep]
      exact ht.idle hidle hcall
    · rw [run, List.foldl_cons, List.foldl_nil, hboundary]
      exact hidle

/-- What is captured while intake goes on is what the history says. -/
theorem capturedLast_ofSession
    (hlimits : (ofSession signer writer config policy start ledger σ₀ ω₀ hs).WithinLimits)
    (hunbegun : ∀ time, .call (.beginBoundary time) ∉ hs)
    (hgoing : (ofSession signer writer config policy start ledger σ₀ ω₀ hs).stopped = false) :
    CapturedLast (ofSession signer writer config policy start ledger σ₀ ω₀) hs
      (ofSession signer writer config policy start ledger σ₀ ω₀ hs).stream.boundary.captured := by
  induction hs using List.reverseRecOn with
  | nil =>
    intro before batch between hbefore
    cases before <;> cases hbefore
  | append_singleton hs happening ih =>
    rw [ofSession_concat] at hlimits hgoing
    have hbefore := hlimits.of_step
    have hunbegun' : ∀ time, .call (.beginBoundary time) ∉ hs :=
      fun time hmem => hunbegun time (List.mem_append_left _ hmem)
    rcases step_cases _ happening hlimits with ⟨call, rfl, hnot, hstep, ht⟩ | ⟨hmade, hboundary, hstopped⟩
    · refine (ih hbefore hunbegun' hnot).called ((ofSession_concat ..).trans hstep)
        (idle_ofSession signer writer config policy start ledger σ₀ ω₀ hbefore hunbegun') ht ?_
      rintro before ⟨rest, rfl⟩
      obtain ⟨more, hmore⟩ :=
        made_run signer writer (ofSession signer writer config policy start ledger σ₀ ω₀ before) rest
      rw [ofSession_append, hmore]
      exact List.prefix_append ..
    · obtain ⟨hnot, hcall⟩ := hstopped hgoing
      rw [ofSession_concat, hboundary]
      exact (ih hbefore hunbegun' hnot).other (fun batch => hcall _) (by rw [ofSession_concat, hmade])

/-- **Every closed block has closed at some time.** -/
theorem exists_closing (hlimits : (ofSession signer writer config policy start ledger σ₀ ω₀ hs).WithinLimits)
    {i : Nat} {block : ClosedBlock}
    (hblock : (ofSession signer writer config policy start ledger σ₀ ω₀ hs).made.closed[i]? = some block) :
    ClosesAfter (ofSession signer writer config policy start ledger σ₀ ω₀) hs
      (ofSession signer writer config policy start ledger σ₀ ω₀ hs).made.closed i block := by
  induction hs using List.reverseRecOn with
  | nil => cases hblock
  | append_singleton hs happening ih =>
    rw [ofSession_concat] at hlimits hblock ⊢
    have hearlier := ih hlimits.of_step
    rcases step_cases _ happening hlimits with ⟨call, rfl, hgoing, hstep, ht⟩ | ⟨hmade, -, -⟩
    · rw [hstep] at hblock ⊢
      by_cases hold : i < (ofSession signer writer config policy start ledger σ₀ ω₀ hs).made.closed.length
      · exact (hearlier ((List.getElem?_append_left hold).symm.trans hblock)).mono hold _ _
      -- the block is the one that the call closes
      have hnew := (List.getElem?_append_right (Nat.le_of_not_lt hold)).symm.trans hblock
      obtain ⟨hone, round, rfl, hcloses⟩ := ht.closes (List.mem_of_getElem? hnew)
      rw [hone] at hnew
      obtain ⟨hi, -⟩ := List.getElem?_eq_some_iff.mp hnew
      obtain rfl : i = (ofSession signer writer config policy start ledger σ₀ ω₀ hs).made.closed.length := by
        rw [List.length_singleton] at hi
        omega
      refine ⟨hs, round, [], rfl, hgoing, ?_, ?_, hcloses.items, ?_⟩
      · exact List.take_left.symm
      · rw [ofSession_concat, hstep]
        refine (List.take_of_length_le ?_).symm
        simp only [called, Made.add, hone, List.length_append, List.length_singleton, Nat.le_refl]
      · rw [ofSession_concat, hstep]
        exact hcloses.ledger
    · rw [hmade] at hblock ⊢
      obtain ⟨hold, -⟩ := List.getElem?_eq_some_iff.mp hblock
      have hmore := (hearlier hblock).mono hold happening []
      rwa [List.append_nil] at hmore

/-- The chain that a session had at an earlier time is one chain at different lengths. -/
theorem chain_of_earlier {earlier : List (Happening σ ω)} (hearlier : earlier <+: hs)
    (hlimits : (ofSession signer writer config policy start ledger σ₀ ω₀ hs).WithinLimits) {info : StreamInfo}
    (hinfo : (ofSession signer writer config policy start ledger σ₀ ω₀ hs).Continues ledger config.version info)
    (hbegun : (ofSession signer writer config policy start ledger σ₀ ω₀ earlier).stream.phase ≠ .awaitingRound ∨
      (ofSession signer writer config policy start ledger σ₀ ω₀ earlier).stream.started = true) :
    (ofSession signer writer config policy start ledger σ₀ ω₀ earlier).stream.chain =
      info.recordAll (ofSession signer writer config policy start ledger σ₀ ω₀ earlier).made.closed
        config.trailingLimit := by
  obtain ⟨later, rfl⟩ := hearlier
  have hregular := regular_ofSession hlimits
  rw [ofSession_append] at hlimits hinfo hregular
  have hbefore := regular_ofSession hlimits.of_run
  have hcalls : (ofSession signer writer config policy start ledger σ₀ ω₀ earlier).calls <+:
      ((ofSession signer writer config policy start ledger σ₀ ω₀ earlier).run signer writer later).calls :=
    calls_run _ later
  rcases hbefore.progress with ⟨hfresh, -⟩ | ⟨other, hother, hgrown, -⟩
  · rcases hbegun with hbegun | hbegun
    · exact absurd hfresh.phase hbegun
    · cases hfresh.started.symm.trans hbegun
  · obtain rfl := hregular.continues_unique hinfo (hother.mono hcalls.subset)
    rw [hgrown.chain, hbefore.settings]

/-- What is reported is a chain that the stream had at some time. -/
theorem exists_chain_of_reported
    (hlimits : (ofSession signer writer config policy start ledger σ₀ ω₀ hs).WithinLimits) {info : StreamInfo}
    (hafter : (ofSession signer writer config policy start ledger σ₀ ω₀ hs).stream.started = true →
      (ofSession signer writer config policy start ledger σ₀ ω₀ hs).Continues ledger config.version info)
    (hbefore : (ofSession signer writer config policy start ledger σ₀ ω₀ hs).stream.started = false →
      info = .anchored .zero config.version)
    {k : Nat} (hk : k ≤ (ofSession signer writer config policy start ledger σ₀ ω₀ hs).made.closed.length) :
    ∃ earlier, earlier <+: hs ∧ (ofSession signer writer config policy start ledger σ₀ ω₀ earlier).stream.chain =
      info.recordAll ((ofSession signer writer config policy start ledger σ₀ ω₀ hs).made.closed.take k)
        config.trailingLimit := by
  cases hstarted : (ofSession signer writer config policy start ledger σ₀ ω₀ hs).stream.started with
  | false =>
    refine ⟨[], List.nil_prefix, ?_⟩
    rcases (regular_ofSession hlimits).progress with ⟨-, hmade, -⟩ | ⟨other, -, hgrown, -⟩
    · rw [hbefore hstarted, hmade, List.take_nil]
      rfl
    · cases hgrown.started.symm.trans hstarted
  | true =>
    have hinfo := hafter hstarted
    rcases Nat.lt_or_eq_of_le hk with hlt | rfl
    · obtain ⟨earlier, round, later, rfl, -, htake, -, hcloses⟩ :=
        exists_closing signer writer config policy start ledger σ₀ ω₀ hlimits (List.getElem?_eq_getElem hlt)
      obtain ⟨time, rest, hopen, -⟩ := hcloses.items
      refine ⟨earlier, List.prefix_append .., ?_⟩
      rw [← htake]
      exact chain_of_earlier signer writer config policy start ledger σ₀ ω₀ (List.prefix_append ..) hlimits hinfo
        (.inl (by rw [hopen]; exact Phase.noConfusion))
    · refine ⟨hs, List.prefix_rfl, ?_⟩
      rw [List.take_length]
      exact chain_of_earlier signer writer config policy start ledger σ₀ ω₀ List.prefix_rfl hlimits hinfo
        (.inr hstarted)

/-- **Every block publishes the position before it, and what is reported is a position of an earlier time.** In every
session within limits in which nobody else begins a boundary:

* each closed block ends with the batch that was captured last, or an empty one at the time of its last round, and
  then with one batch at that time that holds the position before the block; when it closes, the position with it is
  put into ledger state;
* what is reported is the position after the first `k` closed blocks, as many as the store has and the stream has
  noticed, and this was the stream's own chain at an earlier time;
* no round fails to end because boundary operations were out of order. -/
theorem positions_published (hs : List (Happening σ ω))
    (hlimits : (ofSession signer writer config policy start ledger σ₀ ω₀ hs).WithinLimits)
    (hunbegun : ∀ time, .call (.beginBoundary time) ∉ hs) :
    let session := ofSession signer writer config policy start ledger σ₀ ω₀
    let c := session hs
    ∃ info, (c.stream.started = true → c.Continues ledger config.version info) ∧
      let position := fun k => info.recordAll (c.made.closed.take k) config.trailingLimit
      (∀ i block, c.made.closed[i]? = some block → ∃ earlier round time later captured rest,
        hs = earlier ++ .call (.endRound round) :: later ∧
        (session earlier).made.closed = c.made.closed.take i ∧
        (session (earlier ++ [.call (.endRound round)])).made.closed = c.made.closed.take (i + 1) ∧
        (session (earlier ++ [.call (.endRound round)])).stream.ledger = some (position (i + 1)) ∧
        (.startRound round time, .ok ()) ∈ (session earlier).calls ∧
        CapturedLast session earlier captured ∧
        block.items = rest ++ [(Item.stateChanges (captured.getD ⟨time, []⟩)).encode,
          (Item.stateChanges (BoundaryAccumulator.positionBatch time (position i))).encode]) ∧
      (∃ k, k ≤ c.made.closed.length ∧ (deliveries c.store.2).length = k + c.stream.unnoticed ∧
        c.stream.finalized = position k ∧
        ∃ earlier, earlier <+: hs ∧ (session earlier).stream.chain = c.stream.finalized) ∧
      ∀ round text, (.endRound round, refuse (.flushProtocolViolation text)) ∉ c.calls := by
  intro session c
  have hregular : c.Regular config policy ledger := regular_ofSession hlimits
  obtain ⟨info, k, hreports, hafter, hbefore⟩ := reporting_ofSession hlimits
  have hearlier : ∀ {earlier later}, hs = earlier ++ later → (session earlier).WithinLimits ∧
      ∀ time, .call (.beginBoundary time) ∉ earlier := by
    rintro earlier later rfl
    rw [ofSession_append] at hlimits
    exact ⟨hlimits.of_run, fun time hmem => hunbegun time (List.mem_append_left _ hmem)⟩
  refine ⟨info, hafter, ?_, ⟨k, hreports.reached, hreports.delivered, ?_, ?_⟩, ?_⟩
  · intro i block hblock
    obtain ⟨earlier, round, later, hhs, hgoing, htake, htake', hcloses⟩ :=
      exists_closing signer writer config policy start ledger σ₀ ω₀ hlimits hblock
    obtain ⟨hwithin, hunbegun'⟩ := hearlier hhs
    obtain ⟨time, rest, hopen, hitems⟩ := hcloses.items
    have hstarted : c.stream.started = true := by
      rcases hregular.progress with ⟨-, hmade, -⟩ | ⟨other, -, hgrown, -⟩
      · rw [hmade] at hblock
        cases hblock
      · exact hgrown.started
    have hchain : (session earlier).stream.chain = info.recordAll (c.made.closed.take i) config.trailingLimit := by
      rw [← htake]
      exact chain_of_earlier signer writer config policy start ledger σ₀ ω₀ ⟨_, hhs.symm⟩ hlimits (hafter hstarted)
        (.inl (by rw [hopen]; exact Phase.noConfusion))
    refine ⟨earlier, round, time, later, _, rest, hhs, htake, htake', ?_, ?_, ?_, hchain ▸ hitems⟩
    · obtain ⟨hlt, rfl⟩ := List.getElem?_eq_some_iff.mp hblock
      show _ = some (info.recordAll (c.made.closed.take (i + 1)) config.trailingLimit)
      rw [hcloses.ledger, StreamState.chainWith, hchain, (regular_ofSession hwithin).settings,
        List.take_succ_eq_append_getElem hlt, StreamInfo.recordAll_concat]
    · exact opened_ofSession signer writer config policy start ledger σ₀ ω₀ hwithin round time hopen
    · exact capturedLast_ofSession signer writer config policy start ledger σ₀ ω₀ hwithin hunbegun' hgoing
  · rw [hreports.finalized, hregular.settings]
  · rw [hreports.finalized, hregular.settings]
    exact exists_chain_of_reported signer writer config policy start ledger σ₀ ω₀ hlimits hafter hbefore
      hreports.reached
  · intro round text hmem
    obtain ⟨before, after, hcalls⟩ := List.append_of_mem hmem
    obtain ⟨earlier, later, hhs, -, -, hanswer⟩ := session_of_entry hcalls
    obtain ⟨hwithin, hunbegun'⟩ := hearlier hhs
    have hidle := idle_ofSession signer writer config policy start ledger σ₀ ω₀ hwithin hunbegun'
    exact StreamState.endRound_ne_violation hidle round text hanswer.symm

end

/-- Two rounds, the first with a captured batch; only its block is written. -/
def twoPositions : List (Happening SchemeSigner MemoryStore) :=
  [.call (.initLastHash .zero), .call (.startRound 1 ⟨⟨0⟩, 0⟩), .call (.capture ⟨⟨⟨0⟩, 5⟩, []⟩), .call (.endRound 1),
    .call (.startRound 2 ⟨⟨1⟩, 0⟩), .call (.endRound 2), .work .takeUp, .work (.sign 0), .work .consider, .work .write]

/-- The session of these rounds after a part of what happened, with blocks in memory. -/
def positionSession : List (Happening SchemeSigner MemoryStore) → Course SchemeSigner MemoryStore :=
  ofSession SchemeSigner.signer MemoryStore.writer {} .configured ⟨0, Promise.resolved .zero⟩ none
    SchemeSigner.trivial MemoryStore.new

set_option maxRecDepth 10000 in
theorem positions_published_two_rounds :
    (positionSession twoPositions).WithinLimits ∧ (∀ time, .call (.beginBoundary time) ∉ twoPositions) ∧
      (positionSession twoPositions).made.closed.length = 2 ∧
      (positionSession twoPositions).stream.finalized ≠ (positionSession twoPositions).stream.chain ∧
      ∃ earlier, earlier <+: twoPositions ∧
        (positionSession earlier).stream.chain = (positionSession twoPositions).stream.finalized := by
  have hlimits : (positionSession twoPositions).WithinLimits := by decide +kernel
  have hunbegun : ∀ time, .call (.beginBoundary time) ∉ twoPositions := by
    intro time hmem
    simp [twoPositions] at hmem
  obtain ⟨info, -, -, ⟨k, -, -, -, hpast⟩, -⟩ := positions_published SchemeSigner.signer MemoryStore.writer {}
    .configured ⟨0, Promise.resolved .zero⟩ none SchemeSigner.trivial MemoryStore.new twoPositions hlimits hunbegun
  exact ⟨hlimits, hunbegun, by decide +kernel, by decide +kernel, hpast⟩

end Course

end RoundChain
