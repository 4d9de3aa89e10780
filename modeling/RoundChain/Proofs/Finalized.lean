import RoundChain.Proofs.ChainProduction

/-!
# What is reported of written blocks

A stream reports the position of the chain through the newest block that it has noticed in the
store. Every duty keeps this the position after the first of the closed blocks, as many as were
delivered, `StreamState.Reports.perform`; only a write that has ended while the stream still
waits for its attempts is not counted yet.

## The model

`StreamState.Flow` speaks of the reported position only while production goes on. Here the
position is followed through a halt, which drops blocks but takes nothing back.
-/

namespace RoundChain

variable {σ ω : Type}

/-- How many blocks a write has brought: one if it has ended well. -/
def BlockWrite.brought (write : BlockWrite) : Nat :=
  match write.outcome with
  | some (.ok ()) => 1
  | _ => 0

theorem BlockWrite.Heard.deliveries_length {size : Nat} {write : BlockWrite} {block : ClosedBlock} {more : WriteLog}
    (h : write.Heard size block more) (log : WriteLog) :
    (deliveries (log ++ more)).length = (deliveries log).length + write.brought := by
  obtain ⟨startState, signature, outcome⟩ := write
  match outcome with
  | none =>
    obtain rfl : more = [] := h
    rw [List.append_nil]
    rfl
  | some (.error _) =>
    rw [deliveries_append_of_quiet (Written.Trying.concerns h).2]
    rfl
  | some (.ok ()) =>
    obtain ⟨d, -, hd⟩ := Written.Storing.deliveries_append h log
    rw [hd, List.length_append]
    rfl

namespace StreamState

variable {s t : StreamState} {closed : List ClosedBlock} {signed : SignLog} {writes : WriteLog}
  {base other : StreamInfo}

/-- How many blocks the store has that the stream has not noticed yet. -/
def unnoticed (s : StreamState) : Nat := s.writing.elim 0 BlockWrite.brought

/-- What the store was told of the first queued block adds the delivery that the stream has not noticed yet. -/
theorem Underway.deliveries_length {log : WriteLog} (h : s.Underway signed log) (before : WriteLog) :
    (deliveries (before ++ log)).length = (deliveries before).length + s.unnoticed := by
  cases hwriting : s.writing with
  | none =>
    rw [h.idle hwriting, List.append_nil, unnoticed, hwriting]
    rfl
  | some write =>
    obtain ⟨queued, rest, -, -, hheard⟩ := h.begun write hwriting
    rw [hheard.deliveries_length, unnoticed, hwriting]
    rfl

/-- How many blocks the store has: those before the first queued one, and this one if it is unnoticed. -/
theorem Flow.counted (h : s.Flow closed signed writes base) :
    ∃ n, (deliveries writes).length = n + s.unnoticed ∧ n ≤ closed.length ∧
      ∀ queued rest, s.queue = queued :: rest → closed[n]? = some queued.block := by
  obtain ⟨stored, log, more, hstored, rfl, -, hs⟩ := h.store
  have hlength : (deliveries log).length = stored.length := hstored.brings.length_eq
  rcases hs with ⟨-, hs⟩ | ⟨-, hs⟩
  · refine ⟨stored.length, ?_, ?_, ?_⟩
    · rw [hs.underway.deliveries_length, hlength]
    · rw [← hs.blocks]
      simp only [List.length_append, List.length_map]
      omega
    · intro queued rest hq
      rw [← hs.blocks, hq]
      simp
  · refine ⟨stored.length, ?_, ?_, ?_⟩
    · have hquiet : deliveries (log ++ more) = deliveries log := by
        rcases hs.tried with rfl | ⟨next, -, htrying⟩
        · rw [List.append_nil]
        · exact deliveries_append_of_quiet htrying.concerns.2
      rw [hquiet, hlength, unnoticed, hs.writing]
      rfl
    · have hle := hs.blocks.length_le
      rwa [List.length_map] at hle
    · intro queued rest hq
      rw [hs.queue] at hq
      cases hq

/-- While a stream goes on, the blocks in its queue and its backlog are the last of those that closed, and the store has
the others. -/
theorem Flow.waiting (h : s.Flow closed signed writes base) (hlive : s.halted = none) :
    s.queue.map QueuedBlock.block ++ s.backlog <:+ closed ∧
      (deliveries writes).length + (s.queue.length + s.backlog.length) = closed.length + s.unnoticed := by
  obtain ⟨stored, log, more, hstored, rfl, -, hs⟩ := h.store
  rcases hs with ⟨-, hs⟩ | ⟨hhalted, -⟩
  · refine ⟨⟨stored.map Written.block, ?_⟩, ?_⟩
    · rw [← List.append_assoc, hs.blocks]
    · rw [hs.underway.deliveries_length, hstored.brings.length_eq, ← hs.blocks]
      simp only [List.length_append, List.length_map]
      omega
  · exact absurd hlive hhalted

/-! ### Reports -/

/-- What a stream reports is the position after the first `k` closed blocks, the ones in the store. -/
structure Reports (base : StreamInfo) (closed : List ClosedBlock) (writes : WriteLog) (s : StreamState) (k : Nat) :
    Prop where
  reached : k ≤ closed.length
  delivered : (deliveries writes).length = k + s.unnoticed
  finalized : s.finalized = base.recordAll (closed.take k) s.config.trailingLimit

variable {k : Nat}

/-- What reports depend on. -/
def report (s : StreamState) : StreamInfo × Nat × Nat := (s.finalized, s.unnoticed, s.config.trailingLimit)

theorem Reports.of_report_eq (h : s.Reports base closed writes k) (ht : t.report = s.report) :
    t.Reports base closed writes k := by
  have hfinalized : t.finalized = s.finalized := congrArg (·.1) ht
  have hunnoticed : t.unnoticed = s.unnoticed := congrArg (·.2.1) ht
  have hlimit : t.config.trailingLimit = s.config.trailingLimit := congrArg (·.2.2) ht
  exact ⟨h.reached, by rw [h.delivered, hunnoticed], by rw [hfinalized, h.finalized, hlimit]⟩

/-- Blocks that close do not change what is reported. -/
theorem Reports.mono (h : s.Reports base closed writes k) (more : List ClosedBlock) :
    s.Reports base (closed ++ more) writes k := by
  refine ⟨Nat.le_trans h.reached ?_, h.delivered, ?_⟩
  · rw [List.length_append]
    omega
  · rw [List.take_append_of_le_length h.reached]
    exact h.finalized

/-- A stream that has closed nothing reports where it stands. -/
theorem Flow.reports_nil (h : s.Flow [] signed writes other) (hfinalized : s.finalized = base) :
    s.Reports base [] writes 0 := by
  obtain ⟨n, hdelivered, hreached, -⟩ := h.counted
  obtain rfl : n = 0 := Nat.le_zero.mp hreached
  exact ⟨hreached, hdelivered, hfinalized⟩

/-- The first queued block is the next one to report. -/
theorem Reports.queued_at (h : s.Reports base closed writes k) (hf : s.Flow closed signed writes other)
    {queued : QueuedBlock} {rest : List QueuedBlock} (hq : s.queue = queued :: rest) :
    closed[k]? = some queued.block := by
  obtain ⟨n, hdelivered, -, hnext⟩ := hf.counted
  have hcount := h.delivered
  obtain rfl : n = k := by omega
  exact hnext queued rest hq

/-! ### Duties that report nothing -/

section

variable (s : StreamState)

/-- A halt takes nothing back. -/
theorem report_halt (e : StreamError) : (s.halt e).report = (s.finalized, 0, s.config.trailingLimit) :=
  (of_plain report (fun _ => rfl) (s.plain_halt e)).trans rfl

theorem report_consider : s.consider.1.report = s.report := by
  rcases s.consider_cases with h | ⟨hidle, ⟨e, h⟩ | ⟨startState, signature, h⟩⟩ <;> rw [h]
  · rw [report_halt, report, unnoticed, hidle]
    rfl
  · rw [report, report, unnoticed, unnoticed, hidle]
    rfl

end

/-! ### Writes that end -/

/-- The end of the write of the next block: it is reported now, or production stops. -/
theorem reports_endWrite {block : ClosedBlock} (hnext : closed[k]? = some block)
    (hfinalized : s.finalized = base.recordAll (closed.take k) s.config.trailingLimit)
    {startState : BlockHash} {signature : BlockSignature} {outcome : Except StreamError Unit}
    (hdelivered : (deliveries writes).length = k + BlockWrite.brought ⟨startState, signature, some outcome⟩) :
    ∃ k', (s.endWrite block outcome).1.Reports base closed writes k' := by
  obtain ⟨hlt, hget⟩ := List.getElem?_eq_some_iff.mp hnext
  cases outcome with
  | error e =>
    have hhalted : ({ s with writing := none } : StreamState).Reports base closed writes k :=
      ⟨Nat.le_of_lt hlt, hdelivered, hfinalized⟩
    exact ⟨k, hhalted.of_report_eq (s.report_halt e)⟩
  | ok done =>
    have hrecorded : (({ s with writing := none } : StreamState).recordFinalized block).Reports base closed writes
        (k + 1) := by
      refine ⟨hlt, hdelivered, ?_⟩
      rw [List.take_succ_eq_append_getElem hlt, hget, StreamInfo.recordAll_concat]
      show s.finalized.record _ _ _ _ = _
      rw [hfinalized]
      rfl
    exact ⟨k + 1, hrecorded.of_report_eq (report_consider _)⟩

theorem Reports.noteWritten (h : s.Reports base closed writes k) (hf : s.Flow closed signed writes other) :
    ∃ k', s.noteWritten.1.Reports base closed writes k' := by
  unfold StreamState.noteWritten
  split
  · rename_i startState signature outcome queued rest hw hq
    have hdelivered := h.delivered
    rw [unnoticed, hw] at hdelivered
    exact reports_endWrite (h.queued_at hf hq) h.finalized hdelivered
  · exact ⟨k, h⟩

theorem Reports.write {writer : Writer ω} {u : ω × WriteLog} (h : s.Reports base closed u.2 k)
    (hf : s.Flow closed signed u.2 other) :
    ∃ k', (s.write writer.recorded u).1.Reports base closed (s.write writer.recorded u).2.1.2 k' := by
  unfold StreamState.write
  split
  · rename_i startState signature queued rest hw hq
    have hdelivered := h.delivered
    rw [unnoticed, hw] at hdelivered
    unfold StreamState.writeFirst
    split
    · rename_i e _
      have hhalted : ({ s with writing := none } : StreamState).Reports base closed u.2 k :=
        ⟨h.reached, hdelivered, h.finalized⟩
      exact ⟨k, hhalted.of_report_eq (s.report_halt e)⟩
    · rename_i calls hcalls
      obtain ⟨batches, hframes, hcalls⟩ := bind_eq_ok_iff.mp hcalls
      cases hcalls
      obtain ⟨more, hlog, hheard⟩ := heard_writeBlock writer s.config.writeRetry s.config.batchSize queued.block
        startState signature hframes u s.metrics
      simp only
      generalize writeBlock writer.recorded s.config.writeRetry queued.block.number
        (blockCalls queued.block.number batches (queued.block.proofItem startState signature).encode)
        u s.metrics = r at hlog hheard ⊢
      have hbrought := hheard.deliveries_length u.2
      rw [← hlog, hdelivered] at hbrought
      split
      · exact reports_endWrite (s := { s with metrics := r.2.2 }) (h.queued_at hf hq) h.finalized hbrought
      · exact ⟨k, h.reached, hbrought, h.finalized⟩
  · exact ⟨k, h⟩

/-- **Whatever a duty does, the stream reports the blocks in the store**, as far as it has noticed them. -/
theorem Reports.perform {signer : Signer σ} {writer : Writer ω} {σ₀ : σ} {u : ω × WriteLog}
    (h : s.Reports base closed u.2 k) (hf : s.Flow closed signed u.2 other) (duty : Duty) :
    ∃ k', (s.perform signer writer.recorded duty σ₀ u).1.Reports base closed
      (s.perform signer writer.recorded duty σ₀ u).2.2.1.2 k' := by
  cases duty with
  | consider => exact ⟨k, h.of_report_eq s.report_consider⟩
  | write => exact h.write hf
  | noteWritten => exact h.noteWritten hf
  | _ => exact ⟨k, h.of_report_eq (perform_of_signs signer writer.recorded s σ₀ u report (fun _ => rfl) rfl)⟩

/-! ### Calls -/

/-- A call leaves the report alone, or starts the first round of a session, where the report is the chain. -/
theorem Takes.report_cases {call : IntakeCall} {answer : Checked StreamError Unit} {more : Made}
    (ht : Takes s call answer t more) :
    t.started = s.started ∧ t.report = s.report ∨ s.started = false ∧ t.started = true ∧ t.finalized = t.chain := by
  cases ht with
  | ends hends => cases hends <;> exact .inl ⟨rfl, rfl⟩
  | starts _ _ hstarts =>
    cases hstarts with
    | joined hb _ =>
      cases hb with
      | before _ => exact .inl ⟨rfl, rfl⟩
      | now hnew _ _ => exact .inr ⟨hnew, rfl, rfl⟩
    | opened hb _ _ =>
      cases hb with
      | before _ => exact .inl ⟨rfl, rfl⟩
      | now hnew _ _ => exact .inr ⟨hnew, rfl, rfl⟩
  | _ => exact .inl ⟨rfl, rfl⟩

end StreamState

/-! ### Courses -/

namespace Course

variable {signer : Signer σ} {writer : Writer ω} {config : StreamConfig} {policy : BoundaryPolicy}
  {ledger : Option StreamInfo} {c : Course σ ω}

/-- What is reported is a position of the chain that the session continues, or of the one that a stream stands at
before its first round. -/
def Reporting (config : StreamConfig) (ledger : Option StreamInfo) (c : Course σ ω) : Prop :=
  ∃ info k, c.stream.Reports info c.made.closed c.store.2 k ∧
    (c.stream.started = true → c.Continues ledger config.version info) ∧
    (c.stream.started = false → info = .anchored .zero config.version)

theorem reporting_start (config : StreamConfig) (policy : BoundaryPolicy) (start : InitialState)
    (ledger : Option StreamInfo) (signer : σ) (store : ω) :
    (Course.start (.initial config policy start ledger) signer store).Reporting config ledger :=
  ⟨.anchored .zero config.version, 0, ⟨Nat.le_refl 0, rfl, rfl⟩, fun hnew => Bool.noConfusion hnew, fun _ => rfl⟩

/-- A step that neither reports nor closes anything. -/
theorem Reporting.elsewhere (h : c.Reporting config ledger) {d : Course σ ω} (hcalls : d.calls = c.calls)
    (hmade : d.made = c.made) (hstore : d.store.2 = c.store.2) (hstarted : d.stream.started = c.stream.started)
    (hreport : d.stream.report = c.stream.report) : d.Reporting config ledger := by
  obtain ⟨info, k, hreports, hafter, hbefore⟩ := h
  refine ⟨info, k, ?_, fun hs => ?_, fun hs => hbefore (hstarted ▸ hs)⟩
  · rw [hmade, hstore]
    exact hreports.of_report_eq hreport
  · exact (hafter (hstarted ▸ hs)).mono (by rw [hcalls]; exact List.Subset.refl _)

/-- A call before the first round, or the start of that round, makes nothing. -/
theorem Regular.made_of_new (h : c.Regular config policy ledger) (hnew : c.stream.started = false)
    {call : IntakeCall} {answer : Checked StreamError Unit} {t : StreamState} {more : Made}
    (ht : StreamState.Takes c.stream call answer t more) : c.made.add more = {} := by
  rcases h.progress with ⟨hfresh, hmade, -⟩ | ⟨info, -, hgrown, -⟩
  · rw [hmade, (hfresh.takes ht).1, Made.add_empty]
  · rw [hgrown.started] at hnew
    cases hnew

theorem Reporting.call (h : c.Reporting config ledger) (hr : c.Regular config policy ledger) {call : IntakeCall}
    (hlimits : (c.step signer writer (.call call)).WithinLimits) :
    (c.step signer writer (.call call)).Reporting config ledger := by
  have hafter := hr.call call hlimits
  rcases c.call_cases call hlimits with hstays | ⟨-, ht, hstep⟩
  · rw [hstays]
    exact h
  rw [hstep] at hafter ⊢
  rcases ht.report_cases with ⟨hstarted, hreport⟩ | ⟨hnew, hstarted, hfinalized⟩
  · obtain ⟨info, k, hreports, hlater, hbefore⟩ := h
    exact ⟨info, k, (hreports.mono _).of_report_eq hreport,
      fun hs => (hlater (hstarted.symm.trans hs)).mono (List.subset_append_left ..),
      fun hs => hbefore (hstarted.symm.trans hs)⟩
  · -- the first round: the stream has found its chain, and nothing has closed yet
    have hnothing := hr.made_of_new hnew ht
    rcases hafter.progress with ⟨hfresh, -⟩ | ⟨info, hinfo, hgrown, hflow⟩
    · cases hfresh.started.symm.trans hstarted
    · simp only [hnothing] at hgrown hflow
      refine ⟨info, 0, ?_, fun _ => hinfo, fun hs => Bool.noConfusion (hs.symm.trans hstarted)⟩
      simp only [hnothing]
      exact hflow.reports_nil (hfinalized.trans hgrown.chain)

/-- **Whatever happens within limits, a stream reports a position of its chain.** -/
theorem Reporting.step (h : c.Reporting config ledger) (hr : c.Regular config policy ledger)
    (happening : Happening σ ω) (hlimits : (c.step signer writer happening).WithinLimits) :
    (c.step signer writer happening).Reporting config ledger := by
  have hcore : ∀ {stream : StreamState}, stream.core = c.stream.core →
      stream.started = c.stream.started ∧ stream.report = c.stream.report := fun heq =>
    ⟨StreamState.of_core StreamState.started (fun _ => rfl) heq,
      StreamState.of_core StreamState.report (fun _ => rfl) heq⟩
  cases happening with
  | call call => exact h.call hr hlimits
  | stop =>
    rw [Course.step]
    split
    · exact h
    · have hstarted : c.stream.stopIntake.core.started = c.stream.started := by
        rw [StreamState.core_stopIntake]
        rfl
      have hreport : c.stream.stopIntake.core.report = c.stream.report := by
        rw [StreamState.core_stopIntake]
        rfl
      exact h.elsewhere rfl rfl rfl hstarted hreport
  | supply hash =>
    obtain ⟨hstarted, hreport⟩ := hcore (c.stream.core_supplyInitial hash)
    exact h.elsewhere rfl rfl rfl hstarted hreport
  | abandon =>
    obtain ⟨hstarted, hreport⟩ := hcore c.stream.core_abandonInitial
    exact h.elsewhere rfl rfl rfl hstarted hreport
  | work duty =>
    obtain ⟨info, k, hreports, hlater, hbefore⟩ := h
    obtain ⟨base, hflow⟩ := hr.flow
    obtain ⟨k', hreports'⟩ : ∃ k', (c.stream.perform signer.recorded writer.recorded duty c.signer c.store).1.Reports
        info c.made.closed (c.stream.perform signer.recorded writer.recorded duty c.signer c.store).2.2.1.2 k' :=
      hreports.perform hflow duty
    have hintake := c.stream.intake_perform signer.recorded writer.recorded c.signer c.store duty
    have hstarted := congrArg StreamState.started hintake
    exact ⟨info, k', hreports', fun hs => hlater (hstarted.symm.trans hs), fun hs => hbefore (hstarted.symm.trans hs)⟩
  | resume => exact h.elsewhere rfl rfl rfl rfl rfl
  | signer state => exact h.elsewhere rfl rfl rfl rfl rfl
  | store state => exact h.elsewhere rfl rfl rfl rfl rfl

theorem reporting_ofSession {start : InitialState} {σ₀ : σ} {ω₀ : ω} {hs : List (Happening σ ω)}
    (hlimits : (ofSession signer writer config policy start ledger σ₀ ω₀ hs).WithinLimits) :
    (ofSession signer writer config policy start ledger σ₀ ω₀ hs).Reporting config ledger :=
  (run_induction signer writer (P := fun d => d.Regular config policy ledger ∧ d.Reporting config ledger)
    (fun _ happening ⟨hr, hd⟩ hl => ⟨hr.step happening hl, hd.step hr happening hl⟩)
    ⟨regular_start config policy start ledger σ₀ ω₀, reporting_start config policy start ledger σ₀ ω₀⟩ hlimits).2

end Course

end RoundChain
