import RoundChain.Proofs.Conservation
import RoundChain.Proofs.Finalized

/-!
# Waiting for blocks

A stream has two records of what is stored. It reports the position of its chain, and it notes the
newest block, by which it answers callers that wait for one. A write that ends well puts its block
into both, but they begin apart: the position of a session that continues a chain is that of the chain,
and nothing is noted. Until a block of its own is stored, such a session has no answer for the
blocks of the sessions before it: `Course.await_finalized_iff`.

## The model

`StreamInfo.Covers` says which blocks a position is behind. `StreamState.Notes` is what one duty
does to the two records, and `Course.Noted` how they stand to each other after any course.
-/

namespace RoundChain

variable {σ ω : Type}

/-- The block with a number is part of the chain that the position is behind. -/
def StreamInfo.Covers (info : StreamInfo) (number : UInt64) : Prop :=
  ∃ last, info.lastNumber = some last ∧ number ≤ last

namespace StreamState

theorem await_eq_finalized_iff {s : StreamState} {number : UInt64} :
    s.await number = .finalized ↔ ∃ last, s.lastFinalized = some last ∧ number ≤ last := by
  have hnoted : s.lastFinalized.any (number ≤ ·) = true ↔
      ∃ last, s.lastFinalized = some last ∧ number ≤ last := by
    rw [Option.any_eq_true_iff_get]
    cases s.lastFinalized <;> simp
  rw [← hnoted, await]
  by_cases h : s.lastFinalized.any (number ≤ ·) = true
  · simp only [h, if_true]
  · rw [if_neg h]
    refine iff_of_false ?_ h
    cases s.halted <;> nofun

/-! ### Calls note nothing -/

section

variable (s : StreamState)

theorem lastFinalized_of_plain {s t : StreamState} (h : t.plain = s.plain) : t.lastFinalized = s.lastFinalized :=
  of_plain StreamState.lastFinalized (fun _ => rfl) h

theorem lastFinalized_andThen {α β : Type} {call : StreamCall α} {next : α → StreamState → StreamCall β}
    (hcall : call.2.lastFinalized = s.lastFinalized)
    (hnext : ∀ a t, (next a t).2.lastFinalized = t.lastFinalized) :
    (call.andThen next).2.lastFinalized = s.lastFinalized := by
  obtain ⟨r, t⟩ := call
  cases r with
  | ok a => exact (hnext a t).trans hcall
  | error e => exact hcall

theorem lastFinalized_bootstrap : s.bootstrap.2.lastFinalized = s.lastFinalized := by
  unfold bootstrap
  split
  · rfl
  · split
    · rfl
    · simp only
      split <;> rfl

theorem lastFinalized_joinRound (round : UInt64) (time : Timestamp) :
    (s.joinRound round time).2.lastFinalized = s.lastFinalized := by
  unfold joinRound
  split
  · rfl
  · refine lastFinalized_andThen s (lastFinalized_of_plain (s.plain_startStateFor round)) fun startState t => ?_
    split <;> rfl

theorem lastFinalized_startRound (round : UInt64) (time : Timestamp) :
    (s.startRound round time).2.lastFinalized = s.lastFinalized := by
  unfold startRound
  split
  · rfl
  · rfl
  · split
    · rfl
    · refine lastFinalized_andThen s s.lastFinalized_bootstrap fun _ t => ?_
      exact lastFinalized_andThen t (t.lastFinalized_joinRound round time) fun _ u =>
        (lastFinalized_of_plain (plain_pruneSlots _ round)).trans rfl

theorem lastFinalized_extendChain (closed : ClosedBlock) :
    (s.extendChain closed).2.lastFinalized = s.lastFinalized := by
  unfold extendChain
  simp only
  split
  · rfl
  · unfold handOver
    split
    · exact (lastFinalized_of_plain (plain_must _ _)).trans rfl
    · rfl

theorem lastFinalized_closeBlock (block : PendingBlock) (time : Timestamp) :
    (s.closeBlock block time).2.lastFinalized = s.lastFinalized := by
  unfold closeBlock
  simp only
  split
  · rfl
  · split
    · rfl
    · split
      · rfl
      · unfold sealBlock
        simp only
        split
        · rfl
        · exact lastFinalized_extendChain _ _

theorem lastFinalized_endRound (round : UInt64) : (s.endRound round).2.lastFinalized = s.lastFinalized := by
  unfold endRound
  split
  · rfl
  · split
    · rfl
    · unfold closeAtBoundary
      split
      · rfl
      · split
        · exact lastFinalized_closeBlock _ _ _
        · rfl

/-- No call changes what is noted. -/
theorem lastFinalized_take (call : IntakeCall) : (s.take call).2.lastFinalized = s.lastFinalized := by
  cases call with
  | initLastHash hash =>
    simp only [take, initLastHash]
    split <;> rfl
  | startRound round time => exact s.lastFinalized_startRound round time
  | writeItem item =>
    simp only [take, writeItem]
    split
    · rfl
    · rfl
    · split <;> rfl
  | notify round hash => exact lastFinalized_of_plain (s.plain_notify round hash)
  | endRound round => exact s.lastFinalized_endRound round
  | capture batch => rfl
  | beginBoundary time =>
    simp only [take, beginBoundary]
    split <;> rfl
  | flushBoundary =>
    simp only [take, flushBoundary]
    split <;> rfl

/-! ### Duties -/

/-- The two records of what is stored. -/
def records (s : StreamState) : Option UInt64 × StreamInfo := (s.lastFinalized, s.finalized)

/-- What a duty does to the two records: nothing, or the first queued block becomes the newest in both. -/
inductive Notes (s t : StreamState) : Prop where
  | kept : t.records = s.records → Notes s t
  | newest {queued : QueuedBlock} {rest : List QueuedBlock} : s.queue = queued :: rest →
      t.lastFinalized = some queued.block.number → t.finalized.lastNumber = some queued.block.number → Notes s t

theorem records_halt (e : StreamError) : (s.halt e).records = s.records :=
  (of_plain records (fun _ => rfl) (s.plain_halt e)).trans rfl

theorem records_consider : s.consider.1.records = s.records := by
  rcases s.consider_cases with h | ⟨-, ⟨e, h⟩ | ⟨startState, signature, h⟩⟩ <;> rw [h]
  · exact s.records_halt e
  · rfl

end

variable {s : StreamState}

/-- A write that ends well notes its block in both records. -/
theorem notes_endWrite {t : StreamState} (ht : t.records = s.records) {queued : QueuedBlock}
    {rest : List QueuedBlock} (hq : s.queue = queued :: rest) (outcome : Except StreamError Unit) :
    s.Notes (t.endWrite queued.block outcome).1 := by
  cases outcome with
  | error e => exact .kept ((t.records_halt e).trans ht)
  | ok done =>
    have hrecords := records_consider (({ t with writing := none } : StreamState).recordFinalized queued.block)
    exact .newest hq (congrArg Prod.fst hrecords) (congrArg (fun r => r.2.lastNumber) hrecords)

theorem notes_write (s : StreamState) (writer : Writer ω) (ω₀ : ω) : s.Notes (s.write writer ω₀).1 := by
  unfold write
  split
  · rename_i queued rest _ hq
    unfold writeFirst
    split
    · exact .kept (s.records_halt _)
    · simp only
      split
      · refine notes_endWrite ?_ hq _
        rfl
      · exact .kept rfl
  · exact .kept rfl

theorem notes_noteWritten (s : StreamState) : s.Notes s.noteWritten.1 := by
  unfold noteWritten
  split
  · rename_i hq
    exact notes_endWrite rfl hq _
  · exact .kept rfl

/-- **A duty leaves the two records alone, or notes the first queued block in both.** -/
theorem notes_perform (s : StreamState) (signer : Signer σ) (writer : Writer ω) (duty : Duty) (σ₀ : σ) (ω₀ : ω) :
    s.Notes (s.perform signer writer duty σ₀ ω₀).1 := by
  cases duty with
  | consider => exact .kept s.records_consider
  | write => exact s.notes_write writer ω₀
  | noteWritten => exact s.notes_noteWritten
  | _ => exact .kept (perform_of_signs signer writer s σ₀ ω₀ records (fun _ => rfl) rfl)

end StreamState

namespace Course

variable {signer : Signer σ} {writer : Writer ω} {config : StreamConfig} {policy : BoundaryPolicy}
  {ledger : Option StreamInfo} {c : Course σ ω}

/-! ### Courses -/

/-- How the two records of a session stand to each other: nothing is noted while the position is still the one that
the session begins at, and later the block noted is one of its own and the newest of the position. -/
inductive Noted (ledger : Option StreamInfo) (version : SoftwareVersion) (c : Course σ ω) : Prop where
  | nothing : c.stream.lastFinalized = none →
      (c.stream.started = false → c.stream.finalized = .anchored .zero version) →
      (c.stream.started = true → c.Continues ledger version c.stream.finalized) → Noted ledger version c
  | newest {block : ClosedBlock} : block ∈ c.made.closed → c.stream.lastFinalized = some block.number →
      c.stream.finalized.lastNumber = some block.number → Noted ledger version c

/-- A step that notes nothing, and does not begin the session. -/
theorem Noted.elsewhere {version : SoftwareVersion} (h : c.Noted ledger version) {d : Course σ ω}
    (hcalls : c.calls ⊆ d.calls) (hclosed : c.made.closed ⊆ d.made.closed)
    (hstarted : d.stream.started = c.stream.started) (hrecords : d.stream.records = c.stream.records) :
    d.Noted ledger version := by
  have hlast : d.stream.lastFinalized = c.stream.lastFinalized := congrArg Prod.fst hrecords
  have hposition : d.stream.finalized = c.stream.finalized := congrArg Prod.snd hrecords
  cases h with
  | nothing hnone hbefore hafter =>
    refine .nothing (hlast.trans hnone) ?_ ?_ <;> rw [hstarted, hposition]
    · exact hbefore
    · exact fun hs => (hafter hs).mono hcalls
  | newest hblock hnoted hnewest => exact .newest (hclosed hblock) (hlast.trans hnoted) (hposition ▸ hnewest)

theorem Noted.call (h : c.Noted ledger config.version) (hr : c.Regular config policy ledger) {call : IntakeCall}
    (hlimits : (c.step signer writer (.call call)).WithinLimits) :
    (c.step signer writer (.call call)).Noted ledger config.version := by
  have hafter := hr.call call hlimits
  rcases c.call_cases call hlimits with hstays | ⟨-, ht, hstep⟩
  · rw [hstays]
    exact h
  rw [hstep] at hafter ⊢
  have hlast := c.stream.lastFinalized_take call
  rcases ht.report_cases with ⟨hstarted, hreport⟩ | ⟨hnew, hstarted, hfinalized⟩
  · have hposition : (c.stream.take call).2.finalized = c.stream.finalized := congrArg Prod.fst hreport
    exact h.elsewhere (List.subset_append_left ..) (List.subset_append_left ..) hstarted
      (Prod.ext hlast hposition)
  · -- the first round: nothing was noted before it, and the position becomes the one that is continued
    have hnothing := hr.made_of_new hnew ht
    have hnone : c.stream.lastFinalized = none := by
      cases h with
      | nothing hnone => exact hnone
      | newest hblock =>
        have hclosed := congrArg Made.closed hnothing
        rw [Made.add] at hclosed
        rw [(List.append_eq_nil_iff.mp hclosed).1] at hblock
        cases hblock
    refine .nothing (hlast.trans hnone) (fun hs => Bool.noConfusion (hs.symm.trans hstarted)) fun _ => ?_
    rcases hafter.progress with ⟨hfresh, -⟩ | ⟨info, hinfo, hgrown, -⟩
    · cases hfresh.started.symm.trans hstarted
    · have hchain := hgrown.chain
      simp only [hnothing] at hchain
      have hposition : (c.stream.take call).2.finalized = info := hfinalized.trans hchain
      rw [hposition]
      exact hinfo

/-- **Whatever happens within limits, the two records stand to each other as they should.** -/
theorem Noted.step (h : c.Noted ledger config.version) (hr : c.Regular config policy ledger)
    (happening : Happening σ ω) (hlimits : (c.step signer writer happening).WithinLimits) :
    (c.step signer writer happening).Noted ledger config.version := by
  have haside : ∀ {stream : StreamState}, stream.plain = c.stream.plain →
      stream.started = c.stream.started ∧ stream.records = c.stream.records := fun hplain =>
    ⟨StreamState.of_plain StreamState.started (fun _ => rfl) hplain,
      StreamState.of_plain StreamState.records (fun _ => rfl) hplain⟩
  cases happening with
  | call call => exact h.call hr hlimits
  | stop =>
    rw [Course.step]
    split
    · exact h
    · have hstarted := congrArg StreamState.started c.stream.plain_stopIntake
      have hrecords := congrArg StreamState.records c.stream.plain_stopIntake
      exact h.elsewhere (List.Subset.refl _) (List.Subset.refl _) hstarted hrecords
  | supply hash =>
    obtain ⟨hstarted, hrecords⟩ := haside (c.stream.plain_supplyInitial hash)
    exact h.elsewhere (List.Subset.refl _) (List.Subset.refl _) hstarted hrecords
  | abandon =>
    obtain ⟨hstarted, hrecords⟩ := haside c.stream.plain_abandonInitial
    exact h.elsewhere (List.Subset.refl _) (List.Subset.refl _) hstarted hrecords
  | work duty =>
    have hstarted := congrArg StreamState.started
      (c.stream.intake_perform signer.recorded writer.recorded c.signer c.store duty)
    cases c.stream.notes_perform signer.recorded writer.recorded duty c.signer c.store with
    | kept hrecords => exact h.elsewhere (List.Subset.refl _) (List.Subset.refl _) hstarted hrecords
    | newest hq hnoted hnewest =>
      obtain ⟨base, hflow⟩ := hr.flow
      obtain ⟨n, -, -, hqueued⟩ := hflow.counted
      exact .newest (List.mem_of_getElem? (hqueued _ _ hq)) hnoted hnewest
  | resume => exact h.elsewhere (List.Subset.refl _) (List.Subset.refl _) rfl rfl
  | signer state => exact h.elsewhere (List.Subset.refl _) (List.Subset.refl _) rfl rfl
  | store state => exact h.elsewhere (List.Subset.refl _) (List.Subset.refl _) rfl rfl

theorem noted_ofSession {start : InitialState} {σ₀ : σ} {ω₀ : ω} {hs : List (Happening σ ω)}
    (hlimits : (ofSession signer writer config policy start ledger σ₀ ω₀ hs).WithinLimits) :
    (ofSession signer writer config policy start ledger σ₀ ω₀ hs).Noted ledger config.version :=
  (run_induction signer writer (P := fun d => d.Regular config policy ledger ∧ d.Noted ledger config.version)
    (fun _ happening ⟨hr, hd⟩ hl => ⟨hr.step happening hl, hd.step hr happening hl⟩)
    ⟨regular_start config policy start ledger σ₀ ω₀, .nothing rfl (fun _ => rfl) nofun⟩ hlimits).2

/-! ### What is answered -/

/-- What is noted is part of the position. -/
theorem Noted.covers {version : SoftwareVersion} (h : c.Noted ledger version) {number : UInt64}
    (hawait : c.stream.await number = .finalized) : c.stream.finalized.Covers number := by
  obtain ⟨last, hlast, hle⟩ := StreamState.await_eq_finalized_iff.mp hawait
  cases h with
  | nothing hnone => cases hnone.symm.trans hlast
  | newest _ hnoted hnewest => exact ⟨last, hnewest.trans (hnoted.symm.trans hlast), hle⟩

/-- A session that closed a block, and has none on its way, has noted the newest one of its position. -/
theorem Noted.of_idle (h : c.Noted ledger config.version) (hr : c.Regular config policy ledger)
    (hlive : c.stream.halted = none) (hidle : c.stream.idle = true) (hclosed : c.made.closed ≠ []) :
    c.stream.lastFinalized = c.stream.finalized.lastNumber := by
  rcases hr.progress with ⟨-, hmade, -⟩ | ⟨info, hinfo, hgrown, hflow⟩
  · rw [hmade] at hclosed
    exact absurd rfl hclosed
  · obtain ⟨-, hfinalized⟩ := hflow.of_idle hlive hidle
    cases h with
    | newest _ hnoted hnewest => exact hnoted.trans hnewest.symm
    | nothing _ _ hafter =>
      -- the position would still be the one that the session continues, without the blocks that closed
      have hsame := hr.continues_unique hinfo (hafter hgrown.started)
      have hheight := (hgrown.linked.recordAll c.stream.config.trailingLimit).1
      rw [← hfinalized, ← hsame] at hheight
      have hpositive := List.length_pos_iff.mpr hclosed
      omega

/-- **What callers that wait for a block are told.** In every session within limits they are told that a block is
stored only if the position that the stream reports is behind it. In a live session without closed blocks on their way
they are told so of every block that the position is behind, provided that the session has closed one. Before that they
are told so of none, whereas the position, from the first round on, is behind all blocks of a chain that was in ledger
state. -/
theorem await_finalized_iff (signer : Signer σ) (writer : Writer ω) (config : StreamConfig)
    (policy : BoundaryPolicy) (start : InitialState) (ledger : Option StreamInfo) (σ₀ : σ) (ω₀ : ω)
    (hs : List (Happening σ ω)) :
    let c := ofSession signer writer config policy start ledger σ₀ ω₀ hs
    c.WithinLimits →
      (∀ number, c.stream.await number = .finalized → c.stream.finalized.Covers number) ∧
      (c.stream.isLive = true → c.stream.idle = true →
        (∀ number, c.stream.await number = .finalized ↔
          c.made.closed ≠ [] ∧ c.stream.finalized.Covers number) ∧
        (c.made.closed = [] → ∀ number, c.stream.finalized.Covers number ↔
          c.stream.started = true ∧ ∃ info, ledger = some info ∧ info.Covers number)) := by
  intro c hlimits
  have hregular : c.Regular config policy ledger := regular_ofSession hlimits
  have hnoted : c.Noted ledger config.version := noted_ofSession hlimits
  have hanchored : ∀ anchor number, ¬(StreamInfo.anchored anchor config.version).Covers number := by
    rintro anchor number ⟨last, hlast, -⟩
    cases hlast
  refine ⟨fun number => hnoted.covers, fun hlive hidle => ⟨fun number => ?_, fun hempty number => ?_⟩⟩
  · have hhalted : c.stream.halted = none := Option.isNone_iff_eq_none.mp hlive
    constructor
    · intro hawait
      refine ⟨fun hempty => ?_, hnoted.covers hawait⟩
      obtain ⟨last, hlast, -⟩ := StreamState.await_eq_finalized_iff.mp hawait
      cases hnoted with
      | nothing hnone => cases hnone.symm.trans hlast
      | newest hblock =>
        rw [hempty] at hblock
        cases hblock
    · rintro ⟨hclosed, hcovers⟩
      rw [StreamState.await_eq_finalized_iff, hnoted.of_idle hregular hhalted hidle hclosed]
      exact hcovers
  · cases hnoted with
    | newest hblock =>
      rw [hempty] at hblock
      cases hblock
    | nothing _ hbefore hafter =>
      cases hstarted : c.stream.started with
      | false =>
        rw [hbefore hstarted]
        exact iff_of_false (hanchored _ number) nofun
      | true =>
        rcases hafter hstarted with hledger | ⟨hledger, anchor, -, hnew⟩
        · rw [hledger]
          simp
        · rw [hledger, hnew]
          exact iff_of_false (hanchored _ number) nofun

set_option maxRecDepth 10000 in
theorem await_finalized_one_round :
    oneRoundSession.WithinLimits ∧ oneRoundSession.stream.isLive = true ∧ oneRoundSession.stream.idle = true ∧
      ∀ number, oneRoundSession.stream.await number = .finalized ↔
        oneRoundSession.made.closed ≠ [] ∧ oneRoundSession.stream.finalized.Covers number := by
  have hlimits : oneRoundSession.WithinLimits := by decide +kernel
  have hlive : oneRoundSession.stream.isLive = true := by decide +kernel
  have hidle : oneRoundSession.stream.idle = true := by decide +kernel
  obtain ⟨-, hidles⟩ := await_finalized_iff SchemeSigner.signer MemoryStore.writer {} .configured
    ⟨0, Promise.resolved .zero⟩ none SchemeSigner.trivial MemoryStore.new oneRound hlimits
  exact ⟨hlimits, hlive, hidle, (hidles hlive hidle).1⟩

/-- A session that goes on behind block 4, after its first round has begun. -/
def continuedSession : Course SchemeSigner MemoryStore :=
  ofSession SchemeSigner.signer MemoryStore.writer {} .configured ⟨9, Promise.resolved .zero⟩
    (some ⟨some 4, .filled 1, [.filled 1], some ⟨⟨0⟩, 0⟩, ⟨0, 1, 0⟩⟩) SchemeSigner.trivial MemoryStore.new
    [.call (.startRound 10 ⟨⟨1⟩, 0⟩)]

set_option maxRecDepth 10000 in
/-- A session that goes on behind a chain keeps those waiting who ask for the newest block of that chain. -/
theorem await_continued :
    continuedSession.WithinLimits ∧ continuedSession.stream.isLive = true ∧ continuedSession.stream.idle = true ∧
      continuedSession.stream.finalized.lastNumber = some 4 ∧ continuedSession.stream.await 4 = .pending := by
  decide +kernel

end Course

end RoundChain
