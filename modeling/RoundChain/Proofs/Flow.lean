import RoundChain.Proofs.Calls
import RoundChain.Proofs.Logs

/-!
# The way of closed blocks to the store

Blocks that have closed are signed and written in any order of duties. `Flow` is what
every duty preserves: the blocks in the store, those in the queue and those of the
backlog are, one after the other, the closed blocks; every signature that waits in the
queue or stands in a proof was given for the hash of its block; and the log of the store
is that of the stored blocks, with the attempts to write the next one.

## The model

A stream that has halted keeps no block in the queue. Its store holds the first of the
closed blocks, and no duty writes to it any more.
-/

namespace RoundChain

variable {σ ω : Type}

/-- What the log shows of a write that has begun. -/
def BlockWrite.Heard (size : Nat) (write : BlockWrite) (block : ClosedBlock) (log : WriteLog) : Prop :=
  match write.outcome with
  | none => log = []
  | some (.ok ()) => Written.Storing size ⟨block, write.startState, write.signature⟩ log
  | some (.error _) => Written.Trying size ⟨block, write.startState, write.signature⟩ log

/-- Whether a duty is about signing, not about writing. -/
def Duty.signs : Duty → Bool
  | .takeUp | .sign _ | .noteSigned _ => true
  | .consider | .write | .noteWritten => false

namespace StreamState

/-! ### What stands behind intake -/

/-- The stream as intake sees it: without what became of closed blocks. -/
def intake (s : StreamState) : StreamState :=
  { s.core with
    accepting := true, backlog := [], signings := [], queue := [], writing := none
    finalized := default, halted := none }

/-- The stream as signing and writing see it: without what calls are about. -/
def behind (s : StreamState) : StreamState :=
  { s.core with
    phase := .awaitingRound, pending := none, anchor := none, started := false, lastRound := none
    lastClosedHash := .zero, nextNumber := 0, chain := default, ledger := none, boundary := .new }

theorem intake_of_core_eq {s t : StreamState} (h : t.core = s.core) : t.intake = s.intake :=
  of_core intake (fun _ => rfl) h

/-! ### The blocks on their way -/

/-- A signing of a closed block, and its outcome if it has one. -/
structure SigningOf (closed : List ClosedBlock) (signed : SignLog) (signing : Signing) : Prop where
  block : ∃ b ∈ closed, b.number = signing.number ∧ b.hash = signing.hash
  outcome : ∀ signature, signing.outcome = some (.ok signature) → (signing.hash, .ok signature) ∈ signed

/-- The write of the first queued block, or nothing if none has begun. -/
structure Underway (signed : SignLog) (s : StreamState) (log : WriteLog) : Prop where
  idle : s.writing = none → log = []
  begun : ∀ write, s.writing = some write → ∃ queued rest, s.queue = queued :: rest ∧
    (queued.block.hash, .ok write.signature) ∈ signed ∧ write.Heard s.config.batchSize queued.block log

/-- A stream that goes on: every closed block is in the store, in the queue or in the backlog. -/
structure Flowing (closed : List ClosedBlock) (signed : SignLog) (base : StreamInfo) (s : StreamState)
    (stored : List Written) (log : WriteLog) : Prop where
  accepting : s.accepting = true
  blocks : stored.map Written.block ++ s.queue.map QueuedBlock.block ++ s.backlog = closed
  finalized : s.finalized = base.recordAll (stored.map Written.block) s.config.trailingLimit
  underway : s.Underway signed log

/-- A stream that has halted: the first of the closed blocks are in the store, and the next one may have been
tried in vain. -/
structure Stuck (closed : List ClosedBlock) (s : StreamState) (stored : List Written) (log : WriteLog) :
    Prop where
  queue : s.queue = []
  writing : s.writing = none
  blocks : stored.map Written.block <+: closed
  tried : log = [] ∨ ∃ next : Written, stored.map Written.block ++ [next.block] <+: closed ∧
    next.Trying s.config.batchSize log

/-- How far the blocks of a stream have come. -/
structure Flow (closed : List ClosedBlock) (signed : SignLog) (writes : WriteLog) (base : StreamInfo)
    (s : StreamState) : Prop where
  signings : ∀ signing ∈ s.signings, SigningOf closed signed signing
  queue : ∀ queued ∈ s.queue, ∀ signature, queued.signing = some (.ok signature) →
    (queued.block.hash, .ok signature) ∈ signed
  backlog : s.backlog ⊆ closed
  store : ∃ stored log more, Stored s.config.batchSize stored log ∧ writes = log ++ more ∧
    (∀ w ∈ stored, (w.block.hash, .ok w.signature) ∈ signed) ∧
    (s.halted = none ∧ s.Flowing closed signed base stored more ∨
      s.halted ≠ none ∧ s.Stuck closed stored more)

variable {closed : List ClosedBlock} {signed : SignLog} {writes : WriteLog} {base : StreamInfo}
  {s : StreamState}

theorem Flow.behind (h : s.Flow closed signed writes base) : s.behind.Flow closed signed writes base := by
  obtain ⟨hsignings, hqueue, hbacklog, stored, log, more, hstored, hwrites, hsigned, hs⟩ := h
  refine ⟨hsignings, hqueue, hbacklog, stored, log, more, hstored, hwrites, hsigned, ?_⟩
  rcases hs with ⟨hlive, ha, hb, hf, hi, hu⟩ | ⟨hhalted, hq, hw, hb, ht⟩
  · exact .inl ⟨hlive, ha, hb, hf, hi, hu⟩
  · exact .inr ⟨hhalted, hq, hw, hb, ht⟩

theorem Flow.of_behind (h : s.behind.Flow closed signed writes base) :
    s.Flow closed signed writes base := by
  obtain ⟨hsignings, hqueue, hbacklog, stored, log, more, hstored, hwrites, hsigned, hs⟩ := h
  refine ⟨hsignings, hqueue, hbacklog, stored, log, more, hstored, hwrites, hsigned, ?_⟩
  rcases hs with ⟨hlive, ha, hb, hf, hi, hu⟩ | ⟨hhalted, hq, hw, hb, ht⟩
  · exact .inl ⟨hlive, ha, hb, hf, hi, hu⟩
  · exact .inr ⟨hhalted, hq, hw, hb, ht⟩

theorem Flow.of_behind_eq {t : StreamState} (h : s.Flow closed signed writes base)
    (ht : t.behind = s.behind) : t.Flow closed signed writes base :=
  .of_behind (ht ▸ h.behind)

theorem Flow.of_core_eq {t : StreamState} (h : s.Flow closed signed writes base)
    (ht : t.core = s.core) : t.Flow closed signed writes base :=
  h.of_behind_eq (StreamState.of_core StreamState.behind (fun _ => rfl) ht)

/-- The signer is asked for more. -/
theorem Flow.mono {more : SignLog} (h : s.Flow closed signed writes base) (hsub : signed ⊆ more) :
    s.Flow closed more writes base := by
  obtain ⟨hsignings, hqueue, hbacklog, stored, log, rest, hstored, hwrites, hsigned, hs⟩ := h
  refine ⟨fun t ht => ⟨(hsignings t ht).block, fun g hg => hsub ((hsignings t ht).outcome g hg)⟩,
    fun q hq g hg => hsub (hqueue q hq g hg), hbacklog, stored, log, rest, hstored, hwrites,
    fun w hw => hsub (hsigned w hw), ?_⟩
  rcases hs with ⟨hlive, ha, hb, hf, hi, hu⟩ | hstuck
  · refine .inl ⟨hlive, ha, hb, hf, hi, ?_⟩
    intro write hw
    obtain ⟨queued, rest, hq, hmem, hheard⟩ := hu write hw
    exact ⟨queued, rest, hq, hsub hmem, hheard⟩
  · exact .inr hstuck

/-- One more block closes. -/
theorem Flow.handedOver (h : s.Flow closed signed writes base) (block : ClosedBlock) :
    (s.handedOver block).Flow (closed ++ [block]) signed writes base := by
  obtain ⟨hsignings, hqueue, hbacklog, stored, log, more, hstored, hwrites, hsigned, hs⟩ := h
  refine ⟨?_, hqueue, ?_, stored, log, more, hstored, hwrites, hsigned, ?_⟩
  · intro t ht
    obtain ⟨b, hb, hnumber, hhash⟩ := (hsignings t ht).block
    exact ⟨⟨b, List.mem_append_left _ hb, hnumber, hhash⟩, (hsignings t ht).outcome⟩
  · unfold StreamState.handedOver
    intro b hb
    simp only at hb
    split at hb
    · rcases List.mem_append.mp hb with hb | hb
      · exact List.mem_append_left _ (hbacklog hb)
      · exact List.mem_append_right _ hb
    · exact List.mem_append_left _ (hbacklog hb)
  · rcases hs with ⟨hlive, ha, hb, hf, hi, hu⟩ | ⟨hhalted, hq, hw, hb, ht⟩
    · refine .inl ⟨hlive, ha, ?_, hf, hi, hu⟩
      simp only [StreamState.handedOver, ha, if_true]
      rw [← hb, List.append_assoc _ s.backlog]
    · refine .inr ⟨hhalted, hq, hw, hb.trans (List.prefix_append ..), ?_⟩
      refine ht.imp_right ?_
      rintro ⟨next, hnext, htrying⟩
      exact ⟨next, hnext.trans (List.prefix_append ..), htrying⟩

/-- A stream without closed blocks finds the chain to continue. -/
theorem Flow.rebase (h : s.Flow [] signed writes base) (info : StreamInfo) :
    Flow [] signed writes info { s with finalized := info } := by
  obtain ⟨hsignings, hqueue, hbacklog, stored, log, more, hstored, hwrites, hsigned, hs⟩ := h
  refine ⟨hsignings, hqueue, hbacklog, stored, log, more, hstored, hwrites, hsigned, ?_⟩
  rcases hs with ⟨hlive, ha, hb, hf, hi, hu⟩ | ⟨hhalted, hq, hw, hb, ht⟩
  · have hnone : stored.map Written.block = [] := by
      simp only [List.append_eq_nil_iff] at hb
      exact hb.1.1
    exact .inl ⟨hlive, ha, hb, by rw [hnone]; rfl, hi, hu⟩
  · exact .inr ⟨hhalted, hq, hw, hb, ht⟩

/-! ### Signing -/

/-- A stream that keeps what counts but for its signings. -/
theorem Flow.withSignings (h : s.Flow closed signed writes base) {signings : List Signing}
    (hsignings : ∀ signing ∈ signings, SigningOf closed signed signing) :
    Flow closed signed writes base { s with signings } := by
  obtain ⟨-, hqueue, hbacklog, stored, log, more, hstored, hwrites, hsigned, hs⟩ := h
  refine ⟨hsignings, hqueue, hbacklog, stored, log, more, hstored, hwrites, hsigned, ?_⟩
  rcases hs with ⟨hlive, ha, hb, hf, hi, hu⟩ | ⟨hhalted, hq, hw, hb, ht⟩
  · exact .inl ⟨hlive, ha, hb, hf, hi, hu⟩
  · exact .inr ⟨hhalted, hq, hw, hb, ht⟩

theorem Flow.setSigning (h : s.Flow closed signed writes base) {signing : Signing}
    (hsigning : SigningOf closed signed signing) :
    (s.setSigning signing).Flow closed signed writes base := by
  refine h.withSignings fun t ht => ?_
  obtain ⟨u, hu, rfl⟩ := List.mem_map.mp ht
  split
  · exact hsigning
  · exact h.signings u hu

theorem Flow.startSigning (h : s.Flow closed signed writes base) {block : ClosedBlock}
    (hblock : block ∈ closed) : (s.startSigning block).Flow closed signed writes base := by
  refine h.withSignings fun t ht => ?_
  rcases List.mem_append.mp ht with ht | ht
  · exact h.signings t ht
  · obtain rfl := List.mem_singleton.mp ht
    exact ⟨⟨block, hblock, rfl, rfl⟩, nofun⟩

/-- A stream that keeps the blocks of its queue. -/
theorem Flow.withQueue (h : s.Flow closed signed writes base) {queue : List QueuedBlock}
    (hblocks : queue.map QueuedBlock.block = s.queue.map QueuedBlock.block)
    (hqueue : ∀ queued ∈ queue, ∀ signature, queued.signing = some (.ok signature) →
      (queued.block.hash, .ok signature) ∈ signed) :
    Flow closed signed writes base { s with queue } := by
  obtain ⟨hsignings, -, hbacklog, stored, log, more, hstored, hwrites, hsigned, hs⟩ := h
  refine ⟨hsignings, hqueue, hbacklog, stored, log, more, hstored, hwrites, hsigned, ?_⟩
  rcases hs with ⟨hlive, ha, hb, hf, hi, hu⟩ | ⟨hhalted, hq, hw, hb, ht⟩
  · refine .inl ⟨hlive, ha, hblocks ▸ hb, hf, hi, ?_⟩
    intro write hw
    obtain ⟨queued, rest, hq, hmem, hheard⟩ := hu write hw
    rw [hq] at hblocks
    cases queue with
    | nil => cases hblocks
    | cons first others =>
      obtain ⟨hfirst, -⟩ := List.cons_eq_cons.mp hblocks
      rw [← hfirst] at hmem hheard
      exact ⟨first, others, rfl, hmem, hheard⟩
  · refine .inr ⟨hhalted, ?_, hw, hb, ht⟩
    rw [hq] at hblocks
    exact List.map_eq_nil_iff.mp hblocks

/-- Blocks in the queue have closed. -/
theorem Flow.mem_closed (h : s.Flow closed signed writes base) {queued : QueuedBlock}
    (hq : queued ∈ s.queue) : queued.block ∈ closed := by
  rcases h.store with ⟨stored, log, more, -, -, -, ⟨-, hs⟩ | ⟨-, hs⟩⟩
  · rw [← hs.blocks]
    exact List.mem_append_left _ (List.mem_append_right _ (List.mem_map_of_mem hq))
  · rw [hs.queue] at hq
    cases hq

/-- The end of a signing stands with its block: there is one block of each number. -/
theorem Flow.endSigning (h : s.Flow closed signed writes base)
    (hinj : ∀ a ∈ closed, ∀ b ∈ closed, a.number = b.number → a = b) {signing : Signing}
    (hsigning : SigningOf closed signed signing) {outcome : Except StreamError BlockSignature}
    (houtcome : ∀ signature, outcome = .ok signature → (signing.hash, .ok signature) ∈ signed) :
    (s.endSigning signing outcome).1.Flow closed signed writes base := by
  have hothers : ∀ t ∈ s.signings.filter (·.number != signing.number), SigningOf closed signed t :=
    fun t ht => h.signings t (List.mem_of_mem_filter ht)
  have hfree := h.withSignings hothers
  refine hfree.withQueue ?_ ?_
  · rw [List.map_map]
    refine List.map_congr_left fun queued _ => ?_
    simp only [Function.comp_apply]
    split <;> rfl
  · intro queued hq signature hsig
    obtain ⟨before, hbefore, rfl⟩ := List.mem_map.mp hq
    split at hsig
    · rename_i hnumber
      rw [if_pos hnumber]
      obtain ⟨block, hblock, hn, hhash⟩ := hsigning.block
      have hsame : before.block = block :=
        hinj _ (h.mem_closed hbefore) _ hblock (hnumber.trans hn.symm)
      cases hsig
      rw [hsame, hhash]
      exact houtcome signature rfl
    · rename_i hnumber
      rw [if_neg hnumber]
      exact h.queue before hbefore signature hsig

theorem Flow.withMetrics (h : s.Flow closed signed writes base) (metrics : Metrics) :
    Flow closed signed writes base { s with metrics } :=
  h.of_core_eq rfl

/-- A signing that goes on keeps the flow of blocks, and the signer's log only grows. -/
theorem Flow.goOnSigning {signer : Signer σ} {t : σ × SignLog} (h : s.Flow closed t.2 writes base)
    (hinj : ∀ a ∈ closed, ∀ b ∈ closed, a.number = b.number → a = b) {signing : Signing}
    (hsigning : SigningOf closed t.2 signing) :
    let r := StreamState.goOnSigning signer.recorded s signing t
    t.2 ⊆ r.2.1.2 ∧ r.1.Flow closed r.2.1.2 writes base := by
  have hasked := askReady_recorded signer signing.asked t
  unfold StreamState.goOnSigning
  rw [← Prod.eta (askReady signer.recorded signing.asked t)]
  cases (askReady signer.recorded signing.asked t).1 with
  | false =>
    simp only [hasked]
    exact ⟨List.Subset.refl _, h.setSigning ⟨hsigning.block, hsigning.outcome⟩⟩
  | true =>
    obtain ⟨hsub, hsigned⟩ := signBlock_recorded signer s.config.signingRetry signing.number signing.hash
      (askReady signer.recorded signing.asked t).2 s.metrics
    rw [hasked] at hsub
    simp only
    generalize signBlock signer.recorded s.config.signingRetry signing.number signing.hash
      (askReady signer.recorded signing.asked t).2 s.metrics = r at hsub hsigned ⊢
    have hflow := (h.mono hsub).withMetrics r.2.2
    have hgrown : SigningOf closed r.2.1.2 signing :=
      ⟨hsigning.block, fun g hg => hsub (hsigning.outcome g hg)⟩
    split
    · exact ⟨hsub, hflow.endSigning hinj hgrown hsigned⟩
    · refine ⟨hsub, hflow.setSigning ⟨hsigning.block, ?_⟩⟩
      intro signature hsignature
      exact hsigned signature (Option.some.inj hsignature)

theorem Flow.signNumber {signer : Signer σ} {t : σ × SignLog} (h : s.Flow closed t.2 writes base)
    (hinj : ∀ a ∈ closed, ∀ b ∈ closed, a.number = b.number → a = b) (number : UInt64) :
    let r := s.signNumber signer.recorded number t
    t.2 ⊆ r.2.1.2 ∧ r.1.Flow closed r.2.1.2 writes base := by
  unfold StreamState.signNumber
  split
  · rename_i number hash asked hfound
    exact h.goOnSigning hinj (h.signings _ (List.mem_of_find?_eq_some hfound))
  · exact ⟨List.Subset.refl _, h⟩

theorem Flow.noteSigned (h : s.Flow closed signed writes base)
    (hinj : ∀ a ∈ closed, ∀ b ∈ closed, a.number = b.number → a = b) (number : UInt64) :
    (s.noteSigned number).1.Flow closed signed writes base := by
  unfold StreamState.noteSigned
  split
  · rename_i signing hfound
    have hsigning := h.signings _ (List.mem_of_find?_eq_some hfound)
    split
    · rename_i outcome houtcome
      exact h.endSigning hinj hsigning fun g hg => hsigning.outcome g (by rw [houtcome, hg])
    · exact h
  · exact h

/-! ### Taking up -/

theorem plain_stopWaiting (s : StreamState) (starts : List StartState) : (s.stopWaiting starts).plain = s.plain := by
  unfold stopWaiting
  split <;> rfl

theorem core_stopWaiting (s : StreamState) (starts : List StartState) : (s.stopWaiting starts).core = s.core :=
  of_plain core (fun _ => rfl) (s.plain_stopWaiting starts)

/-- One block moves from the backlog to the queue. -/
theorem Flow.enqueue {block : ClosedBlock} {rest : List ClosedBlock}
    (h : Flow closed signed writes base { s with backlog := block :: rest }) (hlive : s.halted = none) :
    Flow closed signed writes base { s.enqueue block with backlog := rest } := by
  obtain ⟨hsignings, hqueue, hbacklog, stored, log, more, hstored, hwrites, hsigned, hs⟩ := h
  refine ⟨hsignings, ?_, fun b hb => hbacklog (List.mem_cons_of_mem _ hb), stored, log, more, hstored,
    hwrites, hsigned, ?_⟩
  · intro queued hq
    rcases List.mem_append.mp hq with hq | hq
    · exact hqueue queued hq
    · obtain rfl := List.mem_singleton.mp hq
      nofun
  · rcases hs with ⟨-, ha, hb, hf, hi, hu⟩ | ⟨hhalted, -⟩
    · refine .inl ⟨hlive, ha, ?_, hf, hi, ?_⟩
      · rw [← hb]
        simp [StreamState.enqueue]
      · intro write hw
        obtain ⟨queued, others, hq, hmem, hheard⟩ := hu write hw
        refine ⟨queued, others ++ [⟨block, none⟩], ?_, hmem, hheard⟩
        rw [StreamState.enqueue, show s.queue = queued :: others from hq, List.cons_append]
    · exact absurd hlive hhalted

/-- A stream that has halted takes no more blocks. -/
theorem Flow.stopAccepting (h : s.Flow closed signed writes base) (hhalted : s.halted ≠ none) :
    s.stopAccepting.Flow closed signed writes base := by
  have hcore : s.stopAccepting.core = { s with accepting := false, backlog := [] }.core :=
    core_stopWaiting _ _
  refine Flow.of_core_eq ?_ hcore
  obtain ⟨hsignings, hqueue, -, stored, log, more, hstored, hwrites, hsigned, hs⟩ := h
  refine ⟨hsignings, hqueue, List.nil_subset _, stored, log, more, hstored, hwrites, hsigned, ?_⟩
  rcases hs with ⟨hlive, -⟩ | ⟨-, hq, hw, hb, ht⟩
  · exact absurd hlive hhalted
  · exact .inr ⟨hhalted, hq, hw, hb, ht⟩

theorem Flow.takeUpFrom {blocks : List ClosedBlock}
    (h : Flow closed signed writes base { s with backlog := blocks }) :
    (s.takeUpFrom blocks).1.Flow closed signed writes base := by
  induction blocks generalizing s with
  | nil => exact h
  | cons block rest ih =>
    rw [StreamState.takeUpFrom]
    split
    · have hsigning := h.startSigning (h.backlog List.mem_cons_self)
      simp only
      split
      · rename_i hlive
        exact ih (hsigning.enqueue (Option.isNone_iff_eq_none.mp hlive))
      · rename_i hlive
        refine Flow.stopAccepting hsigning ?_
        intro hnone
        exact hlive (Option.isNone_iff_eq_none.mpr hnone)
    · exact h

theorem Flow.takeUp (h : s.Flow closed signed writes base) :
    s.takeUp.1.Flow closed signed writes base :=
  Flow.takeUpFrom h

/-! ### Writing -/

/-- A stream that halts before or while it writes a block. -/
theorem Flow.halt (h : s.Flow closed signed writes base) {stored : List Written} {log more : WriteLog}
    (hstored : Stored s.config.batchSize stored log)
    (hsigned : ∀ w ∈ stored, (w.block.hash, .ok w.signature) ∈ signed)
    (hblocks : stored.map Written.block <+: closed)
    (htried : more = [] ∨ ∃ next : Written, stored.map Written.block ++ [next.block] <+: closed ∧
      next.Trying s.config.batchSize more) (e : StreamError) :
    (s.halt e).Flow closed signed (log ++ more) base := by
  have hcore : (s.halt e).core =
      { s with halted := some e.message, queue := [], writing := none }.core := core_stopWaiting _ _
  refine Flow.of_core_eq ?_ hcore
  exact ⟨h.signings, nofun, h.backlog, stored, log, more, hstored, rfl, hsigned,
    .inr ⟨nofun, rfl, rfl, hblocks, htried⟩⟩

/-- The blocks in the store and those behind them, for a stream that has some in its queue. -/
theorem Flow.flowing (h : s.Flow closed signed writes base) {queued : QueuedBlock}
    {rest : List QueuedBlock} (hq : s.queue = queued :: rest) :
    s.halted = none ∧ ∃ stored log more, Stored s.config.batchSize stored log ∧ writes = log ++ more ∧
      (∀ w ∈ stored, (w.block.hash, .ok w.signature) ∈ signed) ∧
      s.Flowing closed signed base stored more := by
  rcases h.store with ⟨stored, log, more, hstored, hwrites, hsigned, ⟨hlive, hs⟩ | ⟨-, hs⟩⟩
  · exact ⟨hlive, stored, log, more, hstored, hwrites, hsigned, hs⟩
  · rw [hs.queue] at hq
    cases hq

theorem Flowing.written_queued {stored : List Written} {log : WriteLog}
    (h : s.Flowing closed signed base stored log) {queued : QueuedBlock} {rest : List QueuedBlock}
    (hq : s.queue = queued :: rest) : stored.map Written.block ++ [queued.block] <+: closed := by
  rw [← h.blocks, hq]
  exact ⟨rest.map QueuedBlock.block ++ s.backlog, by simp⟩

theorem Flow.beginWrite (h : s.Flow closed signed writes base) (hw : s.writing = none)
    {block : ClosedBlock} {outcome : Except StreamError BlockSignature} {rest : List QueuedBlock}
    (hq : s.queue = ⟨block, some outcome⟩ :: rest) :
    (s.beginWrite block outcome).1.Flow closed signed writes base := by
  obtain ⟨hlive, stored, log, more, hstored, rfl, hsigned, hs⟩ := h.flowing hq
  obtain rfl : more = [] := hs.underway.idle hw
  have hblocks := (List.prefix_append _ _).trans (hs.written_queued hq)
  cases outcome with
  | error e => exact h.halt hstored hsigned hblocks (.inl rfl) e
  | ok signature =>
    simp only [StreamState.beginWrite]
    split
    · exact h
    · exact h.halt hstored hsigned hblocks (.inl rfl) _
    · rename_i startState hresolved
      have hsignature := h.queue ⟨block, some (.ok signature)⟩ (hq ▸ List.mem_cons_self) signature rfl
      refine ⟨h.signings, h.queue, h.backlog, stored, log, [], hstored, rfl, hsigned,
        .inl ⟨hlive, hs.accepting, hs.blocks, hs.finalized, nofun, ?_⟩⟩
      rintro _ ⟨⟩
      exact ⟨_, rest, hq, hsignature, rfl⟩

theorem Flow.consider (h : s.Flow closed signed writes base) :
    s.consider.1.Flow closed signed writes base := by
  unfold StreamState.consider
  split
  · rename_i block outcome rest hw hq
    exact h.beginWrite hw hq
  · exact h

/-- The end of a write: the block joins those in the store, or the stream halts. -/
theorem Flow.endWrite (h : s.Flow closed signed writes base) (hlive : s.halted = none)
    {stored : List Written} {log more before : WriteLog} (hstored : Stored s.config.batchSize stored log)
    (hsigned : ∀ w ∈ stored, (w.block.hash, .ok w.signature) ∈ signed)
    (hs : s.Flowing closed signed base stored before) {queued : QueuedBlock} {rest : List QueuedBlock}
    (hq : s.queue = queued :: rest) {startState : BlockHash} {signature : BlockSignature}
    (hsignature : (queued.block.hash, .ok signature) ∈ signed) {outcome : Except StreamError Unit}
    (hheard : BlockWrite.Heard s.config.batchSize ⟨startState, signature, some outcome⟩ queued.block more) :
    (s.endWrite queued.block outcome).1.Flow closed signed (log ++ more) base := by
  cases outcome with
  | error e =>
    refine h.halt hstored hsigned ((List.prefix_append _ _).trans (hs.written_queued hq)) (.inr ?_) e
    exact ⟨⟨queued.block, startState, signature⟩, hs.written_queued hq, hheard⟩
  | ok done =>
    cases done
    have hnow : Stored s.config.batchSize (stored ++ [⟨queued.block, startState, signature⟩])
        (log ++ more) := hstored.concat hheard
    refine Flow.consider ⟨h.signings, ?_, h.backlog, _, _, [], hnow, (List.append_nil _).symm, ?_,
      .inl ⟨hlive, hs.accepting, ?_, ?_, fun _ => rfl, nofun⟩⟩
    · exact fun q hmem => h.queue q (List.mem_of_mem_tail hmem)
    · intro w hw
      rcases List.mem_append.mp hw with hw | hw
      · exact hsigned w hw
      · obtain rfl := List.mem_singleton.mp hw
        exact hsignature
    · rw [← hs.blocks, hq]
      simp [recordFinalized]
    · have hrecord := StreamInfo.recordAll_concat base (stored.map Written.block) queued.block
        s.config.trailingLimit
      rw [← hs.finalized] at hrecord
      rw [List.map_append]
      exact hrecord.symm

theorem Flow.noteWritten (h : s.Flow closed signed writes base) :
    s.noteWritten.1.Flow closed signed writes base := by
  unfold StreamState.noteWritten
  split
  · rename_i startState signature outcome queued rest hw hq
    obtain ⟨hlive, stored, log, more, hstored, rfl, hsigned, hs⟩ := h.flowing hq
    obtain ⟨first, others, hfirst, hsignature, hheard⟩ := hs.underway.begun _ hw
    rw [hq] at hfirst
    cases hfirst
    exact h.endWrite hlive hstored hsigned hs hq hsignature hheard
  · exact h

/-- What the log shows of a block once its calls were made. -/
theorem heard_writeBlock (writer : Writer ω) (retry : RetryPolicy) (size : Nat) (block : ClosedBlock)
    (startState : BlockHash) (signature : BlockSignature) {batches : List Bytes}
    (hframes : frameBatches size block.items = .ok batches) (t : ω × WriteLog) (m : Metrics) :
    let calls := blockCalls block.number batches (block.proofItem startState signature).encode
    let r := writeBlock writer.recorded retry block.number calls t m
    ∃ more, r.2.1.2 = t.2 ++ more ∧
      BlockWrite.Heard size ⟨startState, signature, some r.1.1⟩ block more := by
  intro calls r
  rcases writeBlock_recorded writer retry block.number calls t m with
    ⟨tries, htries, ⟨hok, hlog⟩ | ⟨e, he, hlog⟩⟩
  · refine ⟨_, hlog, ?_⟩
    rw [show r.1.1 = .ok () from hok]
    exact ⟨batches, tries, hframes, htries, rfl⟩
  · refine ⟨_, hlog, ?_⟩
    rw [show r.1.1 = .error e from he]
    exact ⟨batches, hframes, htries⟩

theorem Flow.write {writer : Writer ω} {u : ω × WriteLog} (h : s.Flow closed signed u.2 base) :
    (s.write writer.recorded u).1.Flow closed signed (s.write writer.recorded u).2.1.2 base := by
  unfold StreamState.write
  split
  · rename_i startState signature queued rest hw hq
    obtain ⟨hlive, stored, log, more, hstored, hwrites, hsigned, hs⟩ := h.flowing hq
    obtain ⟨first, others, hfirst, hsignature, hheard⟩ := hs.underway.begun _ hw
    rw [hq] at hfirst
    cases hfirst
    obtain rfl : more = [] := hheard
    rw [List.append_nil] at hwrites
    unfold StreamState.writeFirst
    split
    · rename_i e he
      have hblocks := (List.prefix_append _ _).trans (hs.written_queued hq)
      have hhalt := h.halt hstored hsigned hblocks (.inl rfl) e
      rw [List.append_nil, ← hwrites] at hhalt
      exact hhalt
    · rename_i calls hcalls
      obtain ⟨batches, hframes, hcalls⟩ := bind_eq_ok_iff.mp hcalls
      cases hcalls
      obtain ⟨more, hlog, hheard⟩ := heard_writeBlock writer s.config.writeRetry s.config.batchSize
        queued.block startState signature hframes u s.metrics
      simp only
      generalize writeBlock writer.recorded s.config.writeRetry queued.block.number
        (blockCalls queued.block.number batches (queued.block.proofItem startState signature).encode)
        u s.metrics = r at hlog hheard ⊢
      rw [hwrites] at hlog
      have hmetrics := h.withMetrics r.2.2
      split
      · have hend := hmetrics.endWrite hlive hstored hsigned
          ⟨hs.accepting, hs.blocks, hs.finalized, hs.underway.idle, hs.underway.begun⟩ hq hsignature hheard
        rw [← hlog] at hend
        exact hend
      · refine ⟨h.signings, h.queue, h.backlog, stored, log, more, hstored, hlog, hsigned,
          .inl ⟨hlive, hs.accepting, hs.blocks, hs.finalized, nofun, ?_⟩⟩
        rintro _ ⟨⟩
        exact ⟨queued, rest, hq, hsignature, hheard⟩
  · exact h

/-- **Every duty keeps the flow of blocks.** -/
theorem Flow.perform {signer : Signer σ} {writer : Writer ω} {t : σ × SignLog} {u : ω × WriteLog}
    (h : s.Flow closed t.2 u.2 base)
    (hinj : ∀ a ∈ closed, ∀ b ∈ closed, a.number = b.number → a = b) (duty : Duty) :
    let r := s.perform signer.recorded writer.recorded duty t u
    r.1.Flow closed r.2.1.2 r.2.2.1.2 base := by
  cases duty with
  | takeUp => exact h.takeUp
  | sign number => exact (h.signNumber hinj number).2
  | noteSigned number => exact h.noteSigned hinj number
  | consider => exact h.consider
  | write => exact h.write
  | noteWritten => exact h.noteWritten

/-! ### What duties leave alone -/

/-- The stream apart from what signing is about. -/
def apart (s : StreamState) : StreamState :=
  { s with supplied := .pending, accepting := true, backlog := [], signings := [], queue := [], metrics := {} }

section

variable (signer : Signer σ) (writer : Writer ω) (s : StreamState) (t : σ) (u : ω)

theorem apart_stopWaiting (starts : List StartState) : (s.stopWaiting starts).apart = s.apart := by
  unfold stopWaiting
  split <;> rfl

theorem apart_takeUpFrom (blocks : List ClosedBlock) : (s.takeUpFrom blocks).1.apart = s.apart := by
  induction blocks generalizing s with
  | nil => rfl
  | cons block rest ih =>
    rw [StreamState.takeUpFrom]
    split
    · simp only
      split
      · exact ih _
      · exact apart_stopWaiting _ _
    · rfl

theorem apart_goOnSigning (signing : Signing) : (goOnSigning signer s signing t).1.apart = s.apart := by
  unfold goOnSigning
  split
  · rfl
  · simp only
    split <;> rfl

theorem apart_perform {duty : Duty} (hduty : duty.signs = true) :
    (s.perform signer writer duty t u).1.apart = s.apart := by
  cases duty with
  | takeUp => exact s.apart_takeUpFrom _
  | sign number =>
    simp only [perform, StreamState.signNumber]
    split
    · exact apart_goOnSigning signer s t _
    · rfl
  | noteSigned number =>
    simp only [perform, StreamState.noteSigned]
    split
    · split <;> rfl
    · rfl
  | consider => cases hduty
  | write => cases hduty
  | noteWritten => cases hduty

/-- A duty of signing leaves alone what does not depend on signing. -/
theorem perform_of_signs {α : Type} (f : StreamState → α) (hf : ∀ s, f s.apart = f s) {duty : Duty}
    (hduty : duty.signs = true) : f (s.perform signer writer duty t u).1 = f s := by
  rw [← hf, apart_perform signer writer s t u hduty, hf]

/-- A halt drops what is queued or being written. -/
theorem plain_halt (e : StreamError) :
    (s.halt e).plain = ({ s with halted := some e.message, queue := [], writing := none } : StreamState).plain :=
  plain_stopWaiting _ _

theorem plain_stopAccepting :
    s.stopAccepting.plain = ({ s with accepting := false, backlog := [] } : StreamState).plain := plain_stopWaiting _ _

/-- A write of the first queued block begins, or production stops, or nothing is due. -/
theorem consider_cases :
    s.consider.1 = s ∨ s.writing = none ∧
      ((∃ e, s.consider.1 = s.halt e) ∨
        ∃ startState signature, s.consider.1 = { s with writing := some ⟨startState, signature, none⟩ }) := by
  unfold consider
  split
  · rename_i hidle _
    unfold beginWrite
    split
    · exact .inr ⟨hidle, .inl ⟨_, rfl⟩⟩
    · split
      · exact .inl rfl
      · exact .inr ⟨hidle, .inl ⟨_, rfl⟩⟩
      · exact .inr ⟨hidle, .inr ⟨_, _, rfl⟩⟩
  · exact .inl rfl

theorem intake_halt (e : StreamError) : (s.halt e).intake = s.intake :=
  (of_plain intake (fun _ => rfl) (s.plain_halt e)).trans rfl

theorem intake_consider : s.consider.1.intake = s.intake := by
  rcases s.consider_cases with h | ⟨-, ⟨e, h⟩ | ⟨startState, signature, h⟩⟩ <;> rw [h]
  · exact s.intake_halt e
  · rfl

theorem intake_endWrite (block : ClosedBlock) (outcome : Except StreamError Unit) :
    (s.endWrite block outcome).1.intake = s.intake := by
  unfold StreamState.endWrite
  split
  · exact s.intake_halt _
  · exact intake_consider _

theorem intake_write : (s.write writer u).1.intake = s.intake := by
  unfold StreamState.write
  split
  · unfold writeFirst
    split
    · exact s.intake_halt _
    · simp only
      split
      · exact intake_endWrite _ _ _
      · rfl
  · rfl

/-- **No duty changes what calls are about.** -/
theorem intake_perform (duty : Duty) : (s.perform signer writer duty t u).1.intake = s.intake := by
  cases duty with
  | consider => exact s.intake_consider
  | write => exact intake_write writer s u
  | noteWritten =>
    simp only [perform, StreamState.noteWritten]
    split
    · exact s.intake_endWrite _ _
    · rfl
  | _ => exact perform_of_signs signer writer s t u intake (fun _ => rfl) rfl

/-! ### A stream that has halted -/

/-- Nothing is written from an empty queue, and a stream with an empty queue halts no more. -/
theorem perform_of_queue_nil (hq : s.queue = []) (duty : Duty) :
    (s.perform signer writer duty t u).2.2.1 = u ∧
      (s.perform signer writer duty t u).1.halted = s.halted := by
  cases duty with
  | consider =>
    have hnone : s.consider = (s, []) := by
      unfold StreamState.consider
      rw [hq]
      split
      · rename_i h
        cases h
      · rfl
    simp only [perform, hnone, and_self]
  | write =>
    have hnone : s.write writer u = (s, u, []) := by
      unfold StreamState.write
      rw [hq]
      split
      · rename_i h
        cases h
      · rfl
    simp only [perform, hnone, and_self]
  | noteWritten =>
    have hnone : s.noteWritten = (s, []) := by
      unfold StreamState.noteWritten
      rw [hq]
      split
      · rename_i h
        cases h
      · rfl
    simp only [perform, hnone, and_self]
  | _ => exact ⟨rfl, perform_of_signs signer writer s t u halted (fun _ => rfl) rfl⟩

end

end StreamState

end RoundChain
