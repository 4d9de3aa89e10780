import RoundChain.Proofs.CallLogs
import RoundChain.Proofs.Conservation
import RoundChain.Proofs.Finalized
import RoundChain.Proofs.Retries
import Mathlib.Data.List.Induction

/-!
# What the counters say

A stream counts rounds, items and closed blocks as calls bring them about, and stored
blocks as it notices them. `Course.counters_exact` ties these numbers to what happened:
after any session the counters are the rounds that were started, the items of all blocks,
closed or open, the closed blocks, and the blocks in the store; and what is in flight is
the difference, which no clamp ever changes.

## The model

Counters are words, so they say how many events there were if there were fewer than a
word can count. `StreamState.Shows` is what calls keep: the counters of intake, together
with the items of the open block, are those of the history. `StreamState.Settles` is what
a duty does: it counts the blocks that the store took and that it notices. A write that
has ended while the stream still waits for its attempts is noticed by a later duty, so
the store can be ahead by that one block, `StreamState.unnoticed`.
-/

namespace RoundChain

variable {σ ω : Type}

theorem ofNat_succ (n : Nat) : UInt64.ofNat n + 1 = .ofNat (n + 1) := (UInt64.ofNat_add n 1).symm

/-- The counters of intake. -/
def Metrics.tally (m : Metrics) : UInt64 × UInt64 × UInt64 := (m.rounds, m.items, m.closed)

/-- As long as no more blocks are stored than have closed, nothing is cut off. -/
theorem Metrics.inFlight_toNat {m : Metrics} (h : m.finalized ≤ m.closed) :
    m.inFlight.toNat + m.finalized.toNat = m.closed.toNat := by
  rw [inFlight, if_pos h, UInt64.toNat_sub_of_le _ _ h]
  exact Nat.sub_add_cancel (UInt64.le_iff_toNat_le.mp h)

/-- How many items closed blocks have. -/
def totalItems (closed : List ClosedBlock) : Nat := (closed.flatMap (·.items)).length

namespace StreamState

variable {s t : StreamState} {rounds stored : Nat} {closed : List ClosedBlock}

/-! ### Calls -/

/-- The items of the open block. -/
def openItems (s : StreamState) : Nat := s.pending.elim 0 (·.items.length)

/-- The counters say that so many rounds were started, that so many blocks are stored, and how many items these closed
blocks and the open one have. -/
structure Shows (s : StreamState) (rounds : Nat) (closed : List ClosedBlock) (stored : Nat) : Prop where
  rounds : s.metrics.rounds = .ofNat rounds
  items : s.metrics.items = .ofNat (totalItems closed + s.openItems)
  finalized : s.metrics.finalized = .ofNat stored

theorem Shows.of_metrics_eq (h : s.Shows rounds closed stored) (hmetrics : t.metrics = s.metrics)
    (hitems : t.openItems = s.openItems) : t.Shows rounds closed stored := by
  refine ⟨?_, ?_, ?_⟩ <;> rw [hmetrics]
  · exact h.rounds
  · rw [hitems]
    exact h.items
  · exact h.finalized

theorem Shows.of_plain_eq (h : s.Shows rounds closed stored) (ht : t.plain = s.plain) : t.Shows rounds closed stored :=
  h.of_metrics_eq (of_plain metrics (fun _ => rfl) ht) (of_plain openItems (fun _ => rfl) ht)

theorem metrics_founded (s : StreamState) : s.founded.metrics = s.metrics := by
  unfold founded bootstrap
  split
  · rfl
  · split
    · rfl
    · simp only
      split <;> rfl

/-- A block that opens brings its header. -/
theorem Shows.openBlock (h : s.Shows rounds closed stored) (hnone : s.pending = none) {round : UInt64}
    {time : Timestamp} (hok : (s.openBlock round time).1 = .ok ()) : (s.openBlock round time).2.Shows rounds closed stored := by
  unfold StreamState.openBlock at hok ⊢
  rcases s.startStateFor_cases round with ⟨limit, hl⟩ | ⟨startState, hstate⟩
  · rw [StreamCall.andThen_of_error hl] at hok
    cases hok
  rw [StreamCall.andThen_of_ok hstate] at hok ⊢
  split at hok
  · cases hok
  rename_i block hstart
  obtain ⟨-, -, -, hitems⟩ := PendingBlock.start_eq_ok hstart
  have hasked := h.of_plain_eq (s.plain_startStateFor round)
  have hempty : (s.startStateFor round).2.openItems = 0 := by
    rw [of_plain openItems (fun _ => rfl) (s.plain_startStateFor round), openItems, hnone]
    rfl
  refine ⟨hasked.rounds, ?_, hasked.finalized⟩
  simp only [Metrics.countItem, openItems, Option.elim, hitems]
  rw [hasked.items, hempty, ofNat_succ]
  rfl

theorem Shows.joinRound (h : s.Shows rounds closed stored) {round : UInt64} {time : Timestamp}
    (hok : (s.joinRound round time).1 = .ok ()) : (s.joinRound round time).2.Shows rounds closed stored := by
  unfold StreamState.joinRound at hok ⊢
  cases hpending : s.pending with
  | some block =>
    refine h.of_metrics_eq rfl ?_
    simp only [openItems, hpending]
    rfl
  | none =>
    simp only [hpending] at hok ⊢
    exact h.openBlock hpending hok

/-- A round that starts is counted. -/
theorem Shows.startRound (h : s.Shows rounds closed stored) {round : UInt64} {time : Timestamp}
    (hok : (s.startRound round time).1 = .ok ()) : (s.startRound round time).2.Shows (rounds + 1) closed stored := by
  obtain ⟨-, hfound, hjoin, -, hstarted⟩ := startRound_eq_ok hok
  obtain ⟨-, hpending, -⟩ := founded_spec hfound
  have hfounded : s.founded.Shows rounds closed stored :=
    h.of_metrics_eq s.metrics_founded
      (by rw [openItems, openItems, hpending])
  have hjoined := hfounded.joinRound hjoin
  rw [hstarted]
  refine ⟨?_, hjoined.items, hjoined.finalized⟩
  show (s.founded.joinRound round time).2.metrics.rounds + 1 = _
  rw [hjoined.rounds, ofNat_succ]

/-- An item that is added is counted. -/
theorem Shows.writeItem (h : s.Shows rounds closed stored) (item : Item) :
    (s.writeItem item).2.Shows rounds closed stored := by
  unfold StreamState.writeItem
  split
  · exact h
  · exact h
  rename_i block _ hpending
  split
  · exact h
  rename_i extended happend
  obtain ⟨framed, -, rfl⟩ := PendingBlock.push_eq_ok_iff.mp (PendingBlock.append_eq_ok_iff.mp happend).2
  refine ⟨h.rounds, ?_, h.finalized⟩
  simp only [Metrics.countItem, openItems, Option.elim, PendingBlock.extend, List.length_append, List.length_singleton]
  rw [h.items, ofNat_succ, openItems, hpending, Nat.add_assoc]
  rfl

/-- A round in which no block closes leaves the stream, or ends. -/
theorem endRound_of_not_closing {round : UInt64} (hnone : s.closing? round = none) :
    (s.endRound round).2 = s ∨ (s.endRound round).2 = s.afterRound := by
  cases hphase : s.phase with
  | awaitingRound =>
    left
    simp only [StreamState.endRound, hphase]
  | roundOpen opened time =>
    by_cases hround : opened = round
    · right
      subst hround
      rw [endRound_of_open hphase]
      unfold closeAtBoundary
      split
      · rfl
      · rename_i block hpending
        rw [if_neg]
        intro hcloses
        rw [closing?_eq_some_iff.mpr ⟨hphase, hpending, hcloses⟩] at hnone
        cases hnone
    · left
      simp only [StreamState.endRound, hphase, ne_eq, hround, not_false_eq_true, if_true]

/-- A block that closes within limits is counted once, whether or not it is still taken. -/
theorem metrics_extendChain {block : ClosedBlock}
    (hlimits : Checked.exceeds (s.extendChain block).1 = false) :
    (s.extendChain block).2.metrics = s.metrics.countClosed ∧ (s.extendChain block).2.pending = s.pending := by
  unfold extendChain at hlimits ⊢
  simp only at hlimits ⊢
  cases hnext : nextWord (ε := StreamError) block.number with
  | error e =>
    obtain ⟨limit, rfl⟩ := nextWord_eq_error hnext
    rw [hnext] at hlimits
    cases hlimits
  | ok next =>
    simp only [handOver]
    split
    · exact ⟨(of_plain metrics (fun _ => rfl) (plain_must _ _)).trans rfl,
        (of_plain pending (fun _ => rfl) (plain_must _ _)).trans rfl⟩
    · exact ⟨rfl, rfl⟩

/-- The end of a round counts what it makes: a block with its two boundary batches, or nothing. -/
theorem metrics_endRound {round : UInt64} (hlimits : Checked.exceeds (s.endRound round).1 = false) :
    (s.endRound round).2.metrics = s.metrics ∧ (s.made (.endRound round)).closed = [] ∧
        ((s.endRound round).2.pending = s.pending ∨
          ∃ block time, s.pending = some block ∧
            (s.made (.endRound round)).batches = [s.capturedAt time, s.positionAt time] ∧
            ∃ e, block.sealed time (s.capturedAt time) (s.positionAt time) = .error e) ∨
      ∃ block time last, s.pending = some block ∧
        block.sealed time (s.capturedAt time) (s.positionAt time) = .ok last ∧
        (s.made (.endRound round)).closed = [last] ∧
        (s.endRound round).2.metrics = s.metrics.countItem.countItem.countClosed ∧
        (s.endRound round).2.pending = none := by
  cases hclosing : s.closing? round with
  | none =>
    left
    rw [made_of_closing?_eq_none hclosing]
    rcases endRound_of_not_closing hclosing with hsame | hafter
    · rw [hsame]
      exact ⟨rfl, rfl, .inl rfl⟩
    · rw [hafter]
      exact ⟨rfl, rfl, .inl rfl⟩
  | some closing =>
    obtain ⟨block, time⟩ := closing
    have hpending := (closing?_eq_some_iff.mp hclosing).2.1
    rw [endRound_of_closing hclosing] at hlimits ⊢
    by_cases hidle : s.boundary.phase = .idle
    · rw [closeBlock_of_idle hidle] at hlimits ⊢
      simp only [made, hclosing, if_pos hidle]
      cases hsealed : block.sealed time (s.capturedAt time) (s.positionAt time) with
      | error e =>
        rw [sealBlock_of_error hsealed]
        exact .inl ⟨rfl, rfl, .inr ⟨block, time, hpending, rfl, e, hsealed⟩⟩
      | ok last =>
        rw [sealBlock_of_ok hsealed] at hlimits ⊢
        obtain ⟨hmetrics, hnone⟩ := metrics_extendChain hlimits
        exact .inr ⟨block, time, last, hpending, hsealed, rfl, hmetrics, hnone⟩
    · rw [closeBlock_of_blocked hidle]
      have hnothing : (s.made (.endRound round)).closed = [] := by simp only [made, hclosing, if_neg hidle]
      exact .inl ⟨rfl, hnothing, .inl rfl⟩

/-- A block that closes brings the two boundary batches. -/
theorem Shows.endRound (h : s.Shows rounds closed stored) {round : UInt64}
    (hlimits : Checked.exceeds (s.endRound round).1 = false)
    (hfits : ∀ batch ∈ (s.made (.endRound round)).batches, batch.Fits) :
    (s.endRound round).2.Shows rounds (closed ++ (s.made (.endRound round)).closed) stored := by
  rcases metrics_endRound hlimits with ⟨hmetrics, hnone, hopen | ⟨block, time, -, hbatches, e, hrefused⟩⟩ |
    ⟨block, time, last, hpending, hsealed, hclosed, hmetrics, hnone⟩
  · rw [hnone, List.append_nil]
    exact h.of_metrics_eq hmetrics (by rw [openItems, openItems, hopen])
  · rw [hbatches] at hfits
    obtain ⟨last, hlast⟩ := block.exists_sealed time (hfits (s.capturedAt time) List.mem_cons_self)
      (hfits (s.positionAt time) (List.mem_cons_of_mem _ List.mem_cons_self))
    cases hrefused.symm.trans hlast
  · have hitems := (PendingBlock.sealed_eq_ok hsealed).items
    refine ⟨?_, ?_, ?_⟩
    · rw [hmetrics]
      exact h.rounds
    · rw [hmetrics, hclosed, openItems, hnone]
      show s.metrics.items + 1 + 1 = _
      rw [h.items, ofNat_succ, ofNat_succ, openItems, hpending]
      simp [totalItems, hitems, Nat.add_assoc]
    · rw [hmetrics]
      exact h.finalized

/-- **What the counters of intake say after a call.** -/
theorem Shows.take (h : s.Shows rounds closed stored) (call : IntakeCall)
    (hlimits : Checked.exceeds (s.take call).1 = false) (hfits : ∀ batch ∈ (s.made call).batches, batch.Fits) :
    (s.take call).2.Shows (rounds + (startedBy (call, (s.take call).1)).toList.length)
      (closed ++ (s.made call).closed) stored := by
  -- only the end of a round closes anything
  have hkept : s.Shows rounds (closed ++ []) stored := (List.append_nil closed).symm ▸ h
  cases call with
  | startRound round time =>
    simp only [StreamState.take] at hlimits ⊢
    rcases s.startRound_cases round time with ⟨limit, hl⟩ | ⟨e, hrefused⟩ | ⟨hok, -⟩
    · rw [hl] at hlimits
      cases hlimits
    · rw [hrefused]
      exact hkept
    · rw [hok]
      exact hkept.startRound hok
  | endRound round => exact h.endRound hlimits hfits
  | writeItem item => exact hkept.writeItem item
  | notify round hash => exact hkept.of_plain_eq (s.plain_notify round hash)
  | capture batch => exact hkept.of_metrics_eq rfl rfl
  | initLastHash hash =>
    rcases s.initLastHash_cases hash with hcall | ⟨-, -, hcall⟩ <;> rw [StreamState.take, hcall]
    · exact hkept
    · exact hkept.of_metrics_eq rfl rfl
  | beginBoundary time =>
    rcases s.beginBoundary_cases time with ⟨e, hcall⟩ | ⟨boundary, -, hcall⟩ <;> rw [StreamState.take, hcall]
    · exact hkept
    · exact hkept.of_metrics_eq rfl rfl
  | flushBoundary =>
    rcases s.flushBoundary_cases with ⟨e, hcall⟩ | ⟨batch, boundary, -, hcall⟩ <;> rw [StreamState.take, hcall]
    · exact hkept
    · exact hkept.of_metrics_eq rfl rfl

/-- A round that starts closes nothing. -/
theorem closed_startRound {round : UInt64} {time : Timestamp} (hok : (s.startRound round time).1 = .ok ()) :
    (s.startRound round time).2.metrics.closed = s.metrics.closed := by
  obtain ⟨-, -, hjoin, -, hstarted⟩ := startRound_eq_ok hok
  have hjoined : (s.founded.joinRound round time).2.metrics.closed = s.founded.metrics.closed := by
    unfold StreamState.joinRound at hjoin ⊢
    cases hpending : s.founded.pending with
    | some block => rfl
    | none =>
      simp only [hpending] at hjoin ⊢
      unfold StreamState.openBlock at hjoin ⊢
      rcases s.founded.startStateFor_cases round with ⟨limit, hl⟩ | ⟨startState, hstate⟩
      · rw [StreamCall.andThen_of_error hl] at hjoin
        cases hjoin
      have hmetrics : (s.founded.startStateFor round).2.metrics = s.founded.metrics :=
        of_plain metrics (fun _ => rfl) (s.founded.plain_startStateFor round)
      have hclosed := congrArg Metrics.closed hmetrics
      rw [StreamCall.andThen_of_ok hstate] at hjoin ⊢
      split at hjoin
      · cases hjoin
      · exact hclosed
  rw [hstarted]
  exact hjoined.trans (congrArg Metrics.closed s.metrics_founded)

/-- **A call counts the block that it closes**, whatever becomes of its items. -/
theorem closed_take (s : StreamState) (call : IntakeCall) (hlimits : Checked.exceeds (s.take call).1 = false) :
    (s.take call).2.metrics.closed = s.metrics.closed + .ofNat (s.made call).closed.length := by
  -- only the end of a round closes anything
  have hkept : s.metrics.closed = s.metrics.closed + .ofNat 0 := (UInt64.add_zero _).symm
  cases call with
  | startRound round time =>
    simp only [StreamState.take] at hlimits ⊢
    rcases s.startRound_cases round time with ⟨limit, hl⟩ | ⟨e, hrefused⟩ | ⟨hok, -⟩
    · rw [hl] at hlimits
      cases hlimits
    · rw [hrefused]
      exact hkept
    · exact (closed_startRound hok).trans hkept
  | endRound round =>
    simp only [StreamState.take] at hlimits ⊢
    rcases metrics_endRound hlimits with ⟨hmetrics, hnone, -⟩ | ⟨_, _, _, -, -, hclosed, hmetrics, -⟩
    · rw [hmetrics, hnone]
      exact hkept
    · rw [hmetrics, hclosed]
      rfl
  | writeItem item =>
    have hitem : (s.writeItem item).2.metrics.closed = s.metrics.closed := by
      unfold StreamState.writeItem
      split
      · rfl
      · rfl
      · split <;> rfl
    exact hitem.trans hkept
  | notify round hash =>
    exact (congrArg Metrics.closed (of_plain metrics (fun _ => rfl) (s.plain_notify round hash))).trans hkept
  | capture batch => exact hkept
  | initLastHash hash =>
    rcases s.initLastHash_cases hash with hcall | ⟨-, -, hcall⟩ <;> rw [StreamState.take, hcall] <;> exact hkept
  | beginBoundary time =>
    rcases s.beginBoundary_cases time with ⟨e, hcall⟩ | ⟨boundary, -, hcall⟩ <;> rw [StreamState.take, hcall] <;>
      exact hkept
  | flushBoundary =>
    rcases s.flushBoundary_cases with ⟨e, hcall⟩ | ⟨batch, boundary, -, hcall⟩ <;> rw [StreamState.take, hcall] <;>
      exact hkept

/-! ### Duties -/

/-- What a duty does to the counters: it counts the blocks that the store took once it notices them, and nothing
else. -/
structure Settles (s t : StreamState) (log more : WriteLog) : Prop where
  tally : t.metrics.tally = s.metrics.tally
  stored : ∃ n, t.metrics.finalized = s.metrics.finalized + .ofNat n ∧
    (deliveries more).length + s.unnoticed = (deliveries log).length + n + t.unnoticed

variable {log more : WriteLog}

/-- A duty that neither counts nor writes. -/
theorem Settles.kept (htally : t.metrics.tally = s.metrics.tally)
    (hfinalized : t.metrics.finalized = s.metrics.finalized) (hunnoticed : t.unnoticed = s.unnoticed) : s.Settles t log log := by
  refine ⟨htally, 0, ?_, ?_⟩
  · rw [hfinalized]
    exact (UInt64.add_zero _).symm
  · rw [hunnoticed]
    rfl

theorem Settles.of_metrics_eq (hmetrics : t.metrics = s.metrics) (hunnoticed : t.unnoticed = s.unnoticed) :
    s.Settles t log log :=
  .kept (congrArg Metrics.tally hmetrics) (congrArg Metrics.finalized hmetrics) hunnoticed

theorem metrics_halt (s : StreamState) (e : StreamError) : (s.halt e).metrics = s.metrics ∧ (s.halt e).writing = none :=
  ⟨(of_plain metrics (fun _ => rfl) (s.plain_halt e)).trans rfl,
    (of_plain writing (fun _ => rfl) (s.plain_halt e)).trans rfl⟩

theorem metrics_takeUpFrom (blocks : List ClosedBlock) :
    (s.takeUpFrom blocks).1.metrics = s.metrics ∧ (s.takeUpFrom blocks).1.writing = s.writing := by
  induction blocks generalizing s with
  | nil => exact ⟨rfl, rfl⟩
  | cons block rest ih =>
    rw [StreamState.takeUpFrom]
    split
    · simp only
      split
      · exact ih
      · have hplain := plain_stopAccepting { s.startSigning block with backlog := block :: rest }
        exact ⟨(of_plain metrics (fun _ => rfl) hplain).trans rfl, (of_plain writing (fun _ => rfl) hplain).trans rfl⟩
    · exact ⟨rfl, rfl⟩

/-- Signing counts only how often it asks again. -/
theorem settles_goOnSigning (signer : Signer σ) (signing : Signing) (σ₀ : σ × SignLog) :
    s.Settles (goOnSigning signer.recorded s signing σ₀).1 log log := by
  unfold goOnSigning
  split
  · exact .kept rfl rfl rfl
  · rename_i σ₁ _
    obtain ⟨n, last, -, -, hsigned, -⟩ :=
      signBlock_within signer signing.number signing.hash s.config.signingRetry σ₁ s.metrics
    simp only [hsigned]
    split <;> exact .kept rfl rfl rfl

theorem metrics_consider (s : StreamState) :
    s.consider.1.metrics = s.metrics ∧ s.consider.1.unnoticed = s.unnoticed := by
  rcases s.consider_cases with h | ⟨hidle, ⟨e, h⟩ | ⟨startState, signature, h⟩⟩ <;> rw [h]
  · exact ⟨rfl, rfl⟩
  · obtain ⟨hmetrics, hwriting⟩ := s.metrics_halt e
    exact ⟨hmetrics, by rw [unnoticed, unnoticed, hwriting, hidle]⟩
  · exact ⟨rfl, by rw [unnoticed, unnoticed, hidle]; rfl⟩

/-- The end of a write is counted if it has ended well. -/
theorem settles_endWrite (htally : t.metrics.tally = s.metrics.tally)
    (hfinalized : t.metrics.finalized = s.metrics.finalized) (block : ClosedBlock) {write : BlockWrite} {outcome : Except StreamError Unit}
    (houtcome : write.outcome = some outcome)
    (hbrought : (deliveries more).length + s.unnoticed = (deliveries log).length + write.brought) :
    s.Settles (t.endWrite block outcome).1 log more := by
  rw [BlockWrite.brought, houtcome] at hbrought
  cases outcome with
  | error e =>
    obtain ⟨hmetrics, hwriting⟩ := t.metrics_halt e
    refine ⟨(congrArg Metrics.tally hmetrics).trans htally, 0, ?_, ?_⟩
    · rw [← hfinalized, ← hmetrics]
      exact (UInt64.add_zero _).symm
    · show _ = _ + (t.halt e).unnoticed
      rw [unnoticed, unnoticed, hwriting]
      exact hbrought
  | ok done =>
    obtain ⟨hmetrics, hnoticed⟩ := (({ t with writing := none } : StreamState).recordFinalized block).metrics_consider
    refine ⟨(congrArg Metrics.tally hmetrics).trans htally, 1, ?_, ?_⟩
    · rw [← hfinalized]
      exact congrArg Metrics.finalized hmetrics
    · rw [endWrite, hnoticed]
      exact hbrought

theorem settles_noteWritten (s : StreamState) : s.Settles s.noteWritten.1 log log := by
  unfold noteWritten
  split
  · rename_i startState signature outcome queued rest hw hq
    let write : BlockWrite := ⟨startState, signature, some outcome⟩
    have hnoticed : (deliveries log).length + s.unnoticed = (deliveries log).length + write.brought := by
      rw [unnoticed, hw]
      rfl
    exact settles_endWrite rfl rfl queued.block rfl hnoticed
  · exact .kept rfl rfl rfl

theorem settles_write (s : StreamState) (writer : Writer ω) (u : ω × WriteLog) :
    s.Settles (s.write writer.recorded u).1 u.2 (s.write writer.recorded u).2.1.2 := by
  unfold write
  split
  · rename_i startState signature queued rest hw hq
    have hnone : s.unnoticed = 0 := by
      rw [unnoticed, hw]
      rfl
    unfold writeFirst
    split
    · rename_i e _
      obtain ⟨hmetrics, hwriting⟩ := s.metrics_halt e
      exact .of_metrics_eq hmetrics (by rw [hnone, unnoticed, hwriting]; rfl)
    · rename_i calls hcalls
      obtain ⟨batches, hframes, hcalls⟩ := bind_eq_ok_iff.mp hcalls
      cases hcalls
      obtain ⟨log, hlog, hheard⟩ := heard_writeBlock writer s.config.writeRetry s.config.batchSize queued.block
        startState signature hframes u s.metrics
      obtain ⟨n, last, -, -, ⟨tries, -, -, hwritten⟩, -⟩ := writeBlock_within writer queued.block.number
        (blockCalls queued.block.number batches (queued.block.proofItem startState signature).encode)
        s.config.writeRetry u s.metrics
      simp only
      generalize writeBlock writer.recorded s.config.writeRetry queued.block.number
        (blockCalls queued.block.number batches (queued.block.proofItem startState signature).encode)
        u s.metrics = r at hlog hheard hwritten ⊢
      have hbrought := hheard.deliveries_length u.2
      rw [← hlog] at hbrought
      have htally : r.2.2.tally = s.metrics.tally := by rw [hwritten]; rfl
      have hfinalized : r.2.2.finalized = s.metrics.finalized := by rw [hwritten]
      split
      · exact settles_endWrite (t := { s with metrics := r.2.2 }) htally hfinalized queued.block rfl
          (by rw [hnone]; exact hbrought)
      · refine ⟨htally, 0, ?_, ?_⟩
        · rw [← hfinalized]
          exact (UInt64.add_zero _).symm
        · rw [hnone]
          exact hbrought
  · exact .kept rfl rfl rfl

/-- **What a duty does to the counters.** -/
theorem settles_perform (s : StreamState) (signer : Signer σ) (writer : Writer ω) (duty : Duty) (σ₀ : σ × SignLog)
    (u : ω × WriteLog) :
    s.Settles (s.perform signer.recorded writer.recorded duty σ₀ u).1 u.2
      (s.perform signer.recorded writer.recorded duty σ₀ u).2.2.1.2 := by
  cases duty with
  | takeUp =>
    obtain ⟨hmetrics, hwriting⟩ := s.metrics_takeUpFrom s.backlog
    exact .of_metrics_eq hmetrics (congrArg (Option.elim · 0 BlockWrite.brought) hwriting)
  | sign number =>
    simp only [perform, signNumber]
    split
    · exact settles_goOnSigning signer _ σ₀
    · exact .kept rfl rfl rfl
  | noteSigned number =>
    simp only [perform, noteSigned]
    split
    · split <;> exact .kept rfl rfl rfl
    · exact .kept rfl rfl rfl
  | consider =>
    obtain ⟨hmetrics, hnoticed⟩ := s.metrics_consider
    exact .of_metrics_eq hmetrics hnoticed
  | write => exact s.settles_write writer u
  | noteWritten => exact s.settles_noteWritten

end StreamState

/-! ### Courses -/

namespace Course

variable {signer : Signer σ} {writer : Writer ω} {config : StreamConfig} {policy : BoundaryPolicy}
  {ledger : Option StreamInfo} {c : Course σ ω} {stored : Nat}

/-- The items of all blocks of a session: of those that closed, and of the one that is open, or was when intake
ended. -/
def blockItems (c : Course σ ω) : Nat := totalItems c.made.closed + c.open?.elim 0 (·.items.length)

/-- The counters say what happened in a session; so many blocks are stored that the stream has noticed. -/
structure Counted (c : Course σ ω) (stored : Nat) : Prop where
  rounds : c.stream.metrics.rounds = .ofNat (roundsStarted c.calls).length
  items : c.stream.metrics.items = .ofNat c.blockItems
  finalized : c.stream.metrics.finalized = .ofNat stored
  delivered : (deliveries c.store.2).length = stored + c.stream.unnoticed

theorem counted_start (config : StreamConfig) (policy : BoundaryPolicy) (start : InitialState)
    (ledger : Option StreamInfo) (signer : σ) (store : ω) :
    (Course.start (.initial config policy start ledger) signer store).Counted 0 := ⟨rfl, rfl, rfl, rfl⟩

/-- What concerns state hashes and duties only is not counted, and neither is what others do. -/
theorem Counted.aside (h : c.Counted stored) {stream : StreamState} {signer' : σ × SignLog} {store : ω × WriteLog}
    (hplain : stream.plain = c.stream.plain) (hstore : store.2 = c.store.2) :
    Counted { c with stream, signer := signer', store } stored := by
  have hmetrics : stream.metrics = c.stream.metrics := StreamState.of_plain (·.metrics) (fun _ => rfl) hplain
  have hpending : stream.pending = c.stream.pending := StreamState.of_plain (·.pending) (fun _ => rfl) hplain
  have hnoticed : stream.unnoticed = c.stream.unnoticed := StreamState.of_plain (·.unnoticed) (fun _ => rfl) hplain
  refine ⟨?_, ?_, ?_, ?_⟩ <;> simp only [blockItems, open?, hmetrics, hpending, hnoticed, hstore]
  · exact h.rounds
  · exact h.items
  · exact h.finalized
  · exact h.delivered

/-- When intake ends, the open block stays counted. -/
theorem Counted.stops (h : c.Counted stored) (hleft : c.left = none) :
    Counted { c with stream := c.stream.stopIntake, stopped := true, left := c.stream.pending } stored := by
  have hplain := c.stream.plain_stopIntake
  have hmetrics : c.stream.stopIntake.plain.metrics = c.stream.metrics := by rw [hplain]; rfl
  have hnone : c.stream.stopIntake.plain.pending = none := by rw [hplain]
  have hnoticed : c.stream.stopIntake.plain.unnoticed = c.stream.unnoticed := by rw [hplain]; rfl
  have hopen : (c.stream.stopIntake.plain.pending <|> c.stream.pending) = c.open? := by
    rw [hnone, open?, hleft]
    cases c.stream.pending <;> rfl
  refine ⟨(congrArg Metrics.rounds hmetrics).trans h.rounds, ?_,
    (congrArg Metrics.finalized hmetrics).trans h.finalized, ?_⟩
  · refine (congrArg Metrics.items hmetrics).trans (h.items.trans ?_)
    rw [blockItems, ← hopen]
    rfl
  · exact h.delivered.trans (congrArg (stored + ·) hnoticed.symm)

/-- A call. -/
theorem Counted.takes (h : c.Counted stored) (hleft : c.left = none) {call : IntakeCall}
    (ht : StreamState.Takes c.stream call (c.stream.take call).1 (c.stream.take call).2.core (c.stream.made call))
    (hlimits : Checked.exceeds (c.stream.take call).1 = false)
    (hfits : ∀ batch ∈ (c.stream.made call).batches, batch.Fits) : (c.called call).Counted stored := by
  have hopen : ∀ s : StreamState, (s.pending <|> c.left) = s.pending := by
    intro s
    rw [hleft]
    cases s.pending <;> rfl
  have hshows : c.stream.Shows (roundsStarted c.calls).length c.made.closed stored := by
    refine ⟨h.rounds, ?_, h.finalized⟩
    rw [h.items, blockItems, open?, hopen]
    rfl
  obtain ⟨hrounds, hitems, hfinalized⟩ := hshows.take call hlimits hfits
  refine ⟨?_, ?_, hfinalized, ?_⟩
  · rw [called, roundsStarted_concat, List.length_append]
    exact hrounds
  · simp only [blockItems, called, open?, hopen]
    exact hitems
  · have hwriting : (c.stream.take call).2.writing = c.stream.writing := ht.writing_eq.1
    simp only [called, StreamState.unnoticed, hwriting]
    exact h.delivered

/-- A duty. -/
theorem Counted.work (h : c.Counted stored) (signer : Signer σ) (writer : Writer ω) (duty : Duty) :
    ∃ stored', (c.step signer writer (.work duty)).Counted stored' := by
  have hsettles := c.stream.settles_perform signer writer duty c.signer c.store
  obtain ⟨htally, n, hfinalized, hdelivered⟩ := hsettles
  have hintake := c.stream.intake_perform signer.recorded writer.recorded c.signer c.store duty
  have hopen : (c.step signer writer (.work duty)).open? = c.open? :=
    congrArg (fun s => s.pending <|> c.left) hintake
  obtain ⟨hrounds, hrest⟩ := Prod.mk.inj htally
  obtain ⟨hitems, -⟩ := Prod.mk.inj hrest
  refine ⟨stored + n, hrounds.trans h.rounds, ?_, ?_, ?_⟩
  · rw [blockItems, hopen]
    exact hitems.trans h.items
  · rw [UInt64.ofNat_add, ← h.finalized]
    exact hfinalized
  · have hbefore := h.delivered
    simp only [Course.step]
    omega

/-- **Every step within limits is counted as it should be**, as long as boundary batches fit. -/
theorem Counted.step (h : c.Counted stored) (hc : c.Conserved config.version) (happening : Happening σ ω)
    (hlimits : (c.step signer writer happening).WithinLimits) (hfits : (c.step signer writer happening).BatchesFit) :
    ∃ stored', (c.step signer writer happening).Counted stored' := by
  cases happening with
  | call call =>
    rcases c.call_cases call hlimits with hstays | ⟨hgoing, ht, hstep⟩
    · rw [hstays]
      exact ⟨stored, h⟩
    · rw [hstep] at hlimits hfits ⊢
      exact ⟨stored, h.takes (hc.going hgoing) ht (hlimits _ (List.mem_append_right _ (List.mem_singleton_self _)))
        fun batch hbatch => hfits batch (List.mem_append_right _ hbatch)⟩
  | stop =>
    rw [Course.step]
    split
    · exact ⟨stored, h⟩
    · rename_i hgoing
      exact ⟨stored, h.stops (hc.going ((Bool.not_eq_true _).mp hgoing))⟩
  | work duty => exact h.work signer writer duty
  | supply hash => exact ⟨stored, h.aside (c.stream.plain_supplyInitial hash) rfl⟩
  | abandon => exact ⟨stored, h.aside c.stream.plain_abandonInitial rfl⟩
  | resume => exact ⟨stored, h.aside rfl rfl⟩
  | signer state => exact ⟨stored, h.aside rfl rfl⟩
  | store state => exact ⟨stored, h.aside rfl rfl⟩

/-- The counters of a session within limits whose boundary batches fit say what happened in it. -/
theorem counted_ofSession {start : InitialState} {σ₀ : σ} {ω₀ : ω} {hs : List (Happening σ ω)}
    (hlimits : (ofSession signer writer config policy start ledger σ₀ ω₀ hs).WithinLimits)
    (hfits : (ofSession signer writer config policy start ledger σ₀ ω₀ hs).BatchesFit) :
    ∃ stored, (ofSession signer writer config policy start ledger σ₀ ω₀ hs).Counted stored := by
  induction hs using List.reverseRecOn with
  | nil => exact ⟨0, counted_start config policy start ledger σ₀ ω₀⟩
  | append_singleton hs happening ih =>
    rw [ofSession_concat] at hlimits hfits ⊢
    have hbefore : (ofSession signer writer config policy start ledger σ₀ ω₀ hs).WithinLimits :=
      fun entry hentry => hlimits entry ((calls_step _ happening).subset hentry)
    have hfitted := hfits.of_moves (moves_step _ happening hlimits)
    obtain ⟨stored, hcounted⟩ := ih hbefore hfitted
    exact hcounted.step (conserved_ofSession hbefore hfitted) happening hlimits hfits

/-- No more blocks are counted as stored than have closed. -/
theorem Counted.stored_le (h : c.Counted stored) (hc : c.Regular config policy ledger) :
    stored ≤ c.made.closed.length := by
  have hflow : ∃ base, c.stream.Flow c.made.closed c.signer.2 c.store.2 base := by
    rcases hc.progress with ⟨-, hmade, base, hflow⟩ | ⟨info, -, -, hflow⟩
    · exact ⟨base, by rw [hmade]; exact hflow⟩
    · exact ⟨info, hflow⟩
  obtain ⟨base, hflow⟩ := hflow
  obtain ⟨n, hdelivered, hle, -⟩ := hflow.counted
  have hsame := h.delivered
  omega

/-- The number of the next block is a word, so closed blocks can be counted. -/
theorem Regular.closed_lt_size (h : c.Regular config policy ledger) : c.made.closed.length < UInt64.size := by
  rcases h.progress with ⟨-, hmade, -⟩ | ⟨info, -, hgrown, -⟩
  · rw [hmade]
    decide
  · have hword := c.stream.nextNumber.toNat_lt
    rw [hgrown.nextNumber] at hword
    exact lt_of_le_of_lt (Nat.le_add_left _ _) hword

/-- **A session within limits counts the blocks that it closes.** -/
theorem closed_ofSession {start : InitialState} {σ₀ : σ} {ω₀ : ω} {hs : List (Happening σ ω)}
    (hlimits : (ofSession signer writer config policy start ledger σ₀ ω₀ hs).WithinLimits) :
    let c := ofSession signer writer config policy start ledger σ₀ ω₀ hs
    c.stream.metrics.closed.toNat = c.made.closed.length := by
  intro c
  have hcounted : c.stream.metrics.closed = .ofNat c.made.closed.length := by
    refine run_induction signer writer (P := fun d => d.stream.metrics.closed = .ofNat d.made.closed.length)
      (fun d happening h hl => ?_) rfl hlimits
    have haside : ∀ {stream : StreamState}, stream.plain = d.stream.plain →
        stream.metrics.closed = .ofNat d.made.closed.length := fun hplain =>
      (congrArg Metrics.closed (StreamState.of_plain (·.metrics) (fun _ => rfl) hplain)).trans h
    cases happening with
    | call call =>
      rcases d.call_cases call hl with hstays | ⟨-, -, hstep⟩
      · rw [hstays]
        exact h
      · rw [hstep] at hl ⊢
        have hcall := hl _ (List.mem_append_right _ (List.mem_singleton_self _))
        refine (d.stream.closed_take call hcall).trans ?_
        rw [h, Made.add, List.length_append, UInt64.ofNat_add]
    | stop =>
      rw [Course.step]
      split
      · exact h
      · have hmetrics : d.stream.stopIntake.plain.metrics = d.stream.metrics := by
          rw [d.stream.plain_stopIntake]
          rfl
        exact (congrArg Metrics.closed hmetrics).trans h
    | work duty =>
      have htally := (d.stream.settles_perform signer writer duty d.signer d.store).tally
      exact (congrArg (fun tally => tally.2.2) htally).trans h
    | supply hash => exact haside (d.stream.plain_supplyInitial hash)
    | abandon => exact haside d.stream.plain_abandonInitial
    | _ => exact h
  rw [hcounted, UInt64.toNat_ofNat_of_lt' (regular_ofSession hlimits).closed_lt_size]

/-- **The counters are exact.** In every session within limits whose boundary batches fit into frames, and in which
fewer rounds were started and fewer items were put into blocks than a word can count, the counters are the numbers
of rounds that were started, of items in the closed blocks and in the open one, and of closed blocks. Closed blocks
are also what the session has added to the height of the chain it continues. The store has the blocks that are
counted as stored, and besides, between the end of a write and its being noticed, the one that was just written.
What is in flight and what is stored make up the closed blocks, so the difference is never cut off at zero. -/
theorem counters_exact (signer : Signer σ) (writer : Writer ω) (config : StreamConfig) (policy : BoundaryPolicy)
    (start : InitialState) (ledger : Option StreamInfo) (σ₀ : σ) (ω₀ : ω) (hs : List (Happening σ ω)) :
    let c := ofSession signer writer config policy start ledger σ₀ ω₀ hs
    let metrics := c.stream.metrics
    c.WithinLimits → c.BatchesFit → (roundsStarted c.calls).length < UInt64.size → c.blockItems < UInt64.size →
      metrics.rounds.toNat = (roundsStarted c.calls).length ∧
      metrics.items.toNat = c.blockItems ∧
      metrics.closed.toNat = c.made.closed.length ∧
      (c.stream.started = true → ∃ info, c.Continues ledger config.version info ∧
        c.stream.nextNumber.toNat = info.height + metrics.closed.toNat) ∧
      (deliveries c.store.2).length = metrics.finalized.toNat + c.stream.unnoticed ∧
      metrics.finalized ≤ metrics.closed ∧
      metrics.inFlight.toNat + metrics.finalized.toNat = c.made.closed.length := by
  intro c metrics hlimits hfits hrounds hitems
  obtain ⟨stored, hcounted⟩ := counted_ofSession hlimits hfits
  have hregular : c.Regular config policy ledger := regular_ofSession hlimits
  have hstored := hcounted.stored_le hregular
  have hnumbers := hregular.closed_lt_size
  have hclosed : metrics.closed.toNat = c.made.closed.length := closed_ofSession hlimits
  have hfinalized : metrics.finalized.toNat = stored := by
    rw [hcounted.finalized, UInt64.toNat_ofNat_of_lt' (lt_of_le_of_lt hstored hnumbers)]
  have hbelow : metrics.finalized ≤ metrics.closed := by
    rw [UInt64.le_iff_toNat_le, hclosed, hfinalized]
    exact hstored
  refine ⟨?_, ?_, hclosed, fun hstarted => ?_, ?_, hbelow, ?_⟩
  · rw [hcounted.rounds, UInt64.toNat_ofNat_of_lt' hrounds]
  · rw [hcounted.items, UInt64.toNat_ofNat_of_lt' hitems]
  · rcases hregular.progress with ⟨hfresh, -⟩ | ⟨info, hcontinues, hgrown, -⟩
    · rw [hfresh.started] at hstarted
      cases hstarted
    · exact ⟨info, hcontinues, by rw [hclosed]; exact hgrown.nextNumber⟩
  · rw [hfinalized]
    exact hcounted.delivered
  · exact (Metrics.inFlight_toNat hbelow).trans hclosed

set_option maxRecDepth 10000 in
theorem counters_exact_round_and_more :
    roundAndMore.WithinLimits ∧ roundAndMore.BatchesFit ∧ (roundsStarted roundAndMore.calls).length = 2 ∧
      roundAndMore.blockItems = 6 ∧ roundAndMore.stream.metrics.rounds.toNat = 2 ∧
      roundAndMore.stream.metrics.items.toNat = 6 ∧ roundAndMore.stream.metrics.inFlight.toNat = 1 := by
  have hlimits : roundAndMore.WithinLimits := by decide +kernel
  have hfits : roundAndMore.BatchesFit := by decide +kernel
  have hrounds : (roundsStarted roundAndMore.calls).length = 2 := by decide +kernel
  have hitems : roundAndMore.blockItems = 6 := by decide +kernel
  have hfinalized : roundAndMore.stream.metrics.finalized.toNat = 0 := by decide +kernel
  have hclosed : roundAndMore.made.closed.length = 1 := by decide +kernel
  obtain ⟨hr, hi, -, -, -, -, hflight⟩ := counters_exact SchemeSigner.signer MemoryStore.writer {} .configured
    ⟨0, Promise.resolved .zero⟩ none SchemeSigner.trivial MemoryStore.new _ hlimits hfits
    (lt_of_eq_of_lt hrounds (by decide)) (lt_of_eq_of_lt hitems (by decide))
  refine ⟨hlimits, hfits, hrounds, hitems, hr.trans hrounds, hi.trans hitems, ?_⟩
  exact (congrArg (_ + ·) hfinalized.symm).trans (hflight.trans hclosed)

end Course

end RoundChain
