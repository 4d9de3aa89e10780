import RoundChain.Libraries
import RoundChain.Proofs.Growth
import RoundChain.Store.Memory

/-!
# What the store gets

The blocks that a session writes are the first of those that it closed, one chain in one
order, each with its items and one proof: `Course.chain_production`. The order in which
signings end, the state hashes that arrive and the failures of signer and store decide
only how far the store comes.

## The model

The theorem reads the logs. What a store took for a block is a `Delivery`; every call to
it is `InTurn`, so there is none for a later block before an earlier one is closed. Once
production has halted there are no calls any more.
-/

namespace RoundChain

variable {σ ω : Type}

/-- The log of a store at any time: blocks that were written, the first of the closed ones, and perhaps
attempts to write the next. -/
theorem StreamState.Flow.written {closed : List ClosedBlock} {signed : SignLog} {writes : WriteLog}
    {base : StreamInfo} {s : StreamState} (h : s.Flow closed signed writes base) :
    ∃ written log more, Stored s.config.batchSize written log ∧ writes = log ++ more ∧
      (∀ w ∈ written, (w.block.hash, .ok w.signature) ∈ signed) ∧
      written.map Written.block <+: closed ∧
      (more = [] ∨ ∃ next : Written, written.map Written.block ++ [next.block] <+: closed ∧
        next.Trying s.config.batchSize more) := by
  rcases h.store with ⟨stored, log, more, hstored, hwrites, hsigned, ⟨-, hs⟩ | ⟨-, hs⟩⟩
  swap
  · exact ⟨stored, log, more, hstored, hwrites, hsigned, hs.blocks, hs.tried⟩
  have hblocks : stored.map Written.block <+: closed := by
    rw [← hs.blocks, List.append_assoc]
    exact List.prefix_append ..
  cases hwriting : s.writing with
  | none => exact ⟨stored, log, more, hstored, hwrites, hsigned, hblocks, .inl (hs.underway.idle hwriting)⟩
  | some write =>
    obtain ⟨queued, rest, hq, hsignature, hheard⟩ := hs.underway.begun write hwriting
    obtain ⟨startState, signature, outcome⟩ := write
    match outcome with
    | none => exact ⟨stored, log, more, hstored, hwrites, hsigned, hblocks, .inl hheard⟩
    | some (.error _) =>
      exact ⟨stored, log, more, hstored, hwrites, hsigned, hblocks,
        .inr ⟨⟨queued.block, startState, signature⟩, hs.written_queued hq, hheard⟩⟩
    | some (.ok ()) =>
      -- the block is in the store, although the stream has not noticed yet
      have hnow : Stored s.config.batchSize (stored ++ [⟨queued.block, startState, signature⟩])
          (log ++ more) := hstored.concat hheard
      refine ⟨_, _, [], hnow, by rw [hwrites, List.append_nil], ?_, ?_, .inl rfl⟩
      · intro w hw
        rcases List.mem_append.mp hw with hw | hw
        · exact hsigned w hw
        · obtain rfl := List.mem_singleton.mp hw
          exact hsignature
      · rw [List.map_append]
        exact hs.written_queued hq

/-- A block that was written has its proof in the log. -/
theorem Stored.proof_mem {size : Nat} {ws : List Written} {log : WriteLog} (h : Stored size ws log) {w : Written}
    (hw : w ∈ ws) : (.item w.proof, .ok ()) ∈ log := by
  induction h with
  | nil => cases hw
  | concat _ hmore ih =>
    rcases List.mem_append.mp hw with hw | hw
    · exact List.mem_append_left _ (ih hw)
    · obtain rfl := List.mem_singleton.mp hw
      obtain ⟨batches, tries, -, -, rfl⟩ := hmore
      refine List.mem_append_right _ (List.mem_append_right _ ?_)
      exact List.mem_map_of_mem (by simp [blockCalls])

/-- What the store took are the first of the closed blocks, with their proofs. -/
theorem StreamState.Flow.delivered {closed : List ClosedBlock} {signed : SignLog} {writes : WriteLog}
    {base : StreamInfo} {s : StreamState} (h : s.Flow closed signed writes base) :
    ∃ written : List Written, written.map Written.block <+: closed ∧
      List.Forall₂ Delivery.Brings (deliveries writes) written ∧
      ∀ w ∈ written, (.item w.proof, .ok ()) ∈ writes := by
  obtain ⟨written, log, more, hstored, rfl, -, hblocks, htried⟩ := h.written
  refine ⟨written, hblocks, ?_, fun w hw => List.mem_append_left _ (hstored.proof_mem hw)⟩
  rcases htried with rfl | ⟨next, -, htrying⟩
  · rw [List.append_nil]
    exact hstored.brings
  · rw [deliveries_append_of_quiet htrying.concerns.2]
    exact hstored.brings

namespace Course

variable {signer : Signer σ} {writer : Writer ω} {config : StreamConfig} {policy : BoundaryPolicy}
  {ledger : Option StreamInfo} {c : Course σ ω}

/-! ### Halts -/

/-- A stream that has halted has an empty queue. -/
theorem Regular.queue_eq_nil (h : c.Regular config policy ledger) (hhalted : c.stream.halted ≠ none) :
    c.stream.queue = [] := by
  obtain ⟨base, hflow⟩ := h.flow
  rcases hflow.store with ⟨stored, log, more, -, -, -, ⟨hlive, -⟩ | ⟨-, hs⟩⟩
  · exact absurd hlive hhalted
  · exact hs.queue

/-- A stream that has halted stays so, and its store is not called any more. -/
theorem Regular.halted_step (h : c.Regular config policy ledger) (hhalted : c.stream.halted ≠ none)
    (happening : Happening σ ω) (hlimits : (c.step signer writer happening).WithinLimits) :
    (c.step signer writer happening).stream.halted ≠ none ∧
      (c.step signer writer happening).store.2 = c.store.2 := by
  cases happening with
  | call call =>
    rcases c.call_cases call hlimits with hstays | ⟨-, ht, hstep⟩
    · rw [hstays]
      exact ⟨hhalted, rfl⟩
    · have hsame : (c.stream.take call).2.halted = c.stream.halted := ht.halted_eq
      rw [hstep]
      exact ⟨hsame ▸ hhalted, rfl⟩
  | stop =>
    rw [Course.step]
    split
    · exact ⟨hhalted, rfl⟩
    · refine ⟨?_, rfl⟩
      have hsame : c.stream.stopIntake.core.halted = c.stream.halted := by
        rw [StreamState.core_stopIntake]
        rfl
      exact hsame ▸ hhalted
  | supply hash =>
    refine ⟨?_, rfl⟩
    have hsame := StreamState.of_core StreamState.halted (fun _ => rfl) (c.stream.core_supplyInitial hash)
    exact hsame ▸ hhalted
  | abandon =>
    refine ⟨?_, rfl⟩
    have hsame := StreamState.of_core StreamState.halted (fun _ => rfl) c.stream.core_abandonInitial
    exact hsame ▸ hhalted
  | work duty =>
    obtain ⟨hstore, hsame⟩ := StreamState.perform_of_queue_nil signer.recorded writer.recorded c.stream
      c.signer c.store (h.queue_eq_nil hhalted) duty
    exact ⟨by rw [Course.step, hsame]; exact hhalted, congrArg Prod.snd hstore⟩
  | resume => exact ⟨hhalted, rfl⟩
  | signer state => exact ⟨hhalted, rfl⟩
  | store state => exact ⟨hhalted, rfl⟩

theorem Regular.halted_run (h : c.Regular config policy ledger) (hhalted : c.stream.halted ≠ none)
    {hs : List (Happening σ ω)} (hlimits : (c.run signer writer hs).WithinLimits) :
    (c.run signer writer hs).store.2 = c.store.2 := by
  have hstill := run_induction signer writer
    (P := fun d => d.Regular config policy ledger ∧ d.stream.halted ≠ none ∧ d.store.2 = c.store.2)
    (fun d happening ⟨hr, hd, hstore⟩ hl => by
      obtain ⟨hd', hstore'⟩ := hr.halted_step hd happening hl
      exact ⟨hr.step happening hl, hd', hstore'.trans hstore⟩)
    ⟨h, hhalted, rfl⟩ hlimits
  exact hstill.2.2

/-! ### Chain production -/

/-- **The store gets the chain.** In every session within limits, over a ledger state or from an anchor,
the blocks that were closed are linked from where the chain stood. Those whose close succeeded at the store
are the first of them; the store took for each the frames of its items and one proof, which carries the link
and a signature that the signer gave for the hash of the block. Every call to the store was in turn, and
there was none after production halted. -/
theorem chain_production (signer : Signer σ) (writer : Writer ω) (config : StreamConfig)
    (policy : BoundaryPolicy) (start : InitialState) (ledger : Option StreamInfo) (σ₀ : σ) (ω₀ : ω)
    (hs : List (Happening σ ω)) (info : StreamInfo)
    (hlimits : (ofSession signer writer config policy start ledger σ₀ ω₀ hs).WithinLimits)
    (hinfo : (ofSession signer writer config policy start ledger σ₀ ω₀ hs).Continues ledger
      config.version info) :
    let session := ofSession signer writer config policy start ledger σ₀ ω₀
    let c := session hs
    Linked info.height info.lastHash c.made.closed ∧
      (∃ written : List Written,
        written.map Written.block <+: c.made.closed ∧
        List.Forall₂ Delivery.Brings (deliveries c.store.2) written ∧
        ∀ w ∈ written, (w.block.hash, .ok w.signature) ∈ c.signer.2) ∧
      InTurn info.height c.store.2 ∧
      ∀ earlier later, hs = earlier ++ later → (session earlier).stream.halted ≠ none →
        c.store.2 = (session earlier).store.2 := by
  intro session c
  have hregular : c.Regular config policy ledger := regular_ofSession hlimits
  obtain ⟨hlinked, base, hflow⟩ := hregular.chain hinfo
  obtain ⟨written, log, more, hstored, hwrites, hsigned, hblocks, htried⟩ := hflow.written
  have hnumber := fun i w hi => number_of_linked (hlinked.of_prefix hblocks) (i := i) (w := w) hi
  have hbrings := hstored.brings
  have hturn := hstored.inTurn hnumber
  have hwritten : deliveries c.store.2 = deliveries log ∧ InTurn info.height c.store.2 := by
    rw [hwrites]
    rcases htried with rfl | ⟨next, hnext, htrying⟩
    · rw [List.append_nil]
      exact ⟨rfl, hturn⟩
    · refine ⟨deliveries_append_of_quiet htrying.concerns.2, hturn.append htrying.concerns.1 ?_⟩
      rw [hbrings.length_eq]
      refine (hlinked.of_prefix hnext).number_eq ?_
      simp
  refine ⟨hlinked, ⟨written, hblocks, ?_, hsigned⟩, hwritten.2, ?_⟩
  · rw [hwritten.1]
    exact hbrings
  · rintro earlier later rfl hhalted
    have hrun : c = (session earlier).run signer writer later := ofSession_append ..
    have hlimits' : ((session earlier).run signer writer later).WithinLimits := hrun ▸ hlimits
    have hstill := (regular_ofSession hlimits'.of_run).halted_run hhalted hlimits'
    rw [hrun, hstill]

/-- One round and the work on its block. -/
def oneRound : List (Happening SchemeSigner MemoryStore) :=
  [.call (.initLastHash .zero), .call (.startRound 1 ⟨⟨0⟩, 0⟩), .call (.writeItem (.eventTransaction [7])),
    .call (.endRound 1), .work .takeUp, .work (.sign 0), .work .consider, .work .write]

/-- A session of one round, with blocks in memory. -/
def oneRoundSession : Course SchemeSigner MemoryStore :=
  ofSession SchemeSigner.signer MemoryStore.writer {} .configured ⟨0, Promise.resolved .zero⟩ none
    SchemeSigner.trivial MemoryStore.new oneRound

set_option maxRecDepth 10000 in
theorem chain_production_one_round :
    oneRoundSession.WithinLimits ∧
      oneRoundSession.Continues none ⟨0, 1, 0⟩ (.anchored .zero ⟨0, 1, 0⟩) ∧
      (deliveries oneRoundSession.store.2).length = 1 ∧
      Linked 0 .zero oneRoundSession.made.closed ∧ InTurn 0 oneRoundSession.store.2 := by
  have hlimits : oneRoundSession.WithinLimits := by decide +kernel
  have hinfo : oneRoundSession.Continues none ⟨0, 1, 0⟩ (.anchored .zero ⟨0, 1, 0⟩) :=
    .inr ⟨rfl, .zero, by decide +kernel, rfl⟩
  obtain ⟨hlinked, -, hturn, -⟩ := chain_production SchemeSigner.signer MemoryStore.writer {} .configured
    ⟨0, Promise.resolved .zero⟩ none SchemeSigner.trivial MemoryStore.new oneRound _ hlimits hinfo
  exact ⟨hlimits, hinfo, by decide +kernel, hlinked, hturn⟩

end Course

end RoundChain
