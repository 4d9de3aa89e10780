import RoundChain.Proofs.Counters

/-!
# What a stream has of its closed blocks

The history of a session says which blocks it has closed. `Course.Accounts` is what the stream, ledger
state and the store themselves have of these blocks: the stream has counted each of them, its position
is the one that it found with these blocks recorded, ledger state holds the newest position, the store
took the first of them, and those that it did not take are on their way, unless production has halted.
Every session within limits accounts for its blocks so, `Course.accounts_ofSession`, whatever happened
to it.
-/

namespace RoundChain

namespace Course

variable {σ ω : Type} {signer : Signer σ} {writer : Writer ω} {config : StreamConfig} {policy : BoundaryPolicy}
  {ledger : Option StreamInfo} {c : Course σ ω}

/-- The stream, ledger state and the store have the blocks that a session closed. -/
structure Accounts (config : StreamConfig) (ledger : Option StreamInfo) (c : Course σ ω) : Prop where
  counted : c.stream.metrics.closed.toNat = c.made.closed.length
  /-- No block closes before the first round. -/
  fresh : c.stream.started = false → c.made.closed = []
  /-- The position of the stream is the one that it found with the closed blocks. -/
  position : c.stream.started = true → ∃ info, c.Continues ledger config.version info ∧
    Linked info.height info.lastHash c.made.closed ∧
    c.stream.nextNumber.toNat = info.height + c.made.closed.length ∧
    c.stream.lastClosedHash = newestHash info.lastHash c.made.closed ∧
    c.stream.chain = info.recordAll c.made.closed config.trailingLimit
  /-- Ledger state holds the position that was put there last, which is that behind the newest block. -/
  ledger : c.stream.ledger = (c.made.positions.getLast? <|> ledger)
  newest : c.made.closed ≠ [] → c.stream.ledger = some c.stream.chain
  delivered : ∃ written : List Written, written.map Written.block <+: c.made.closed ∧
    List.Forall₂ Delivery.Brings (deliveries c.store.2) written
  waiting : c.stream.halted = none →
    c.stream.queue.map QueuedBlock.block ++ c.stream.backlog <:+ c.made.closed ∧
      (deliveries c.store.2).length + (c.stream.queue.length + c.stream.backlog.length) =
        c.made.closed.length + c.stream.unnoticed

/-- **A session within limits accounts for the blocks that it closed**, whatever happened to it. -/
theorem accounts_ofSession {start : InitialState} {σ₀ : σ} {ω₀ : ω} {hs : List (Happening σ ω)}
    (hlimits : (ofSession signer writer config policy start ledger σ₀ ω₀ hs).WithinLimits) :
    (ofSession signer writer config policy start ledger σ₀ ω₀ hs).Accounts config ledger := by
  have hregular := regular_ofSession hlimits
  obtain ⟨base, hflow⟩ := hregular.flow
  obtain ⟨written, hblocks, hbrings, -⟩ := hflow.delivered
  refine ⟨closed_ofSession hlimits, ?_, ?_, hregular.position, ?_, ⟨written, hblocks, hbrings⟩, hflow.waiting⟩
  · intro hfresh
    rcases hregular.progress with ⟨-, hmade, -⟩ | ⟨info, -, hgrown, -⟩
    · rw [hmade]
    · cases hgrown.started.symm.trans hfresh
  · intro hstarted
    rcases hregular.progress with ⟨hfresh, -⟩ | ⟨info, hcontinues, hgrown, -⟩
    · cases hfresh.started.symm.trans hstarted
    · refine ⟨info, hcontinues, hgrown.linked, hgrown.nextNumber, hgrown.lastHash, ?_⟩
      rw [hgrown.chain, hregular.settings]
  · intro hclosed
    rcases hregular.progress with ⟨-, hmade, -⟩ | ⟨info, -, hgrown, -⟩
    · rw [hmade] at hclosed
      exact absurd rfl hclosed
    · have hlast := hgrown.positions.resolve_right fun hnone => hclosed hnone.2
      rw [hregular.position, hlast]
      rfl

end Course

end RoundChain
