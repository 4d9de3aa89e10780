import RoundChain.Proofs.ChainProduction
import RoundChain.Proofs.Exactness

/-!
# The hashes that are written

A write begins once the hash of the state that its block starts from is known, and the proof
names this hash however often the write is tried. So what holds of every hash that a stream
finds for a start state holds of every hash in its log: `StreamState.Holding.perform` and
`StreamState.item_of_perform`.

## The model

`R` stands for what is known of start states and their hashes. A stream resolves soundly for
`R` if what it finds is in `R`; that depends on what it knows of state hashes, and no duty adds
to that.
-/

namespace RoundChain

variable {σ ω : Type}

/-! ### Proofs are told apart by number and hash -/

theorem Codec.Exact.encode_inj {α : Type} {c : Codec α} (h : c.Exact fun _ => True) {x y : α} {r r' : Bytes}
    (heq : c.encode x ++ r = c.encode y ++ r') : x = y ∧ r = r' := by
  have hx := (h.decode_iff (c.encode x ++ r) x r).mpr ⟨trivial, rfl⟩
  have hy := (h.decode_iff (c.encode x ++ r) y r').mpr ⟨trivial, heq⟩
  rw [hx] at hy
  cases hy
  exact ⟨rfl, rfl⟩

/-- The bytes of a proof tell the number of its block and the hash that the block starts from. -/
theorem ClosedBlock.proofItem_inj {a b : ClosedBlock} {startA startB : BlockHash} {signA signB : BlockSignature}
    (h : (a.proofItem startA signA).encode = (b.proofItem startB signB).encode) :
    a.number = b.number ∧ startA = startB := by
  have hproof := List.append_cancel_left (show Codec.tag 6 ++ Codec.blockProof.encode _ = _ from h)
  obtain ⟨hnumber, hrest⟩ := Codec.exact_word64.encode_inj hproof
  obtain ⟨-, hrest⟩ := Codec.exact_hash.encode_inj hrest
  obtain ⟨hstart, -⟩ := Codec.exact_hash.encode_inj hrest
  exact ⟨hnumber, hstart⟩

/-! ### Entries of a log -/

section

variable {number : UInt64} {batches : List Bytes} {proof : Bytes}

/-- The only item that is written by itself is the proof. -/
theorem item_mem_blockCalls {bytes : Bytes} (h : .item bytes ∈ blockCalls number batches proof) : bytes = proof := by
  simpa [blockCalls] using h

theorem Tried.mem_calls {calls : List WriteCall} {log : WriteLog} (h : Tried calls log)
    {entry : WriteCall × Except WriteError Unit} (hentry : entry ∈ log) : entry.1 ∈ calls := by
  obtain ⟨before, call, after, e, rfl, rfl⟩ := h
  rcases List.mem_append.mp hentry with hbefore | hlast
  · obtain ⟨other, hother, rfl⟩ := List.mem_map.mp hbefore
    exact List.mem_append_left _ hother
  · rw [List.mem_singleton.mp hlast]
    simp

theorem Attempted.mem_calls {calls : List WriteCall} {log : WriteLog} (h : Attempted calls log)
    {entry : WriteCall × Except WriteError Unit} (hentry : entry ∈ log) : entry.1 ∈ calls := by
  obtain ⟨tries, htries, rfl⟩ := h
  obtain ⟨attempt, hattempt, hmem⟩ := List.mem_flatten.mp hentry
  exact (htries attempt hattempt).mem_calls hmem

theorem writeBlock_mem_calls (writer : Writer ω) (retry : RetryPolicy) (number : UInt64) (calls : List WriteCall)
    (u : ω × WriteLog) (m : Metrics) {entry : WriteCall × Except WriteError Unit}
    (hentry : entry ∈ (writeBlock writer.recorded retry number calls u m).2.1.2) : entry ∈ u.2 ∨ entry.1 ∈ calls := by
  obtain ⟨tries, htries, ⟨-, hlog⟩ | ⟨e, -, hlog⟩⟩ := writeBlock_recorded writer retry number calls u m
  · rw [hlog] at hentry
    rcases List.mem_append.mp hentry with hold | hnew
    · exact .inl hold
    · rcases List.mem_append.mp hnew with htried | hlast
      · exact .inr (htries.mem_calls htried)
      · obtain ⟨call, hcall, rfl⟩ := List.mem_map.mp hlast
        exact .inr hcall
  · rw [hlog] at hentry
    rcases List.mem_append.mp hentry with hold | htried
    · exact .inl hold
    · exact .inr (htries.mem_calls htried)

end

namespace StreamState

variable {R : StartState → BlockHash → Prop} {s t : StreamState}

/-! ### Writes that have begun -/

/-- What the stream finds for a start state is in `R`. -/
def ResolvesIn (R : StartState → BlockHash → Prop) (s : StreamState) : Prop :=
  ∀ startState hash, s.resolve startState = some (.ok hash) → R startState hash

/-- A write that has begun is of the first queued block, with a hash that is in `R`. -/
def Holding (R : StartState → BlockHash → Prop) (s : StreamState) : Prop :=
  ∀ write, s.writing = some write →
    ∃ queued rest, s.queue = queued :: rest ∧ R queued.block.startState write.startState

theorem Holding.of_core_eq (h : s.Holding R) (ht : t.core = s.core) : t.Holding R := by
  have hwriting := of_core writing (fun _ => rfl) ht
  have hqueue := of_core queue (fun _ => rfl) ht
  intro write hw
  rw [hqueue]
  exact h write (hwriting ▸ hw)

theorem holding_of_idle (h : s.writing = none) : s.Holding R := by
  intro write hw
  rw [h] at hw
  cases hw

theorem holding_halt (e : StreamError) : (s.halt e).Holding R := by
  have hcore : (s.halt e).core = { s with halted := some e.message, queue := [], writing := none }.core :=
    core_stopWaiting _ _
  exact Holding.of_core_eq (holding_of_idle rfl) hcore

/-- What happens to the blocks behind the first, and to signings, does not matter. -/
theorem Holding.withQueue (h : s.Holding R) (hwriting : t.writing = s.writing)
    (hqueue : ∀ queued rest, s.queue = queued :: rest →
      ∃ queued' rest', t.queue = queued' :: rest' ∧ queued'.block = queued.block) : t.Holding R := by
  intro write hw
  obtain ⟨queued, rest, hq, hr⟩ := h write (hwriting ▸ hw)
  obtain ⟨queued', rest', hq', hblock⟩ := hqueue queued rest hq
  exact ⟨queued', rest', hq', hblock ▸ hr⟩

theorem Holding.stopAccepting (h : s.Holding R) : s.stopAccepting.Holding R := by
  have hcore : s.stopAccepting.core = { s with accepting := false, backlog := [] }.core := core_stopWaiting _ _
  exact Holding.of_core_eq (s := { s with accepting := false, backlog := [] }) h hcore

theorem Holding.takeUpFrom {blocks : List ClosedBlock} (h : s.Holding R) : (s.takeUpFrom blocks).1.Holding R := by
  induction blocks generalizing s with
  | nil => exact h
  | cons block rest ih =>
    rw [StreamState.takeUpFrom]
    split
    · simp only
      split
      · refine ih (h.withQueue rfl fun queued others hq => ⟨queued, others ++ [⟨block, none⟩], ?_, rfl⟩)
        simp [startSigning, enqueue, hq]
      · exact Holding.stopAccepting (s := { s.startSigning block with backlog := block :: rest }) h
    · exact h

theorem Holding.endSigning (h : s.Holding R) (signing : Signing) (outcome : Except StreamError BlockSignature) :
    (s.endSigning signing outcome).1.Holding R := by
  refine h.withQueue rfl fun queued rest hq => ?_
  simp only [StreamState.endSigning, hq, List.map_cons]
  refine ⟨_, _, rfl, ?_⟩
  split <;> rfl

theorem Holding.goOnSigning {signer : Signer σ} {σ₀ : σ} (h : s.Holding R) (signing : Signing) :
    (StreamState.goOnSigning signer s signing σ₀).1.Holding R := by
  unfold StreamState.goOnSigning
  split
  · exact h
  · simp only
    split
    · exact Holding.endSigning (s := { s with metrics := _ }) h signing _
    · exact h

theorem Holding.signNumber {signer : Signer σ} {σ₀ : σ} (h : s.Holding R) (number : UInt64) :
    (s.signNumber signer number σ₀).1.Holding R := by
  unfold StreamState.signNumber
  split
  · exact h.goOnSigning _
  · exact h

theorem Holding.noteSigned (h : s.Holding R) (number : UInt64) : (s.noteSigned number).1.Holding R := by
  unfold StreamState.noteSigned
  split
  · split
    · exact h.endSigning _ _
    · exact h
  · exact h

/-- A write begins with what the stream finds. -/
theorem Holding.consider (h : s.Holding R) (hs : s.ResolvesIn R) : s.consider.1.Holding R := by
  unfold StreamState.consider
  split
  · rename_i block outcome rest _ hq
    unfold beginWrite
    split
    · exact holding_halt _
    · split
      · exact h
      · exact holding_halt _
      · rename_i hash hresolved
        rintro _ ⟨⟩
        exact ⟨_, rest, hq, hs _ hash hresolved⟩
  · exact h

theorem holding_endWrite (hs : s.ResolvesIn R) (block : ClosedBlock) (outcome : Except StreamError Unit) :
    (s.endWrite block outcome).1.Holding R := by
  cases outcome with
  | error e => exact holding_halt e
  | ok done => exact Holding.consider (holding_of_idle rfl) hs

theorem Holding.write {writer : Writer ω} {ω₀ : ω} (h : s.Holding R) (hs : s.ResolvesIn R) :
    (s.write writer ω₀).1.Holding R := by
  unfold StreamState.write
  split
  · rename_i startState signature queued rest hw hq
    unfold writeFirst
    split
    · exact holding_halt _
    · simp only
      split
      · refine holding_endWrite ?_ _ _
        exact hs
      · obtain ⟨first, others, hfirst, hr⟩ := h _ hw
        rintro _ ⟨⟩
        exact ⟨first, others, hfirst, hr⟩
  · exact h

theorem Holding.noteWritten (h : s.Holding R) (hs : s.ResolvesIn R) : s.noteWritten.1.Holding R := by
  unfold StreamState.noteWritten
  split
  · exact holding_endWrite hs _ _
  · exact h

/-- **Whatever a duty begins to write has a hash that the stream found.** -/
theorem Holding.perform {signer : Signer σ} {writer : Writer ω} {σ₀ : σ} {ω₀ : ω} (h : s.Holding R)
    (hs : s.ResolvesIn R) (duty : Duty) : (s.perform signer writer duty σ₀ ω₀).1.Holding R := by
  cases duty with
  | takeUp => exact h.takeUpFrom
  | sign number => exact h.signNumber number
  | noteSigned number => exact h.noteSigned number
  | consider => exact h.consider hs
  | write => exact h.write hs
  | noteWritten => exact h.noteWritten hs

/-- **An item that a duty writes by itself is the proof of the first queued block**, with the hash that its write
began with. -/
theorem item_of_perform {signer : Signer σ} {writer : Writer ω} {σ₀ : σ} {u : ω × WriteLog} {duty : Duty}
    {bytes : Bytes} {answer : Except WriteError Unit}
    (h : (.item bytes, answer) ∈ (s.perform signer writer.recorded duty σ₀ u).2.2.1.2) :
    (.item bytes, answer) ∈ u.2 ∨ ∃ write queued rest, s.writing = some write ∧ s.queue = queued :: rest ∧
      bytes = (queued.block.proofItem write.startState write.signature).encode := by
  cases duty with
  | write =>
    rw [perform] at h
    simp only at h
    unfold StreamState.write at h
    split at h
    · rename_i startState signature queued rest hw hq
      unfold writeFirst at h
      split at h
      · exact .inl h
      · rename_i calls hcalls
        obtain ⟨batches, -, hcalls⟩ := bind_eq_ok_iff.mp hcalls
        cases hcalls
        have hlog : (.item bytes, answer) ∈ (writeBlock writer.recorded s.config.writeRetry queued.block.number
            (blockCalls queued.block.number batches (queued.block.proofItem startState signature).encode)
            u s.metrics).2.1.2 := by
          simp only at h
          split at h <;> exact h
        rcases writeBlock_mem_calls writer _ _ _ _ _ hlog with hold | hnew
        · exact .inl hold
        · exact .inr ⟨_, queued, rest, hw, hq, item_mem_blockCalls hnew⟩
    · exact .inl h
  | _ => exact .inl h

end StreamState

end RoundChain
