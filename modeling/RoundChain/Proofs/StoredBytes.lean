import RoundChain.Libraries
import RoundChain.Proofs.AppendOnce
import RoundChain.Proofs.Blocks

/-!
# From appended items to stored bytes

A block's items are hashed one by one as they come, hashed again in one go by whoever verifies them,
and written in batches, in as many attempts as it takes. `digests_and_bytes_agree` says that all of
this is about the same bytes: the hash that ran along is the hash of the items' frames, and the store
ends up with these frames and that of the proof, for every batch size and any number of failed closes
that the attempts allow.

## The model

`PendingBlock.appendEach` offers items to an open block, which goes on after those it refuses.
`Writer.Buffers` is what the two stores have in common until a block is closed: a call that fills the
open block leaves the rest of the store alone, so any attempt to write a block comes to the same open
block before its close, `Writer.Buffers.performAll_block`.
-/

namespace RoundChain

/-! ### Appended items -/

/-- Whether an open block takes an item: it is no proof and fits into a frame. -/
def Item.isTaken (item : Item) : Bool := !item.isProof && decide (item.encode.length < UInt32.size)

namespace PendingBlock

/-- The block after items were offered to it, one after the other; refused ones change nothing. -/
def appendEach (block : PendingBlock) (items : List Item) : PendingBlock :=
  items.foldl (fun block item => (block.append item).toOption.getD block) block

theorem append_of_taken (block : PendingBlock) {item : Item} (h : item.isTaken = true) :
    ∃ extended, block.append item = .ok extended := by
  rw [Item.isTaken, Bool.and_eq_true, Bool.not_eq_true', decide_eq_true_eq] at h
  exact exists_append block item h.1 h.2

theorem append_of_not_taken (block : PendingBlock) {item : Item} (h : item.isTaken = false) :
    ∃ e, block.append item = .error e := by
  cases happend : block.append item with
  | error e => exact ⟨e, rfl⟩
  | ok extended =>
    obtain ⟨hproof, hpush⟩ := append_eq_ok_iff.mp happend
    obtain ⟨framed, hframe, -⟩ := push_eq_ok_iff.mp hpush
    simp [Item.isTaken, hproof, (frame_eq_ok_iff.mp hframe).1] at h

/-- The items that a block takes are added to it in their order, and its hasher runs along. -/
theorem appendEach_eq {block : PendingBlock} (hb : block.Sound) (items : List Item) :
    (block.appendEach items).Sound ∧ ∃ hasher,
      block.appendEach items = block.extend ((items.filter Item.isTaken).map Item.encode) hasher := by
  induction items generalizing block with
  | nil => exact ⟨hb, block.hasher, by simp [appendEach, extend]⟩
  | cons item rest ih =>
    rw [appendEach, List.foldl_cons, ← appendEach]
    by_cases htaken : item.isTaken = true
    · obtain ⟨extended, happend⟩ := append_of_taken block htaken
      obtain ⟨_, -, hextended⟩ := push_eq_ok_iff.mp (append_eq_ok_iff.mp happend).2
      obtain ⟨hsound, hasher, hrest⟩ := ih (hb.append happend)
      rw [happend]
      refine ⟨hsound, hasher, ?_⟩
      rw [List.filter_cons_of_pos htaken, List.map_cons]
      exact hrest.trans (by rw [hextended]; simp [extend])
    · obtain ⟨e, happend⟩ := append_of_not_taken block (Bool.not_eq_true _ ▸ htaken)
      rw [happend, List.filter_cons_of_neg htaken]
      exact ih hb

end PendingBlock

/-! ### Hashing in one go -/

/-- Absorbing items one by one hashes their frames; it is refused where framing them is. -/
theorem ItemsHasher.finish_foldlM {h : ItemsHasher} {message : Bytes} (hm : h.hasher.Holds message)
    (items : List Bytes) :
    (items.foldlM ItemsHasher.absorb h).map ItemsHasher.finish =
      (frameItems items).map fun framed => BlockHash.sha384 (message ++ framed) := by
  induction items generalizing h message with
  | nil =>
    have hfinish : h.finish = BlockHash.sha384 (message ++ []) := by
      rw [List.append_nil]
      exact BlockHash.ext hm.finish_eq_sha384
    exact congrArg Except.ok hfinish
  | cons item rest ih =>
    rw [List.foldlM_cons, frameItems]
    cases hframe : frame item with
    | error e =>
      have habsorb : h.absorb item = .error e := by rw [ItemsHasher.absorb, hframe]; rfl
      rw [habsorb]
      rfl
    | ok framed =>
      have habsorb : h.absorb item = .ok ⟨h.hasher.update framed, h.count + 1⟩ := by
        rw [ItemsHasher.absorb, hframe]; rfl
      rw [habsorb, ok_bind, ok_bind, ih (h := ⟨h.hasher.update framed, h.count + 1⟩) (hm.update framed)]
      cases frameItems rest with
      | error e => simp only [Except.map, bind, Except.bind]
      | ok more => simp only [Except.map, ok_bind, return_eq_ok, List.append_assoc]

/-- The hash of items is that of a hasher that absorbed them one by one. -/
theorem itemsHash_eq (items : List Bytes) :
    itemsHash items = (items.foldlM ItemsHasher.absorb .new).map ItemsHasher.finish :=
  (ItemsHasher.finish_foldlM (h := .new) Hasher.holds_new items).symm

namespace PendingBlock

/-- The hash of a block's items is what its hasher holds. -/
theorem Sound.itemsHash_close {block : PendingBlock} (hb : block.Sound) (time : Timestamp) :
    ∃ framed, frameItems block.items = .ok framed ∧ (block.close time).itemsHash = BlockHash.sha384 framed := by
  obtain ⟨framed, hframed, hheld⟩ := hb
  exact ⟨framed, hframed, BlockHash.ext hheld.finish_eq_sha384⟩

end PendingBlock

/-! ### Batches -/

/-- Items that fit into frames can be framed in batches of any size. -/
theorem exists_frameBatches {items : List Bytes} {framed : Bytes} (h : frameItems items = .ok framed) (size : Nat) :
    ∃ batches, frameBatches size items = .ok batches ∧ batches.flatten = framed := by
  obtain ⟨hlength, -⟩ := frameItems_eq_ok_iff.mp h
  have hgroups : ∀ group ∈ chunks size items, frameItems group = .ok (group.flatMap frameBytes) := by
    intro group hgroup
    refine frameItems_eq_ok_iff.mpr ⟨fun item hitem => hlength item ?_, rfl⟩
    rw [← flatten_chunks size items]
    exact List.mem_flatten_of_mem hgroup hitem
  have hbatches : frameBatches size items = .ok ((chunks size items).map (·.flatMap frameBytes)) :=
    mapM_eq_ok_iff.mpr (List.forall₂_map_right_iff.mpr (List.forall₂_same.mpr hgroups))
  refine ⟨_, hbatches, ?_⟩
  exact Except.ok.inj ((frameItems_of_frameBatches hbatches).symm.trans h)

/-! ### Attempts to write -/

/-- The block with this number can be opened: it is open, or none is. -/
def OpenBuffer.Free (buffer : OpenBuffer) (number : UInt64) : Prop :=
  buffer = none ∨ ∃ content, buffer = some (number, content)

namespace Writer

variable {ω ρ : Type} {writer : Writer ω} {opened : ω → OpenBuffer} {rest : ω → ρ}

/-- Until a block is closed, a store answers from its open block and changes nothing else, as far as `rest` shows. -/
structure Buffers (writer : Writer ω) (opened : ω → OpenBuffer) (rest : ω → ρ) : Prop where
  answer : ∀ s call, call ≠ .closeBlock → (writer.perform s call).1 = ((opened s).fill call).map fun _ => ()
  opened : ∀ s call, call ≠ .closeBlock → opened (writer.perform s call).2 = (opened s).filled call
  rest : ∀ s call, call ≠ .closeBlock → rest (writer.perform s call).2 = rest s

theorem performAll_singleton (writer : Writer ω) (s : ω) (call : WriteCall) :
    writer.performAll s [call] = writer.perform s call := by
  cases h : (writer.perform s call).1 with
  | ok _ =>
    rw [performAll_cons_of_ok writer h]
    exact Prod.ext h.symm rfl
  | error e =>
    rw [performAll_cons_of_error writer h]
    exact Prod.ext h.symm rfl

/-- A call that is taken leads to the block with what the call brings. -/
theorem Buffers.performAll_cons (h : Buffers writer opened rest) {s t : ω} {call : WriteCall} {buffer : OpenBuffer}
    (hfill : (opened t).fill call = .ok buffer) (hrest : rest t = rest s) (calls : List WriteCall) :
    ∃ u, opened u = buffer ∧ rest u = rest s ∧ writer.performAll t (call :: calls) = writer.performAll u calls := by
  have hclose : call ≠ .closeBlock := by
    rintro rfl
    cases hfill
  have hanswer : (writer.perform t call).1 = .ok () := by rw [h.answer t call hclose, hfill]; rfl
  exact ⟨(writer.perform t call).2, (h.opened t call hclose).trans (OpenBuffer.filled_of_ok hfill),
    (h.rest t call hclose).trans hrest, performAll_cons_of_ok writer hanswer calls⟩

/-- Batches are taken one after the other. -/
theorem Buffers.performAll_batches (h : Buffers writer opened rest) {s t : ω} {number : UInt64} {content : Bytes}
    (hopened : opened t = some (number, content)) (hrest : rest t = rest s) (batches : List Bytes)
    (calls : List WriteCall) :
    ∃ u, opened u = some (number, content ++ batches.flatten) ∧ rest u = rest s ∧
      writer.performAll t (batches.map .items ++ calls) = writer.performAll u calls := by
  induction batches generalizing t content with
  | nil => exact ⟨t, by simpa using hopened, hrest, rfl⟩
  | cons batch later ih =>
    have hfill : (opened t).fill (.items batch) = .ok (some (number, content ++ batch)) := by rw [hopened]; rfl
    obtain ⟨u, hu, hurest, hcalls⟩ := h.performAll_cons hfill hrest (later.map .items ++ calls)
    obtain ⟨v, hv, hvrest, hmore⟩ := ih hu hurest
    exact ⟨v, by rw [hv, List.flatten_cons, List.append_assoc], hvrest, hcalls.trans hmore⟩

/-- **An attempt to write a block comes to its close with the frames of the whole block open**, whatever was open of
that block before. -/
theorem Buffers.performAll_block (h : Buffers writer opened rest) {s : ω} {number : UInt64}
    (hfree : (opened s).Free number) (batches : List Bytes) {proof framed : Bytes}
    (hproof : frame proof = .ok framed) :
    ∃ t, opened t = some (number, batches.flatten ++ framed) ∧ rest t = rest s ∧
      writer.performAll s (blockCalls number batches proof) = writer.perform t .closeBlock := by
  have hstart : (opened s).fill (.openBlock number) = .ok (some (number, [])) := by
    rcases hfree with hnone | ⟨content, hcontent⟩
    · rw [hnone]; rfl
    · simp only [hcontent, OpenBuffer.fill, OpenBuffer.start, if_true]
  obtain ⟨t, ht, htrest, hopen⟩ :=
    h.performAll_cons hstart rfl (batches.map .items ++ [.item proof, .closeBlock])
  obtain ⟨u, hu, hurest, hbatches⟩ := h.performAll_batches ht htrest batches [.item proof, .closeBlock]
  have hitem : (opened u).fill (.item proof) = .ok (some (number, batches.flatten ++ framed)) := by
    simp only [hu, OpenBuffer.fill, OpenBuffer.addItem, hproof, OpenBuffer.add, List.nil_append]
  obtain ⟨v, hv, hvrest, hlast⟩ := h.performAll_cons hitem hurest [.closeBlock]
  refine ⟨v, hv, hvrest, ?_⟩
  rw [blockCalls, List.cons_append, hopen, hbatches, hlast, performAll_singleton]

end Writer

theorem writeAttempts_of_ok {ω : Type} {writer : Writer ω} {s t : ω} {calls : List WriteCall}
    (h : writer.performAll s calls = (.ok (), t)) (number : UInt64) (left : Nat) (attempt : UInt32) (m : Metrics) :
    writeAttempts writer number calls left attempt s m = ((.ok (), attempt), t, m) := by
  unfold writeAttempts
  rw [h]

theorem writeAttempts_of_retryable {ω : Type} {writer : Writer ω} {s t : ω} {calls : List WriteCall} {e : WriteError}
    (h : writer.performAll s calls = (.error e, t)) (hretry : e.retryable = true) (number : UInt64) (left : Nat)
    (attempt : UInt32) (m : Metrics) :
    writeAttempts writer number calls (left + 1) attempt s m =
      writeAttempts writer number calls left (attempt + 1) t m.countWriteRetry := by
  conv_lhs => unfold writeAttempts
  rw [h]
  exact if_pos hretry

/-! ### Blocks in memory -/

namespace MemoryStore

theorem buffers : Writer.Buffers writer opened fun s => (s.closed, s.failing, s.failingCloses) where
  answer s call hclose := by
    obtain ⟨log, openings, h⟩ := perform_eq_fill s hclose
    exact congrArg Prod.fst h
  opened s call hclose := by
    obtain ⟨log, openings, h⟩ := perform_eq_fill s hclose
    exact congrArg (fun r => opened r.2) h
  rest s call hclose := by
    obtain ⟨log, openings, h⟩ := perform_eq_fill s hclose
    exact congrArg (fun r => (r.2.closed, r.2.failing, r.2.failingCloses)) h

/-- The store can take the block: it can be opened, closes fail only as often as was decided, and no other content
is stored under its number. -/
structure Awaits (s : MemoryStore) (number : UInt64) (framed : Bytes) : Prop where
  free : s.opened.Free number
  willing : s.failing = false
  content : s.content? number = none ∨ s.content? number = some framed

variable {s : MemoryStore} {number : UInt64} {framed : Bytes}

theorem close_of_failingCloses (hopened : s.opened = some (number, framed)) (hwilling : s.failing = false)
    (hfails : 0 < s.failingCloses) :
    ∃ text log, s.close = (.error (.injected text), { s with log, failingCloses := s.failingCloses - 1 }) := by
  simp only [close, hopened, note, hwilling, Bool.false_eq_true, if_false, hfails, if_true]
  exact ⟨_, _, rfl⟩

theorem close_of_willing (hopened : s.opened = some (number, framed)) (hwilling : s.failing = false)
    (hfails : s.failingCloses = 0) (hcontent : s.content? number = none ∨ s.content? number = some framed) :
    ∃ t, s.close = (.ok (), t) ∧ t.content? number = some framed := by
  have hclosed := s.closed_close
  generalize s.close = r at hclosed
  rw [content?] at hcontent
  cases hclosed with
  | idle hnone => cases hnone.symm.trans hopened
  | failed _ hfailing =>
    rcases hfailing with hfailing | hfailing
    · cases hwilling.symm.trans hfailing
    · omega
  | stored hopened' hnew =>
    cases hopened.symm.trans hopened'
    exact ⟨_, rfl, by rw [content?, WordMap.find?_insert, if_pos rfl]⟩
  | repeated hopened' hstored =>
    cases hopened.symm.trans hopened'
    exact ⟨_, rfl, hstored⟩
  | conflict hopened' hstored hother =>
    cases hopened.symm.trans hopened'
    rcases hcontent with hnone | hsame
    · cases hnone.symm.trans hstored
    · exact absurd (Option.some.inj (hstored.symm.trans hsame)) hother

/-- An attempt to write a block: it is stored, or one more of the closes that are to fail has failed. -/
theorem Awaits.attempt (h : s.Awaits number framed) {batches : List Bytes} {proof last : Bytes}
    (hproof : frame proof = .ok last) (hframed : batches.flatten ++ last = framed) :
    (s.failingCloses = 0 ∧ ∃ t, writer.performAll s (blockCalls number batches proof) = (.ok (), t) ∧
      t.content? number = some framed) ∨
    (0 < s.failingCloses ∧ ∃ text t,
      writer.performAll s (blockCalls number batches proof) = (.error (.injected text), t) ∧
      t.Awaits number framed ∧ t.failingCloses + 1 = s.failingCloses) := by
  obtain ⟨t, ht, hrest, hcalls⟩ := buffers.performAll_block h.free batches hproof
  simp only [Prod.mk.injEq] at hrest
  obtain ⟨hclosed, hwilling, hcloses⟩ := hrest
  have hcontent : t.content? = s.content? := by
    funext other
    rw [content?, content?, hclosed]
  rw [hframed] at ht
  rw [hcalls]
  rcases Nat.eq_zero_or_pos s.failingCloses with hzero | hpos
  · exact .inl ⟨hzero, close_of_willing ht (hwilling.trans h.willing) (hcloses.trans hzero) (hcontent ▸ h.content)⟩
  · obtain ⟨text, log, hclose⟩ := close_of_failingCloses ht (hwilling.trans h.willing) (hcloses ▸ hpos)
    refine .inr ⟨hpos, text, _, hclose, ⟨.inr ⟨framed, ht⟩, hwilling.trans h.willing, ?_⟩, ?_⟩
    · exact hcontent ▸ h.content
    · simp only [hcloses]
      omega

/-- **A block is stored once closes have failed as often as was decided**, if there are attempts enough. -/
theorem Awaits.writeAttempts (h : s.Awaits number framed) {batches : List Bytes} {proof last : Bytes}
    (hproof : frame proof = .ok last) (hframed : batches.flatten ++ last = framed) {left : Nat}
    (hfails : s.failingCloses ≤ left) (attempt : UInt32) (m : Metrics) :
    let r := RoundChain.writeAttempts writer number (blockCalls number batches proof) left attempt s m
    r.1.1 = .ok () ∧ r.2.1.content? number = some framed := by
  induction left generalizing s attempt m with
  | zero =>
    rcases h.attempt hproof hframed with ⟨-, t, hcalls, hstored⟩ | ⟨hpos, -⟩
    · rw [writeAttempts_of_ok hcalls]
      exact ⟨rfl, hstored⟩
    · omega
  | succ left ih =>
    rcases h.attempt hproof hframed with ⟨-, t, hcalls, hstored⟩ | ⟨hpos, text, t, hcalls, hawaits, hcloses⟩
    · rw [writeAttempts_of_ok hcalls]
      exact ⟨rfl, hstored⟩
    · rw [writeAttempts_of_retryable hcalls rfl]
      exact ih hawaits (by omega) (attempt + 1) m.countWriteRetry

end MemoryStore

/-! ### Blocks in files -/

namespace FileStore

variable [Compression]

theorem buffers : Writer.Buffers writer opened fun s => (s.dir, s.compress) where
  answer s _ hclose := congrArg Prod.fst (perform_eq_fill s hclose)
  opened s _ hclose := congrArg (fun r => opened r.2) (perform_eq_fill s hclose)
  rest s _ hclose := congrArg (fun r => (r.2.dir, r.2.compress)) (perform_eq_fill s hclose)

/-- The store can take the block: it can be opened, and it is stored with this content, or its file can be written. -/
structure Awaits (s : FileStore) (number : UInt64) (framed : Bytes) : Prop where
  free : s.opened.Free number
  content : s.content? number = some framed ∨
    s.dir.find? (BlockFile.name number s.compress) = none ∧
      s.dir.find? (BlockFile.temporaryName number s.compress) ≠ some .folder

variable {s : FileStore} {number : UInt64} {framed : Bytes}

theorem close_of_awaits (h : s.Awaits number framed) (hopened : s.opened = some (number, framed)) :
    ∃ t, s.close = (.ok (), t) ∧ t.content? number = some framed := by
  rcases h.content with hstored | ⟨habsent, hwritable⟩
  · rw [close_of_read hopened (read_of_content hstored), if_pos rfl]
    exact ⟨_, rfl, hstored⟩
  · rcases steps_closeSteps habsent framed with ⟨hfolder, -⟩ | ⟨after, hsteps, hfile, -⟩
    · exact absurd hfolder hwritable
    · rw [close_of_steps hopened habsent hsteps]
      refine ⟨_, rfl, ?_⟩
      rw [content?, BlockFile.read_fileContent hfile]
      rfl

/-- **A block is stored in the first attempt.** -/
theorem Awaits.writeAttempts (h : s.Awaits number framed) {batches : List Bytes} {proof last : Bytes}
    (hproof : frame proof = .ok last) (hframed : batches.flatten ++ last = framed) (left : Nat) (attempt : UInt32)
    (m : Metrics) :
    let r := RoundChain.writeAttempts writer number (blockCalls number batches proof) left attempt s m
    r.1.1 = .ok () ∧ r.2.1.content? number = some framed := by
  obtain ⟨t, ht, hrest, hcalls⟩ := buffers.performAll_block h.free batches hproof
  obtain ⟨dir, compress, opened⟩ := t
  obtain ⟨rfl, rfl⟩ := Prod.mk.inj hrest
  rw [hframed] at ht
  obtain ⟨u, hclose, hstored⟩ := close_of_awaits ⟨.inr ⟨framed, ht⟩, h.content⟩ ht
  rw [writeAttempts_of_ok (hcalls.trans hclose)]
  exact ⟨rfl, hstored⟩

end FileStore

/-! ### Whole blocks -/

/-- Writing a block to a store succeeds, and the store has it with this content. -/
def StreamState.Puts {ω : Type} (s : StreamState) (writer : Writer ω) (content : ω → UInt64 → Option Bytes)
    (block : ClosedBlock) (write : BlockWrite) (store : ω) (framed : Bytes) : Prop :=
  ∃ calls, s.callsFor block write.startState write.signature = .ok calls ∧
    (writeBlock writer s.config.writeRetry block.number calls store s.metrics).1.1 = .ok () ∧
    content (s.writeFirst writer block write store).2.1 block.number = some framed

section

variable {ω : Type} {s : StreamState} {writer : Writer ω} {content : ω → UInt64 → Option Bytes} {block : ClosedBlock}
  {write : BlockWrite} {store : ω} {framed : Bytes}

/-- What a write leaves in the store is what its attempts leave there. -/
theorem StreamState.store_writeFirst {calls : List WriteCall}
    (hcalls : s.callsFor block write.startState write.signature = .ok calls) :
    (s.writeFirst writer block write store).2.1 =
      (writeBlock writer s.config.writeRetry block.number calls store s.metrics).2.1 := by
  rw [writeFirst, hcalls]
  dsimp only
  split <;> rfl

/-- A block is put in a store if its attempts do so for the batches that it is cut into, whatever their size. -/
theorem StreamState.puts_of_writeAttempts
    (hframed : frameItems (block.items ++ [(block.proofItem write.startState write.signature).encode]) = .ok framed)
    (hattempts : ∀ batches last,
      frame (block.proofItem write.startState write.signature).encode = .ok last → batches.flatten ++ last = framed →
      let r := writeAttempts writer block.number
        (blockCalls block.number batches (block.proofItem write.startState write.signature).encode)
        (s.config.writeRetry.attempts.toNat - 1) 1 store s.metrics
      r.1.1 = .ok () ∧ content r.2.1 block.number = some framed) :
    s.Puts writer content block write store framed := by
  rw [frameItems_append_eq] at hframed
  obtain ⟨front, hfront, hframed⟩ := bind_eq_ok_iff.mp hframed
  obtain ⟨back, hback, hframed⟩ := bind_eq_ok_iff.mp hframed
  cases hframed
  obtain ⟨last, more, hlast, hmore, rfl⟩ := frameItems_cons_eq_ok_iff.mp hback
  cases hmore
  rw [List.append_nil] at hattempts ⊢
  obtain ⟨batches, hbatches, hflatten⟩ := exists_frameBatches hfront s.config.batchSize
  have hcalls : s.callsFor block write.startState write.signature = .ok
      (blockCalls block.number batches (block.proofItem write.startState write.signature).encode) := by
    rw [callsFor, hbatches]
    rfl
  obtain ⟨houtcome, hstored⟩ := hattempts batches last hlast (by rw [hflatten])
  refine ⟨_, hcalls, houtcome, ?_⟩
  rw [store_writeFirst hcalls]
  exact hstored

end

/-- **The running hash, the hash in one go and the stored bytes agree.** A block that was opened in any way and was
offered any items, closed, has its header and the items it took, in order and as they are encoded. The hash that ran
along is that of these items, absorbed again or framed at once, and the block's hash is theirs behind the previous
one. Whatever the batch size, writing the block puts the frames of its items and of its proof in the store: in memory
after any number of failed closes that the attempts allow, and in files, plain or compressed. -/
theorem digests_and_bytes_agree [Compression] (number : UInt64) (previous : BlockHash) (round : UInt64)
    (time : Timestamp) (version : SoftwareVersion) (start : StartState) (items : List Item) (endTime : Timestamp) :
    ∃ block, PendingBlock.start number previous round time version start = .ok block ∧
      let closed := (block.appendEach items).close endTime
      closed.items = (block.header version :: items.filter Item.isTaken).map Item.encode ∧
      itemsHash closed.items = .ok closed.itemsHash ∧
      (closed.items.foldlM ItemsHasher.absorb .new).map ItemsHasher.finish = .ok closed.itemsHash ∧
      (∃ framed, frameItems closed.items = .ok framed ∧ closed.itemsHash = BlockHash.sha384 framed) ∧
      blockHash previous closed.items = .ok closed.hash ∧
      ∀ (s : StreamState) (startState : BlockHash) (signature : BlockSignature) (framed : Bytes),
        frameItems (closed.items ++ [(closed.proofItem startState signature).encode]) = .ok framed →
        (∀ store : MemoryStore, store.Awaits number framed →
          store.failingCloses < s.config.writeRetry.attempts.toNat →
          s.Puts MemoryStore.writer MemoryStore.content? closed ⟨startState, signature, none⟩ store framed) ∧
        ∀ store : FileStore, store.Awaits number framed →
          s.Puts FileStore.writer FileStore.content? closed ⟨startState, signature, none⟩ store framed := by
  obtain ⟨block, hstart⟩ := PendingBlock.exists_start number previous round time version start
  obtain ⟨hsound, hnumber, hprevious, hheader⟩ := PendingBlock.start_eq_ok hstart
  obtain ⟨hfed, hasher, heq⟩ := PendingBlock.appendEach_eq hsound items
  have hitems : (block.appendEach items).items =
      (block.header version :: items.filter Item.isTaken).map Item.encode := by
    rw [heq, PendingBlock.extend, hheader]
    rfl
  have hfedNumber : (block.appendEach items).number = number := by rw [heq]; exact hnumber
  have hfedPrevious : (block.appendEach items).previous = previous := by rw [heq]; exact hprevious
  have hblockHash := hfed.blockHash_close endTime
  rw [hfedPrevious] at hblockHash
  obtain ⟨framed, hframed, hdigest⟩ := hfed.itemsHash_close endTime
  have hitemsHash : itemsHash (block.appendEach items).items =
      .ok ((block.appendEach items).close endTime).itemsHash := by
    rw [itemsHash, hframed, hdigest]
    rfl
  refine ⟨block, hstart, hitems, hitemsHash, (itemsHash_eq _).symm.trans hitemsHash, ⟨framed, hframed, hdigest⟩,
    hblockHash, fun s startState signature stored hstored =>
      ⟨fun store hawaits hattempts => ?_, fun store hawaits => ?_⟩⟩
  · refine StreamState.puts_of_writeAttempts hstored fun batches last hlast hbytes => ?_
    rw [← hfedNumber] at hawaits
    exact hawaits.writeAttempts hlast hbytes (by omega) 1 s.metrics
  · refine StreamState.puts_of_writeAttempts hstored fun batches last hlast hbytes => ?_
    rw [← hfedNumber] at hawaits
    exact hawaits.writeAttempts hlast hbytes _ 1 s.metrics

/-- A block that refused a proof, written after four failed closes. -/
theorem digests_and_bytes_agree_retried :
    let signature : BlockSignature := ⟨.trivial, [7], none⟩
    let stream := StreamState.initial default .configured ⟨0, .pending⟩ none
    ∃ block, PendingBlock.start 0 .zero 1 ⟨1, 0⟩ ⟨0, 1, 0⟩ (.known .zero) = .ok block ∧
      let closed := (block.appendEach [.blockProof ⟨0, .zero, .zero, signature⟩, .roundHeader 1]).close ⟨1, 0⟩
      ∃ framed, frameItems (closed.items ++ [(closed.proofItem .zero signature).encode]) = .ok framed ∧
        stream.Puts MemoryStore.writer MemoryStore.content? closed ⟨.zero, signature, none⟩
          { MemoryStore.new with failingCloses := 4 } framed := by
  intro signature stream
  obtain ⟨block, hstart, -, -, -, -, -, hputs⟩ := digests_and_bytes_agree 0 .zero 1 ⟨1, 0⟩ ⟨0, 1, 0⟩
    (.known .zero) [.blockProof ⟨0, .zero, .zero, signature⟩, .roundHeader 1] ⟨1, 0⟩
  refine ⟨block, hstart, ?_⟩
  intro closed
  obtain ⟨framed, hframed⟩ : ∃ framed,
      frameItems (closed.items ++ [(closed.proofItem .zero signature).encode]) = .ok framed := by
    cases hstart
    exact ⟨_, rfl⟩
  exact ⟨framed, hframed, (hputs stream .zero signature framed hframed).1 _ ⟨.inl rfl, rfl, .inl rfl⟩ (by decide)⟩

end RoundChain
