import RoundChain.Block.Policy
import RoundChain.Proofs.Frames

/-!
# Blocks and their hashes

What an open block holds and what closing it gives. An open block is `Sound` while its
hasher holds the frames of its items; the hash that it closes with is then the hash of
these items behind the hash of the block before, `PendingBlock.Sound.blockHash_close`.

## The model

`Linked number previous blocks` says that blocks continue a chain whose next number is
`number` and whose newest hash is `previous`. Numbers are natural numbers there, so no
linked blocks have gone around the range of a word.
-/

namespace RoundChain

/-- Whether an item is a proof, which no open block takes. -/
def Item.isProof : Item → Bool
  | .blockProof _ => true
  | _ => false

/-- Headers are of one length. -/
theorem length_encode_blockHeader (header : BlockHeader) : (Item.blockHeader header).encode.length = 44 := by
  simp [Item.encode, Codec.item, Codec.tag, Codec.blockHeader, Codec.version, Codec.timestamp, Codec.imap,
    Codec.pair, Codec.word32, Codec.word64]

namespace PendingBlock

/-- The block with more items and another hasher. -/
def extend (block : PendingBlock) (items : List Bytes) (hasher : ItemsHasher) : PendingBlock :=
  { block with items := block.items ++ items, hasher }

theorem push_eq_ok_iff {block extended : PendingBlock} {item : Bytes} :
    block.push item = .ok extended ↔
      ∃ framed, frame item = .ok framed ∧
        extended = block.extend [item] ⟨block.hasher.hasher.update framed, block.hasher.count + 1⟩ := by
  rw [push, bind_eq_ok_iff]
  constructor
  · rintro ⟨hasher, hh, h⟩
    obtain ⟨framed, hf, h'⟩ := bind_eq_ok_iff.mp hh
    cases h'
    cases h
    exact ⟨framed, hf, rfl⟩
  · rintro ⟨framed, hf, rfl⟩
    exact ⟨_, bind_eq_ok_iff.mpr ⟨framed, hf, rfl⟩, rfl⟩

theorem append_eq_ok_iff {block extended : PendingBlock} {item : Item} :
    block.append item = .ok extended ↔ item.isProof = false ∧ block.push item.encode = .ok extended := by
  cases item <;> simp [append, Item.isProof]

/-- Any item that is no proof and fits into a frame can be added. -/
theorem exists_append (block : PendingBlock) (item : Item) (hitem : item.isProof = false)
    (hlength : item.encode.length < UInt32.size) : ∃ extended, block.append item = .ok extended :=
  ⟨_, append_eq_ok_iff.mpr ⟨hitem, push_eq_ok_iff.mpr ⟨_, frame_eq_ok_iff.mpr ⟨hlength, rfl⟩, rfl⟩⟩⟩

/-- No call to add an item that is no proof blames the order of calls. -/
theorem append_eq_error {block : PendingBlock} {item : Item} {e : StreamError}
    (hitem : item.isProof = false) (h : block.append item = .error e) : ∃ text, e = .serialization text := by
  have hpush : block.push item.encode = .error e := by
    cases item with
    | blockProof _ => cases hitem
    | _ => exact h
  unfold push ItemsHasher.absorb frame at hpush
  split at hpush
  · cases hpush
  · cases hpush
    exact ⟨_, rfl⟩

/-! ### Sound blocks -/

/-- The hasher holds the frames of the block's items. -/
def Sound (block : PendingBlock) : Prop :=
  ∃ framed, frameItems block.items = .ok framed ∧ block.hasher.hasher.Holds framed

theorem Sound.push {block extended : PendingBlock} (hb : block.Sound) {item : Bytes}
    (h : block.push item = .ok extended) : extended.Sound := by
  obtain ⟨framed, hf, rfl⟩ := push_eq_ok_iff.mp h
  obtain ⟨all, hall, hheld⟩ := hb
  exact ⟨all ++ framed, frameItems_append hall (frameItems_singleton hf), hheld.update framed⟩

theorem Sound.append {block extended : PendingBlock} (hb : block.Sound) {item : Item}
    (h : block.append item = .ok extended) : extended.Sound :=
  hb.push (append_eq_ok_iff.mp h).2

/-- The header of the block. -/
def header (block : PendingBlock) (version : SoftwareVersion) : Item :=
  .blockHeader ⟨block.number, version, block.firstRound, block.firstTime⟩

/-- A block can always be opened: no header is too long for a frame. -/
theorem exists_start (number : UInt64) (previous : BlockHash) (round : UInt64) (time : Timestamp)
    (version : SoftwareVersion) (startState : StartState) :
    ∃ block, start number previous round time version startState = .ok block := by
  refine exists_append _ _ rfl ?_
  rw [length_encode_blockHeader]
  decide

theorem start_eq_ok {number : UInt64} {previous : BlockHash} {round : UInt64} {time : Timestamp}
    {version : SoftwareVersion} {startState : StartState} {block : PendingBlock}
    (h : start number previous round time version startState = .ok block) :
    block.Sound ∧ block.number = number ∧ block.previous = previous ∧
      block.items = [(block.header version).encode] := by
  obtain ⟨-, hp⟩ := append_eq_ok_iff.mp h
  have hnew : Sound ⟨number, previous, round, round, 1, time, time, [], ItemsHasher.new, startState⟩ :=
    ⟨[], rfl, Hasher.holds_new⟩
  refine ⟨hnew.push hp, ?_⟩
  obtain ⟨framed, -, rfl⟩ := push_eq_ok_iff.mp hp
  exact ⟨rfl, rfl, rfl⟩

/-- **The hash that a block closes with is that of its items**, behind the hash of the block before. -/
theorem Sound.blockHash_close {block : PendingBlock} (hb : block.Sound) (time : Timestamp) :
    blockHash block.previous block.items = .ok (block.close time).hash := by
  obtain ⟨framed, hf, hheld⟩ := hb
  have hfinish : block.hasher.finish = BlockHash.sha384 framed := BlockHash.ext hheld.finish_eq_sha384
  rw [blockHash, itemsHash, hf]
  simp only [close, hfinish]
  rfl

/-! ### The end of a block -/

/-- The block ended with the two boundary batches. -/
def sealed (block : PendingBlock) (time : Timestamp) (captured position : ChangeBatch) :
    Except StreamError ClosedBlock := do
  let block ← block.append (.stateChanges captured)
  let block ← block.append (.stateChanges position)
  return block.close time

/-- What a closed block keeps of the block that was open, and what was added to it. -/
structure EndsWith (block : PendingBlock) (time : Timestamp) (captured position : ChangeBatch)
    (closed : ClosedBlock) : Prop where
  number : closed.number = block.number
  previous : closed.previous = block.previous
  startState : closed.startState = block.startState
  endTime : closed.endTime = time
  items : closed.items =
    block.items ++ [(Item.stateChanges captured).encode, (Item.stateChanges position).encode]

theorem sealed_eq_ok {block : PendingBlock} {time : Timestamp} {captured position : ChangeBatch}
    {closed : ClosedBlock} (h : block.sealed time captured position = .ok closed) :
    block.EndsWith time captured position closed := by
  obtain ⟨first, h₁, h⟩ := bind_eq_ok_iff.mp h
  obtain ⟨second, h₂, h⟩ := bind_eq_ok_iff.mp h
  cases h
  obtain ⟨_, -, rfl⟩ := push_eq_ok_iff.mp (append_eq_ok_iff.mp h₁).2
  obtain ⟨_, -, rfl⟩ := push_eq_ok_iff.mp (append_eq_ok_iff.mp h₂).2
  exact ⟨rfl, rfl, rfl, rfl, List.append_assoc ..⟩

theorem sealed_eq_error {block : PendingBlock} {time : Timestamp} {captured position : ChangeBatch}
    {e : StreamError} (h : block.sealed time captured position = .error e) :
    ∃ text, e = .serialization text := by
  rcases bind_eq_error_iff.mp h with h₁ | ⟨first, -, h⟩
  · exact append_eq_error rfl h₁
  rcases bind_eq_error_iff.mp h with h₂ | ⟨second, -, h⟩
  · exact append_eq_error rfl h₂
  · cases h

theorem Sound.blockHash_sealed {block : PendingBlock} (hb : block.Sound) {time : Timestamp}
    {captured position : ChangeBatch} {closed : ClosedBlock}
    (h : block.sealed time captured position = .ok closed) :
    blockHash closed.previous closed.items = .ok closed.hash := by
  obtain ⟨first, h₁, h⟩ := bind_eq_ok_iff.mp h
  obtain ⟨second, h₂, h⟩ := bind_eq_ok_iff.mp h
  cases h
  exact ((hb.append h₁).append h₂).blockHash_close time

end PendingBlock

/-! ### Chains of closed blocks -/

/-- Blocks that continue a chain with the next number `number` and the newest hash `previous`: their
numbers are consecutive, each names the hash of the one before, and each has the hash of its items. -/
def Linked : Nat → BlockHash → List ClosedBlock → Prop
  | _, _, [] => True
  | number, previous, block :: rest =>
    block.number.toNat = number ∧ block.previous = previous ∧
      blockHash previous block.items = .ok block.hash ∧ Linked (number + 1) block.hash rest

/-- The newest hash of a chain after some blocks. -/
def newestHash : BlockHash → List ClosedBlock → BlockHash
  | previous, [] => previous
  | _, block :: rest => newestHash block.hash rest

theorem newestHash_concat (previous : BlockHash) (blocks : List ClosedBlock) (block : ClosedBlock) :
    newestHash previous (blocks ++ [block]) = block.hash := by
  induction blocks generalizing previous with
  | nil => rfl
  | cons _ _ ih => exact ih _

theorem linked_append_iff {number : Nat} {previous : BlockHash} {xs ys : List ClosedBlock} :
    Linked number previous (xs ++ ys) ↔
      Linked number previous xs ∧ Linked (number + xs.length) (newestHash previous xs) ys := by
  induction xs generalizing number previous with
  | nil => exact ⟨fun h => ⟨trivial, h⟩, fun h => h.2⟩
  | cons x xs ih =>
    have hnumber : number + (x :: xs).length = number + 1 + xs.length := by
      rw [List.length_cons, Nat.add_comm xs.length, Nat.add_assoc]
    rw [List.cons_append, Linked, Linked, ih, newestHash, hnumber]
    constructor
    · rintro ⟨h₁, h₂, h₃, h₄, h₅⟩
      exact ⟨⟨h₁, h₂, h₃, h₄⟩, h₅⟩
    · rintro ⟨⟨h₁, h₂, h₃, h₄⟩, h₅⟩
      exact ⟨h₁, h₂, h₃, h₄, h₅⟩

theorem Linked.of_prefix {number : Nat} {previous : BlockHash} {first blocks : List ClosedBlock}
    (h : Linked number previous blocks) (hfirst : first <+: blocks) : Linked number previous first := by
  obtain ⟨rest, rfl⟩ := hfirst
  exact (linked_append_iff.mp h).1

/-- One more block in a chain. -/
theorem Linked.concat {number : Nat} {previous : BlockHash} {blocks : List ClosedBlock}
    (h : Linked number previous blocks) {block : ClosedBlock}
    (hnumber : block.number.toNat = number + blocks.length)
    (hprevious : block.previous = newestHash previous blocks)
    (hhash : blockHash block.previous block.items = .ok block.hash) :
    Linked number previous (blocks ++ [block]) :=
  linked_append_iff.mpr ⟨h, hnumber, hprevious, hprevious ▸ hhash, trivial⟩

theorem Linked.number_eq {number : Nat} {previous : BlockHash} {blocks : List ClosedBlock}
    (h : Linked number previous blocks) {i : Nat} {block : ClosedBlock} (hi : blocks[i]? = some block) :
    block.number.toNat = number + i := by
  induction blocks generalizing number previous i with
  | nil => cases hi
  | cons first rest ih =>
    obtain ⟨hnumber, -, -, hrest⟩ := h
    cases i with
    | zero => cases hi; exact hnumber
    | succ i =>
      have := ih hrest hi
      omega

/-- The numbers of linked blocks are consecutive. -/
theorem Linked.numbers_eq {number : Nat} {previous : BlockHash} {blocks : List ClosedBlock}
    (h : Linked number previous blocks) :
    blocks.map (fun block => block.number.toNat) = List.range' number blocks.length := by
  induction blocks generalizing number previous with
  | nil => rfl
  | cons block rest ih =>
    obtain ⟨hnumber, -, -, hrest⟩ := h
    rw [List.map_cons, hnumber, ih hrest, List.length_cons, List.range'_succ]

theorem Linked.inj {number : Nat} {previous : BlockHash} {blocks : List ClosedBlock}
    (h : Linked number previous blocks) {a b : ClosedBlock} (ha : a ∈ blocks) (hb : b ∈ blocks)
    (hab : a.number = b.number) : a = b := by
  obtain ⟨i, hi⟩ := List.getElem?_of_mem ha
  obtain ⟨j, hj⟩ := List.getElem?_of_mem hb
  have hni := h.number_eq hi
  have hnj := h.number_eq hj
  obtain rfl : i = j := by rw [hab] at hni; omega
  rw [hi] at hj
  exact Option.some.inj hj

/-- How many numbers a chain has used, which is the number of its next block. -/
def StreamInfo.height (info : StreamInfo) : Nat :=
  match info.lastNumber with
  | none => 0
  | some number => number.toNat + 1

theorem StreamInfo.toNat_nextNumber {info : StreamInfo} {n : UInt64}
    (h : info.nextNumber (ε := StreamError) = .ok n) : n.toNat = info.height := by
  unfold nextNumber at h
  unfold height
  cases hlast : info.lastNumber with
  | none =>
    rw [hlast] at h
    cases h
    rfl
  | some number =>
    rw [hlast] at h
    exact nextWord_eq_ok_iff.mp h

/-- The position of a chain after more blocks. -/
def StreamInfo.recordAll (info : StreamInfo) (blocks : List ClosedBlock) (limit : Nat) : StreamInfo :=
  blocks.foldl (fun info block => info.record block.number block.hash block.endTime limit) info

theorem StreamInfo.recordAll_concat (info : StreamInfo) (blocks : List ClosedBlock) (block : ClosedBlock)
    (limit : Nat) :
    info.recordAll (blocks ++ [block]) limit =
      (info.recordAll blocks limit).record block.number block.hash block.endTime limit := by
  rw [recordAll, List.foldl_append]
  rfl

/-- The position after linked blocks is where they end. -/
theorem Linked.recordAll {info : StreamInfo} {blocks : List ClosedBlock}
    (h : Linked info.height info.lastHash blocks) (limit : Nat) :
    (info.recordAll blocks limit).height = info.height + blocks.length ∧
      (info.recordAll blocks limit).lastHash = newestHash info.lastHash blocks := by
  induction blocks generalizing info with
  | nil => exact ⟨rfl, rfl⟩
  | cons block rest ih =>
    obtain ⟨hnumber, -, -, hrest⟩ := h
    have hheight : (info.record block.number block.hash block.endTime limit).height = info.height + 1 :=
      congrArg (· + 1) hnumber
    obtain ⟨hend, hhash⟩ := @ih (info.record block.number block.hash block.endTime limit)
      (hheight.symm ▸ hrest)
    refine ⟨?_, hhash⟩
    rw [StreamInfo.recordAll, List.foldl_cons, ← StreamInfo.recordAll, hend, hheight, List.length_cons]
    omega

end RoundChain
