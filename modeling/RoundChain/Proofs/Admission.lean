import RoundChain.Block.Boundary
import RoundChain.Libraries
import RoundChain.Proofs.WellFormedBlocks

/-!
# What intake admits and what a reader accepts

An open block refuses proofs and nothing else. A reader refuses a second header as well, and so
it accepts a block with its proof exactly if no header was put into the block:
`verifyBlock_admitted`. What it then tells of the block is what the stream tells, down to the
end time, which a reader takes from the last batch of the block.

## The model

`PendingBlock.Admits block items filled` says that an open block took these items, one after the
other, and became `filled`; any number of rounds may have begun in between. `Carries` is what
every such block has in common.
-/

namespace RoundChain

/-! ### Filling a block -/

namespace PendingBlock

/-- The block takes items one after the other; further rounds may begin in it at any time. -/
inductive Admits : PendingBlock → List Item → PendingBlock → Prop where
  | nil {block : PendingBlock} : Admits block [] block
  | item {block next filled : PendingBlock} {item : Item} {rest : List Item} :
      block.append item = .ok next → Admits next rest filled → Admits block (item :: rest) filled
  | round {block filled : PendingBlock} {round : UInt64} {time : Timestamp} {items : List Item} :
      Admits (block.beginRound round time) items filled → Admits block items filled

/-- The block is its header and these items, none of them a proof. -/
structure Carries (block : PendingBlock) (version : SoftwareVersion) (items : List Item) : Prop where
  sound : block.Sound
  content : block.items = (block.header version).encode :: items.map Item.encode
  proofless : ∀ item ∈ items, item.isProof = false

variable {block extended filled : PendingBlock} {version : SoftwareVersion} {items : List Item}

theorem carries_of_start {number : UInt64} {previous : BlockHash} {round : UInt64} {time : Timestamp}
    {startState : StartState} (h : start number previous round time version startState = .ok block) :
    block.Carries version [] := by
  obtain ⟨hsound, -, -, hitems⟩ := start_eq_ok h
  exact ⟨hsound, hitems, nofun⟩

theorem Carries.append (h : block.Carries version items) {item : Item}
    (happend : block.append item = .ok extended) : extended.Carries version (items ++ [item]) := by
  have hsound := h.sound.append happend
  obtain ⟨hproof, hpush⟩ := append_eq_ok_iff.mp happend
  obtain ⟨framed, -, rfl⟩ := push_eq_ok_iff.mp hpush
  refine ⟨hsound, ?_, ?_⟩
  · have hheader : (block.extend [item.encode] ⟨block.hasher.hasher.update framed, block.hasher.count + 1⟩).header
        version = block.header version := rfl
    rw [hheader, List.map_append, ← List.cons_append, ← h.content]
    rfl
  · intro other hother
    rcases List.mem_append.mp hother with hother | hother
    · exact h.proofless other hother
    · obtain rfl := List.mem_singleton.mp hother
      exact hproof

/-- **A filled block carries what it took.** -/
theorem Admits.carries {more : List Item} (h : block.Admits more filled) (hcarries : block.Carries version items) :
    filled.Carries version (items ++ more) ∧ filled.number = block.number ∧ filled.previous = block.previous := by
  induction h generalizing items with
  | nil =>
    rw [List.append_nil]
    exact ⟨hcarries, rfl, rfl⟩
  | @item block next filled item rest happend _ ih =>
    obtain ⟨hfilled, hnumber, hprevious⟩ := ih (hcarries.append happend)
    obtain ⟨framed, -, rfl⟩ := push_eq_ok_iff.mp (append_eq_ok_iff.mp happend).2
    rw [List.append_assoc] at hfilled
    exact ⟨hfilled, hnumber, hprevious⟩
  | round _ ih => exact ih ⟨hcarries.sound, hcarries.content, hcarries.proofless⟩

/-- The boundary batches are carried like any other item. -/
theorem Carries.sealed (h : filled.Carries version items) {time : Timestamp} {captured position : ChangeBatch}
    {closed : ClosedBlock} (hsealed : filled.sealed time captured position = .ok closed) :
    ∃ last : PendingBlock, closed = last.close time ∧
      last.Carries version (items ++ [.stateChanges captured] ++ [.stateChanges position]) := by
  obtain ⟨first, h₁, hsealed⟩ := bind_eq_ok_iff.mp hsealed
  obtain ⟨last, h₂, hsealed⟩ := bind_eq_ok_iff.mp hsealed
  cases hsealed
  exact ⟨last, rfl, (h.append h₁).append h₂⟩

end PendingBlock

/-! ### The boundary -/

/-- The two batches that end a block, as the accumulator gives them when a boundary begins. -/
def BoundaryAccumulator.batchesAt (acc : BoundaryAccumulator) (time : Timestamp) (ledger : Option StreamInfo) :
    Except StreamError (ChangeBatch × ChangeBatch) := do
  let acc ← acc.beginBoundary time
  let (captured, acc) ← acc.flush ledger
  let (position, _) ← acc.flush ledger
  return (captured, position)

/-- The batch that was captured comes first, if there is one, and then the position in ledger state. -/
theorem BoundaryAccumulator.batchesAt_eq_ok {acc : BoundaryAccumulator} {time : Timestamp}
    {ledger : Option StreamInfo} {captured position : ChangeBatch}
    (h : acc.batchesAt time ledger = .ok (captured, position)) :
    captured = acc.captured.getD ⟨time, []⟩ ∧ ∃ info, ledger = some info ∧ position = positionBatch time info := by
  unfold batchesAt beginBoundary at h
  split at h
  · cases ledger with
    | none => cases h
    | some info =>
      cases h
      exact ⟨rfl, info, rfl, rfl⟩
  · cases h

/-! ### Reading a block -/

theorem lastBatchTime_append (time : Timestamp) (items : List Item) (batch : ChangeBatch) :
    lastBatchTime time (items ++ [.stateChanges batch]) = batch.time := by
  induction items generalizing time with
  | nil => rfl
  | cons item rest ih =>
    cases item with
    | stateChanges other => exact ih other.time
    | _ => exact ih time

/-- A reader refuses a header among the items behind the header. -/
theorem readMiddle_of_header (number : UInt64) {items : List Item}
    (hproofless : ∀ item ∈ items, item.isProof = false)
    (hlength : ∀ item ∈ items, item.encode.length < UInt32.size) (hheader : ∃ item ∈ items, item.isHeader = true)
    (endTime : Timestamp) :
    Verification.readMiddle number endTime (items.map Item.encode) =
      .error (.chainBroken number "second block header") := by
  induction items generalizing endTime with
  | nil => obtain ⟨_, hitem, -⟩ := hheader; cases hitem
  | cons item rest ih =>
    have hdecoded := decodeItem_encode (hlength item List.mem_cons_self)
    simp only [List.map_cons, Verification.readMiddle, hdecoded, bind, Except.bind]
    cases hkind : item.isHeader with
    | true =>
      cases item with
      | blockHeader _ => rfl
      | _ => cases hkind
    | false =>
      have hlater : ∃ item ∈ rest, item.isHeader = true := by
        obtain ⟨other, hother, hhead⟩ := hheader
        rcases List.mem_cons.mp hother with rfl | hother
        · rw [hkind] at hhead
          cases hhead
        · exact ⟨other, hother, hhead⟩
      have hrest := ih (fun i hi => hproofless i (List.mem_cons_of_mem _ hi))
        (fun i hi => hlength i (List.mem_cons_of_mem _ hi)) hlater
      have hproof := hproofless item List.mem_cons_self
      cases item with
      | blockHeader _ => cases hkind
      | blockProof _ => cases hproof
      | stateChanges batch => exact hrest batch.time
      | _ => exact hrest endTime

/-- **What a reader makes of a signed block**: it accepts the block if no header is among the items behind the
header, and refuses it for the first that is. -/
theorem ClosedBlock.verifyBlock_eq_or (block : ClosedBlock) (startState : BlockHash) {header : BlockHeader}
    {items : List Item}
    (hnumber : header.number = block.number)
    (hitems : block.items = (Item.blockHeader header).encode :: items.map Item.encode)
    (hproofless : ∀ item ∈ items, item.isProof = false) {signature : BlockSignature}
    (hcountable : signature.Countable) (hhash : blockHash block.previous block.items = .ok block.hash)
    (hsignature : Verification.checkSignature block.number block.hash signature = .ok ()) :
    let verified := verifyBlock (block.items ++ [(block.proofItem startState signature).encode]) block.previous
    (∀ item ∈ items, item.isHeader = false) ∧
        verified = .ok { block.finalized signature with endTime := lastBatchTime header.time items } ∨
      (∃ item ∈ items, item.isHeader = true) ∧
        verified = .error (.chainBroken block.number "second block header") := by
  intro verified
  have hverified : verified = _ := verifyBlock_eq hnumber hitems hcountable hhash hsignature
  have hlength : ∀ item ∈ items, item.encode.length < UInt32.size := fun item hitem =>
    (blockHash_eq_ok_iff.mp hhash).1 _ (hitems ▸ List.mem_cons_of_mem _ (List.mem_map_of_mem hitem))
  by_cases hheader : ∃ item ∈ items, item.isHeader = true
  · rw [readMiddle_of_header block.number hproofless hlength hheader] at hverified
    exact .inr ⟨hheader, hverified⟩
  · have hplain : ∀ item ∈ items, item.isHeader = false := fun item hitem =>
      Bool.eq_false_iff.mpr fun h => hheader ⟨item, hitem, h⟩
    have hmiddle := readMiddle_of_plain block.number
      (fun item hitem => by rw [Item.isPlain, hplain item hitem, hproofless item hitem]; rfl) hlength header.time
    rw [hmiddle] at hverified
    exact .inl ⟨hplain, hverified⟩

/-- **A reader accepts what intake has admitted, unless a header was among it.** Let a block be opened, take any
items, end with the two boundary batches and be signed. A reader of the block with its proof accepts it, behind
the block before, exactly if none of the items was a header, and then it tells of the block what the stream does. If
one was, the reader refuses the block for it. -/
theorem verifyBlock_admitted [Bls12381.Library] {number : UInt64} {previous : BlockHash} {round : UInt64}
    {time : Timestamp} {version : SoftwareVersion} {startState : StartState} {opened filled : PendingBlock}
    {items : List Item} (hopened : PendingBlock.start number previous round time version startState = .ok opened)
    (hadmits : opened.Admits items filled) {acc : BoundaryAccumulator} {endTime : Timestamp}
    {ledger : Option StreamInfo} {captured position : ChangeBatch}
    (hbatches : acc.batchesAt endTime ledger = .ok (captured, position)) {closed : ClosedBlock}
    (hclosed : filled.sealed endTime captured position = .ok closed) {signer : SchemeSigner}
    {signature : BlockSignature} (hsigned : (SchemeSigner.signer.sign signer closed.hash).1 = .ok signature)
    (hcountable : signature.Countable) (stateHash : BlockHash) :
    let written := closed.items ++ [(closed.proofItem stateHash signature).encode]
    closed.number = number ∧ closed.previous = previous ∧
      (verifyBlock written previous = .ok (closed.finalized signature) ↔
        ∀ item ∈ items, item.isHeader = false) ∧
      ((∃ item ∈ items, item.isHeader = true) →
        verifyBlock written previous = .error (.chainBroken number "second block header")) := by
  intro written
  obtain ⟨-, hnumber, hprevious, -⟩ := PendingBlock.start_eq_ok hopened
  have hbegun : opened.Carries version [] := PendingBlock.carries_of_start hopened
  obtain ⟨hcarries, hsame, hbehind⟩ := hadmits.carries hbegun
  rw [List.nil_append] at hcarries
  have hends := PendingBlock.sealed_eq_ok hclosed
  have hnumber' : closed.number = number := hends.number.trans (hsame.trans hnumber)
  have hprevious' : closed.previous = previous := hends.previous.trans (hbehind.trans hprevious)
  obtain ⟨-, info, -, rfl⟩ := BoundaryAccumulator.batchesAt_eq_ok hbatches
  obtain ⟨last, rfl, hlast⟩ := hcarries.sealed hclosed
  have hread := (last.close endTime).verifyBlock_eq_or stateHash rfl hlast.content hlast.proofless hcountable
    (hlast.sound.blockHash_close endTime) (SchemeSigner.checkSignature_sign hsigned last.number)
  -- the batches are no headers, and the last of them has the time of the boundary
  rw [lastBatchTime_append] at hread
  simp only [List.mem_append, List.mem_singleton] at hread
  refine ⟨hnumber', hprevious', ?_⟩
  rw [← hprevious', ← hnumber']
  rcases hread with ⟨hplain, hverified⟩ | ⟨⟨item, hitem, hheader⟩, hverified⟩
  · have hnone : ∀ item ∈ items, item.isHeader = false := fun item hitem => hplain item (.inl (.inl hitem))
    refine ⟨⟨fun _ => hnone, fun _ => hverified⟩, ?_⟩
    rintro ⟨item, hitem, hheader⟩
    rw [hnone item hitem] at hheader
    cases hheader
  · have hsome : item ∈ items := by
      rcases hitem with (hitem | rfl) | rfl
      · exact hitem
      · cases hheader
      · cases hheader
    refine ⟨⟨fun haccepted => ?_, fun hnone => ?_⟩, fun _ => hverified⟩
    · rw [hverified] at haccepted
      cases haccepted
    · rw [hnone item hsome] at hheader
      cases hheader

/-- The signature that needs no key is one that a machine can hold. -/
theorem countable_trivialSignature (hash : BlockHash) :
    (⟨.trivial, trivialSignature hash, none⟩ : BlockSignature).Countable := by
  refine ⟨?_, nofun⟩
  rw [Counted, trivialSignature, BlockHash.length_bytes, size_word]
  decide

theorem verifyBlock_admitted_one_round :
    ∃ opened filled captured position closed signature,
      PendingBlock.start 0 .zero 1 ⟨1, 0⟩ ⟨0, 1, 0⟩ (.known .zero) = .ok opened ∧
      opened.Admits [.roundHeader 1, .eventTransaction [7], .stateChanges ⟨⟨9, 0⟩, []⟩] filled ∧
      BoundaryAccumulator.new.batchesAt ⟨2, 0⟩ (some (.anchored .zero ⟨0, 1, 0⟩)) = .ok (captured, position) ∧
      filled.sealed ⟨2, 0⟩ captured position = .ok closed ∧
      (SchemeSigner.signer.sign .trivial closed.hash).1 = .ok signature ∧ signature.Countable ∧
      verifyBlock (closed.items ++ [(closed.proofItem .zero signature).encode]) .zero =
        .ok (closed.finalized signature) := by
  obtain ⟨opened, hopened⟩ := PendingBlock.exists_start 0 .zero 1 ⟨1, 0⟩ ⟨0, 1, 0⟩ (.known .zero)
  obtain ⟨first, h₁⟩ := opened.exists_append (.roundHeader 1) rfl (by decide)
  obtain ⟨second, h₂⟩ := first.exists_append (.eventTransaction [7]) rfl (by decide)
  obtain ⟨third, h₃⟩ := second.exists_append (.stateChanges ⟨⟨9, 0⟩, []⟩) rfl (by decide)
  have hadmits : opened.Admits [.roundHeader 1, .eventTransaction [7], .stateChanges ⟨⟨9, 0⟩, []⟩] third :=
    .item h₁ (.item h₂ (.item h₃ .nil))
  let info := StreamInfo.anchored .zero ⟨0, 1, 0⟩
  let position := BoundaryAccumulator.positionBatch ⟨2, 0⟩ info
  have hbatches : BoundaryAccumulator.new.batchesAt ⟨2, 0⟩ (some info) = .ok (⟨⟨2, 0⟩, []⟩, position) := rfl
  obtain ⟨fourth, h₄⟩ := third.exists_append (.stateChanges ⟨⟨2, 0⟩, []⟩) rfl (by decide)
  obtain ⟨fifth, h₅⟩ := fourth.exists_append (.stateChanges position) rfl (by decide +kernel)
  have hclosed : third.sealed ⟨2, 0⟩ ⟨⟨2, 0⟩, []⟩ position = .ok (fifth.close ⟨2, 0⟩) :=
    bind_eq_ok_iff.mpr ⟨fourth, h₄, bind_eq_ok_iff.mpr ⟨fifth, h₅, rfl⟩⟩
  have hsigned : (SchemeSigner.signer.sign .trivial (fifth.close ⟨2, 0⟩).hash).1 =
      .ok ⟨.trivial, trivialSignature (fifth.close ⟨2, 0⟩).hash, none⟩ := rfl
  have hcountable := countable_trivialSignature (fifth.close ⟨2, 0⟩).hash
  obtain ⟨-, -, haccepted, -⟩ := verifyBlock_admitted hopened hadmits hbatches hclosed hsigned hcountable .zero
  exact ⟨opened, third, _, position, _, _, hopened, hadmits, hbatches, hclosed, hsigned, hcountable,
    haccepted.mpr (by decide)⟩

set_option maxRecDepth 10000 in
/-- An open block takes a second header, and no reader accepts the block then. -/
theorem stray_header_refused :
    ∃ opened filled captured position closed signature,
      PendingBlock.start 0 .zero 1 ⟨1, 0⟩ ⟨0, 1, 0⟩ (.known .zero) = .ok opened ∧
      opened.append (.blockHeader ⟨0, ⟨0, 1, 0⟩, 1, ⟨1, 0⟩⟩) = .ok filled ∧
      BoundaryAccumulator.new.batchesAt ⟨1, 0⟩ (some (.anchored .zero ⟨0, 1, 0⟩)) = .ok (captured, position) ∧
      filled.sealed ⟨1, 0⟩ captured position = .ok closed ∧
      (SchemeSigner.signer.sign .trivial closed.hash).1 = .ok signature ∧
      verifyBlock (closed.items ++ [(closed.proofItem .zero signature).encode]) .zero =
        .error (.chainBroken 0 "second block header") := by
  refine ⟨_, _, _, _, _, _, rfl, rfl, rfl, rfl, rfl, ?_⟩
  rfl

end RoundChain
