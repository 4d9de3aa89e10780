import RoundChain.Block.Verification
import RoundChain.Proofs.Blocks
import RoundChain.Proofs.Exactness
import RoundChain.Signing.Signer

/-!
# Written blocks are verified

A reader of stored blocks accepts what a stream writes: a block that is `Readable`, with
its hash and a proof that names the hash before it, `ClosedBlock.verifyBlock_eq_ok`. The
signature is one of a `SchemeSigner`, in any state that it signs in.
-/

namespace RoundChain

/-- Whether an item is a header, with which a block begins. -/
def Item.isHeader : Item → Bool
  | .blockHeader _ => true
  | _ => false

/-- Whether an item may stand between the header of a block and its proof. -/
def Item.isPlain (item : Item) : Bool := !item.isHeader && !item.isProof

/-! ### Items -/

theorem decodeItem_of_countable {item : Item} (h : item.Countable) : decodeItem item.encode = .ok item :=
  decodeItem_eq_ok_iff.mpr ⟨h, [], (List.append_nil _).symm⟩

theorem Item.countable_of_framed {item : Item} (h : item.encode.length < UInt32.size) : item.Countable := by
  have hsize : UInt32.size = 4294967296 := rfl
  have hword := size_word
  exact Item.countable_of_length (by omega)

theorem decodeItem_encode {item : Item} (h : item.encode.length < UInt32.size) :
    decodeItem item.encode = .ok item :=
  decodeItem_of_countable (Item.countable_of_framed h)

/-! ### Signatures -/

/-- What the signer of a scheme signs with is what a reader expects to see of the scheme. -/
theorem SchemeSigner.checkSignature_sign [Bls12381.Library] {s : SchemeSigner} {hash : BlockHash}
    {signature : BlockSignature} (h : (SchemeSigner.signer.sign s hash).1 = .ok signature) (number : UInt64) :
    Verification.checkSignature number hash signature = .ok () := by
  have hsignature : ∀ t : SchemeSigner, t.signature hash = .ok signature →
      Verification.checkSignature number hash signature = .ok () := by
    intro t ht
    unfold SchemeSigner.signature at ht
    split at ht
    · rename_i hscheme
      cases ht
      simp [Verification.checkSignature, hscheme, SignatureScheme.selfCertifying, SignatureScheme.hasHistory]
    · rename_i hscheme
      obtain ⟨bytes, -, ht⟩ := bind_eq_ok_iff.mp ht
      cases ht
      simp [Verification.checkSignature, hscheme, SignatureScheme.selfCertifying, SignatureScheme.hasHistory]
    · rename_i hscheme
      obtain ⟨proof, -, ht⟩ := bind_eq_ok_iff.mp ht
      cases ht
      simp [Verification.checkSignature, hscheme, SignatureScheme.selfCertifying, SignatureScheme.hasHistory]
    · rename_i hscheme
      split at ht
      · cases ht
      · obtain ⟨proof, -, ht⟩ := bind_eq_ok_iff.mp ht
        obtain ⟨bytes, -, ht⟩ := bind_eq_ok_iff.mp ht
        cases ht
        simp [Verification.checkSignature, hscheme, SignatureScheme.selfCertifying,
          SignatureScheme.hasHistory]
  have hsign : SchemeSigner.signer.sign s hash = s.sign hash := rfl
  rw [hsign, SchemeSigner.sign] at h
  split at h
  · cases h
  · exact hsignature _ h

/-! ### Blocks -/

/-- The items of a block with this number: a header that tells it, and then plain items. -/
def Readable (number : UInt64) (items : List Bytes) : Prop :=
  ∃ (header : BlockHeader) (plain : List Item), header.number = number ∧
    items = (Item.blockHeader header).encode :: plain.map Item.encode ∧ ∀ item ∈ plain, item.isPlain = true

namespace PendingBlock

variable {block extended : PendingBlock}

theorem readable_of_start {number : UInt64} {previous : BlockHash} {round : UInt64} {time : Timestamp}
    {version : SoftwareVersion} {startState : StartState}
    (h : start number previous round time version startState = .ok block) :
    Readable block.number block.items := by
  obtain ⟨-, -, -, hitems⟩ := start_eq_ok h
  exact ⟨_, [], rfl, hitems, nofun⟩

/-- A block that takes an item other than a header stays readable. -/
theorem readable_append (h : Readable block.number block.items) {item : Item}
    (happend : block.append item = .ok extended) (hitem : item.isHeader = false) :
    Readable extended.number extended.items := by
  obtain ⟨hproof, hpush⟩ := append_eq_ok_iff.mp happend
  obtain ⟨framed, -, rfl⟩ := push_eq_ok_iff.mp hpush
  obtain ⟨header, plain, hnumber, hitems, hplain⟩ := h
  refine ⟨header, plain ++ [item], hnumber, ?_, ?_⟩
  · simp only [extend, hitems, List.cons_append, List.map_append, List.map_cons, List.map_nil]
  · intro other hother
    rcases List.mem_append.mp hother with hother | hother
    · exact hplain other hother
    · obtain rfl := List.mem_singleton.mp hother
      rw [Item.isPlain, hitem, hproof]
      rfl

theorem readable_sealed (h : Readable block.number block.items) {time : Timestamp}
    {captured position : ChangeBatch} {closed : ClosedBlock}
    (hsealed : block.sealed time captured position = .ok closed) : Readable closed.number closed.items := by
  obtain ⟨first, h₁, hsealed⟩ := bind_eq_ok_iff.mp hsealed
  obtain ⟨second, h₂, hsealed⟩ := bind_eq_ok_iff.mp hsealed
  cases hsealed
  exact readable_append (readable_append h h₁ rfl) h₂ rfl

end PendingBlock

/-- When the last batch of state changes among items took effect, or a time given in its place. -/
def lastBatchTime (time : Timestamp) : List Item → Timestamp
  | [] => time
  | .stateChanges batch :: rest => lastBatchTime batch.time rest
  | _ :: rest => lastBatchTime time rest

/-- Behind plain items a reader knows the time of the last batch. -/
theorem readMiddle_of_plain (number : UInt64) {items : List Item} (hplain : ∀ item ∈ items, item.isPlain = true)
    (hlength : ∀ item ∈ items, item.encode.length < UInt32.size) (endTime : Timestamp) :
    Verification.readMiddle number endTime (items.map Item.encode) = .ok (lastBatchTime endTime items) := by
  induction items generalizing endTime with
  | nil => rfl
  | cons item rest ih =>
    have hrest := ih (fun i hi => hplain i (List.mem_cons_of_mem _ hi))
      fun i hi => hlength i (List.mem_cons_of_mem _ hi)
    have hdecoded := decodeItem_encode (hlength item List.mem_cons_self)
    have hitem := hplain item List.mem_cons_self
    simp only [List.map_cons, Verification.readMiddle, hdecoded, bind, Except.bind]
    cases item with
    | blockHeader _ => cases hitem
    | blockProof _ => cases hitem
    | stateChanges batch => exact hrest batch.time
    | _ => exact hrest endTime

/-- What a reader makes of a block with its proof is up to the items between header and proof. -/
theorem ClosedBlock.verifyBlock_eq {block : ClosedBlock} {header : BlockHeader} {items : List Item}
    (hnumber : header.number = block.number)
    (hitems : block.items = (Item.blockHeader header).encode :: items.map Item.encode)
    {startState : BlockHash} {signature : BlockSignature} (hcountable : signature.Countable)
    (hhash : blockHash block.previous block.items = .ok block.hash)
    (hsignature : Verification.checkSignature block.number block.hash signature = .ok ()) :
    verifyBlock (block.items ++ [(block.proofItem startState signature).encode]) block.previous =
      (Verification.readMiddle block.number header.time (items.map Item.encode)).map fun endTime =>
        { block.finalized signature with endTime } := by
  have hheader : Verification.readHeader block.items = .ok header := by
    have hdecoded : decodeItem (Item.blockHeader header).encode = .ok (.blockHeader header) :=
      decodeItem_of_countable trivial
    simp only [Verification.readHeader, hitems, hdecoded]
    rfl
  have hproof : Verification.readProof block.number (block.proofItem startState signature).encode =
      .ok ⟨block.number, block.previous, startState, signature⟩ := by
    have hdecoded : decodeItem (block.proofItem startState signature).encode =
        .ok (block.proofItem startState signature) := decodeItem_of_countable hcountable
    simp only [Verification.readProof, hdecoded]
    rfl
  have htail : block.items.tail = items.map Item.encode := by
    rw [hitems]
    rfl
  have hlink : Verification.checkLink block.number ⟨block.number, block.previous, startState, signature⟩
      block.previous = .ok () := by
    simp [Verification.checkLink]
  simp only [verifyBlock, List.getLast?_concat, List.dropLast_concat, hheader, hnumber, hproof, htail, hlink,
    hhash, hsignature, bind, Except.bind, List.length_append, List.length_singleton]
  cases Verification.readMiddle block.number header.time (items.map Item.encode) <;> rfl

/-- **A reader accepts a block with its proof**, behind the block that the proof names. -/
theorem ClosedBlock.verifyBlock_eq_ok {block : ClosedBlock}
    (hreadable : Readable block.number block.items) {buffer : Bytes}
    {startState : BlockHash} {signature : BlockSignature}
    (hframed : frameItems (block.items ++ [(block.proofItem startState signature).encode]) = .ok buffer)
    (hhash : blockHash block.previous block.items = .ok block.hash)
    (hsignature : Verification.checkSignature block.number block.hash signature = .ok ()) :
    ∃ stored, verifyBlock (block.items ++ [(block.proofItem startState signature).encode]) block.previous =
        .ok stored ∧ stored.number = block.number ∧ stored.hash = block.hash := by
  obtain ⟨header, items, hnumber, hitems, hplain⟩ := hreadable
  have hlength := length_lt_of_frameItems hframed
  have hbody : ∀ item ∈ items, item.encode.length < UInt32.size := by
    intro item hitem
    refine hlength _ (List.mem_append_left _ ?_)
    rw [hitems]
    exact List.mem_cons_of_mem _ (List.mem_map_of_mem hitem)
  have hcountable : (block.proofItem startState signature).Countable :=
    Item.countable_of_framed (hlength _ (List.mem_append_right _ (List.mem_singleton_self _)))
  have hmiddle := readMiddle_of_plain block.number hplain hbody header.time
  rw [verifyBlock_eq hnumber hitems hcountable hhash hsignature, hmiddle]
  exact ⟨_, rfl, rfl, rfl⟩

/-! ### Blocks without content -/

/-- A block with a header and nothing else. -/
def headerBlock (number : UInt64) (previous : BlockHash) : ClosedBlock :=
  let header := (Item.blockHeader ⟨number, ⟨0, 1, 0⟩, number + 1, ⟨⟨0⟩, 0⟩⟩).encode
  let itemsHash := BlockHash.sha384 (frameBytes header)
  { number, previous, itemsHash, hash := combine previous itemsHash
    firstRound := number + 1, lastRound := number + 1, endTime := ⟨⟨0⟩, 0⟩
    items := [header], startState := .supplied }

/-- The block as it is written, with a signature that nobody can check who has no key. -/
def headerItems (number : UInt64) (previous startState : BlockHash) : List Bytes :=
  (headerBlock number previous).items ++
    [((headerBlock number previous).proofItem startState ⟨.threshold, [], none⟩).encode]

theorem length_lt_of_mem_headerItems {number : UInt64} {previous startState : BlockHash} :
    ∀ bs ∈ headerItems number previous startState, bs.length < UInt32.size := by
  have hheader : (Item.blockHeader ⟨number, ⟨0, 1, 0⟩, number + 1, ⟨⟨0⟩, 0⟩⟩).encode.length < UInt32.size := by
    rw [length_encode_blockHeader]
    decide
  have hproof : (Item.blockProof ⟨number, previous, startState, ⟨.threshold, [], none⟩⟩).encode.length <
      UInt32.size := by
    simp [Item.encode, Codec.item, Codec.tag, Codec.blockProof, Codec.signature, Codec.scheme, Codec.hash,
      Codec.imap, Codec.pair, Codec.word32, Codec.word64, Codec.bytes, Codec.option, previous.length_bytes,
      startState.length_bytes, UInt32.size]
  simpa [headerItems, headerBlock, ClosedBlock.proofItem] using ⟨hheader, hproof⟩

theorem verifyBlock_headerItems (number : UInt64) (previous startState : BlockHash) :
    ∃ stored, verifyBlock (headerItems number previous startState) previous = .ok stored ∧
      stored.number = number ∧ stored.hash = (headerBlock number previous).hash := by
  have hreadable : Readable number (headerBlock number previous).items := ⟨_, [], rfl, rfl, nofun⟩
  have hframed := frameItems_eq_ok_iff.mpr ⟨@length_lt_of_mem_headerItems number previous startState, rfl⟩
  have hhash : blockHash previous (headerBlock number previous).items = .ok (headerBlock number previous).hash := by
    have hheader := @length_lt_of_mem_headerItems number previous startState _ List.mem_cons_self
    have hbody : frameItems (headerBlock number previous).items = .ok (frameBytes _) :=
      frameItems_singleton (frame_eq_ok_iff.mpr ⟨hheader, rfl⟩)
    rw [blockHash, itemsHash, hbody]
    rfl
  exact ClosedBlock.verifyBlock_eq_ok hreadable hframed hhash rfl

end RoundChain
