import RoundChain.Proofs.VerifiedBlocks

/-!
# Well-formed blocks

What a reader accepts as a written block, as a grammar: a header, plain items, and a proof that
names the header's number and the hash before it and carries a signature of the hash of all items
before the proof. `verifyBlock_eq_ok_iff` says that `verifyBlock` accepts these blocks and no
others, and what it tells of them.

## The model

Verification is a series of checks that each may refuse the block. Every check has one lemma here
that says when it succeeds, for any bytes; the hash of a block is there if and only if all items
before the proof fit into frames, `blockHash_eq_ok_iff`.
-/

namespace RoundChain

/-- When a batch of state changes took effect, for an item that is one. -/
def Item.batchTime? : Item → Option Timestamp
  | .stateChanges batch => some batch.time
  | _ => none

/-- The hash of a block is there exactly if all of its items fit into frames. -/
theorem blockHash_eq_ok_iff {previous hash : BlockHash} {body : List Bytes} :
    blockHash previous body = .ok hash ↔
      (∀ bs ∈ body, bs.length < UInt32.size) ∧ hash = combine previous (.sha384 (body.flatMap frameBytes)) := by
  rw [blockHash, map_eq_ok_iff]
  constructor
  · rintro ⟨items, hitems, rfl⟩
    obtain ⟨framed, hframed, rfl⟩ := map_eq_ok_iff.mp hitems
    obtain ⟨hlength, rfl⟩ := frameItems_eq_ok_iff.mp hframed
    exact ⟨hlength, rfl⟩
  · rintro ⟨hlength, rfl⟩
    exact ⟨_, map_eq_ok_iff.mpr ⟨_, frameItems_eq_ok_iff.mpr ⟨hlength, rfl⟩, rfl⟩, rfl⟩

/-! ### The checks -/

namespace Verification

variable {number : UInt64} {last : Bytes} {body : List Bytes} {header : BlockHeader} {proof : BlockProof}
  {previous hash : BlockHash} {signature : BlockSignature}

theorem readHeader_eq_ok_iff :
    readHeader body = .ok header ↔ ∃ head rest, body = head :: rest ∧ decodeItem head = .ok (.blockHeader header) := by
  cases body with
  | nil => exact ⟨nofun, nofun⟩
  | cons head rest =>
    rw [readHeader, bind_eq_ok_iff]
    constructor
    · rintro ⟨item, hitem, h⟩
      cases item with
      | blockHeader other =>
        cases h
        exact ⟨head, rest, rfl, hitem⟩
      | _ => cases h
    · rintro ⟨_, _, hbody, hitem⟩
      cases hbody
      exact ⟨_, hitem, rfl⟩

theorem readProof_eq_ok_iff : readProof number last = .ok proof ↔ decodeItem last = .ok (.blockProof proof) := by
  rw [readProof, bind_eq_ok_iff]
  constructor
  · rintro ⟨item, hitem, h⟩
    cases item with
    | blockProof other =>
      cases h
      exact hitem
    | _ => cases h
  · exact fun hitem => ⟨_, hitem, rfl⟩

/-- The time that the items between header and proof end with is that of their last batch. -/
theorem readMiddle_eq_ok_iff {endTime time : Timestamp} {middle : List Bytes} :
    readMiddle number endTime middle = .ok time ↔
      ∃ plain, List.Forall₂ (fun bs item => decodeItem bs = .ok item) middle plain ∧
        (∀ item ∈ plain, item.isPlain = true) ∧ time = (plain.filterMap Item.batchTime?).getLast?.getD endTime := by
  induction middle generalizing endTime with
  | nil =>
    constructor
    · rintro ⟨⟩
      exact ⟨[], .nil, List.forall_mem_nil _, rfl⟩
    · rintro ⟨plain, hplain, -, rfl⟩
      cases hplain
      rfl
  | cons bs rest ih =>
    -- the first item is plain, and the time before those behind it is its own if it is a batch
    have hfirst : readMiddle number endTime (bs :: rest) = .ok time ↔
        ∃ item, decodeItem bs = .ok item ∧ item.isPlain = true ∧
          readMiddle number (item.batchTime?.getD endTime) rest = .ok time := by
      rw [readMiddle, bind_eq_ok_iff]
      refine exists_congr fun item => and_congr_right fun _ => ?_
      cases item with
      | blockHeader _ => exact ⟨fun h => (by cases h), fun h => (by cases h.1)⟩
      | blockProof _ => exact ⟨fun h => (by cases h), fun h => (by cases h.1)⟩
      | _ => exact (and_iff_right rfl).symm
    have htime : ∀ (item : Item) (plain : List Item),
        ((item :: plain).filterMap Item.batchTime?).getLast?.getD endTime =
          (plain.filterMap Item.batchTime?).getLast?.getD (item.batchTime?.getD endTime) := by
      intro item plain
      cases hitem : item.batchTime? with
      | none => rw [List.filterMap_cons_none hitem]; rfl
      | some first => rw [List.filterMap_cons_some hitem, List.getLast?_cons]; rfl
    rw [hfirst]
    constructor
    · rintro ⟨item, hitem, hplain, h⟩
      obtain ⟨plain, hdecoded, hrest, rfl⟩ := ih.mp h
      exact ⟨item :: plain, .cons hitem hdecoded, List.forall_mem_cons.mpr ⟨hplain, hrest⟩, (htime item plain).symm⟩
    · rintro ⟨_, hdecoded, hplain, rfl⟩
      cases hdecoded with
      | @cons _ item _ plain hitem hdecoded =>
        obtain ⟨hfirst, hrest⟩ := List.forall_mem_cons.mp hplain
        exact ⟨item, hitem, hfirst, ih.mpr ⟨plain, hdecoded, hrest, htime item plain⟩⟩

theorem checkLink_eq_ok_iff :
    checkLink number proof previous = .ok () ↔ proof.number = number ∧ proof.previous = previous := by
  unfold checkLink broken
  split
  · rename_i hnumber
    exact ⟨nofun, fun h => absurd h.1 hnumber⟩
  · rename_i hnumber
    split
    · rename_i hprevious
      exact ⟨nofun, fun h => absurd h.2 hprevious⟩
    · rename_i hprevious
      exact ⟨fun _ => ⟨not_not.mp hnumber, not_not.mp hprevious⟩, fun _ => rfl⟩

theorem checkSignature_eq_ok_iff :
    checkSignature number hash signature = .ok () ↔
      (signature.scheme = .trivial ∨ signature.scheme = .historyWrapped → signature.bytes = trivialSignature hash) ∧
        (signature.scheme = .historyWrapped ∨ signature.scheme = .thresholdWithHistory →
          signature.history ≠ none) := by
  unfold checkSignature broken
  cases signature.scheme <;>
    by_cases hbytes : signature.bytes = trivialSignature hash <;>
    by_cases hhistory : signature.history = none <;>
    simp [SignatureScheme.selfCertifying, SignatureScheme.hasHistory, hbytes, hhistory]

end Verification

/-! ### Blocks -/

/-- **A well-formed block** behind a hash, and what it tells: its items are a header, plain items and a proof of
the header's block behind this hash. The proof is signed for the hash of the items before it, as far as this shows
without a key: the schemes that need none have the digest of the hash, and those with history have a history
proof. The block ends when its last batch of state changes took effect, or else when it began. Items are hashed in
their frames, and an item of 2³² bytes or more has none: `hashed` also says that there is no such item before the
proof, and a block with one is refused. -/
inductive WellFormed (previous : BlockHash) : List Bytes → FinalizedBlock → Prop where
  | block {head last : Bytes} {middle : List Bytes} {header : BlockHeader} {plain : List Item} {proof : BlockProof}
      {hash : BlockHash} (begins : decodeItem head = .ok (.blockHeader header))
      (between : List.Forall₂ (fun bs item => decodeItem bs = .ok item) middle plain)
      (plainly : ∀ item ∈ plain, item.isHeader = false ∧ item.isProof = false)
      (ends : decodeItem last = .ok (.blockProof proof)) (number : proof.number = header.number)
      (link : proof.previous = previous) (hashed : blockHash previous ([head] ++ middle) = .ok hash)
      (signed : proof.signature.scheme = .trivial ∨ proof.signature.scheme = .historyWrapped →
        proof.signature.bytes = trivialSignature hash)
      (history : proof.signature.scheme = .historyWrapped ∨ proof.signature.scheme = .thresholdWithHistory →
        proof.signature.history ≠ none) :
      WellFormed previous ([head] ++ middle ++ [last])
        { number := header.number, hash, previous, signature := proof.signature
          itemCount := ([head] ++ middle ++ [last]).length
          endTime := (plain.filterMap Item.batchTime?).getLast?.getD header.time }

theorem Item.isPlain_iff {item : Item} : item.isPlain = true ↔ item.isHeader = false ∧ item.isProof = false := by
  simp [Item.isPlain]

/-- The checks of a block with this proof, one after the other. -/
theorem verifyBlock_concat_eq_ok_iff {body : List Bytes} {last : Bytes} {previous : BlockHash}
    {block : FinalizedBlock} :
    verifyBlock (body ++ [last]) previous = .ok block ↔ ∃ header proof endTime hash,
      Verification.readHeader body = .ok header ∧ Verification.readProof header.number last = .ok proof ∧
      Verification.readMiddle header.number header.time body.tail = .ok endTime ∧
      Verification.checkLink header.number proof previous = .ok () ∧ blockHash proof.previous body = .ok hash ∧
      Verification.checkSignature header.number hash proof.signature = .ok () ∧
      block = { number := header.number, hash, previous := proof.previous, signature := proof.signature
                itemCount := (body ++ [last]).length, endTime } := by
  simp only [verifyBlock, List.getLast?_concat, List.dropLast_concat]
  constructor
  · intro h
    obtain ⟨header, hheader, h⟩ := bind_eq_ok_iff.mp h
    obtain ⟨proof, hproof, h⟩ := bind_eq_ok_iff.mp h
    obtain ⟨endTime, hmiddle, h⟩ := bind_eq_ok_iff.mp h
    obtain ⟨⟨⟩, hlink, h⟩ := bind_eq_ok_iff.mp h
    obtain ⟨hash, hhash, h⟩ := bind_eq_ok_iff.mp h
    obtain ⟨⟨⟩, hsignature, h⟩ := bind_eq_ok_iff.mp h
    cases h
    exact ⟨header, proof, endTime, hash, hheader, hproof, hmiddle, hlink, hhash, hsignature, rfl⟩
  · rintro ⟨header, proof, endTime, hash, hheader, hproof, hmiddle, hlink, hhash, hsignature, rfl⟩
    simp only [hheader, hproof, hmiddle, hlink, hhash, hsignature, ok_bind]
    rfl

/-- **A reader accepts the well-formed blocks and no others.** -/
theorem verifyBlock_eq_ok_iff {items : List Bytes} {previous : BlockHash} {block : FinalizedBlock} :
    verifyBlock items previous = .ok block ↔ WellFormed previous items block := by
  constructor
  · intro h
    rcases List.eq_nil_or_concat items with rfl | ⟨body, last, rfl⟩
    · cases h
    rw [List.concat_eq_append] at h ⊢
    obtain ⟨header, proof, endTime, hash, hheader, hproof, hmiddle, hlink, hhash, hsignature, rfl⟩ :=
      verifyBlock_concat_eq_ok_iff.mp h
    obtain ⟨head, middle, rfl, hbegins⟩ := Verification.readHeader_eq_ok_iff.mp hheader
    obtain ⟨plain, hbetween, hplain, rfl⟩ := Verification.readMiddle_eq_ok_iff.mp hmiddle
    obtain ⟨hnumber, rfl⟩ := Verification.checkLink_eq_ok_iff.mp hlink
    obtain ⟨hsigned, hhistory⟩ := Verification.checkSignature_eq_ok_iff.mp hsignature
    exact .block hbegins hbetween (fun item hitem => Item.isPlain_iff.mp (hplain item hitem))
      (Verification.readProof_eq_ok_iff.mp hproof) hnumber rfl hhash hsigned hhistory
  · rintro @⟨head, last, middle, header, plain, proof, hash, hbegins, hbetween, hplain, hends, hnumber, rfl, hhash,
      hsigned, hhistory⟩
    refine verifyBlock_concat_eq_ok_iff.mpr ⟨header, proof, _, hash,
      Verification.readHeader_eq_ok_iff.mpr ⟨head, middle, rfl, hbegins⟩, Verification.readProof_eq_ok_iff.mpr hends,
      Verification.readMiddle_eq_ok_iff.mpr
        ⟨plain, hbetween, fun item hitem => Item.isPlain_iff.mpr (hplain item hitem), rfl⟩,
      Verification.checkLink_eq_ok_iff.mpr ⟨hnumber, rfl⟩, hhash,
      Verification.checkSignature_eq_ok_iff.mpr ⟨hsigned, hhistory⟩, rfl⟩

end RoundChain
