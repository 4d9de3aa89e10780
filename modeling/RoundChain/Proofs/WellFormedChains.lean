import RoundChain.Proofs.VerifiedChains

/-!
# Well-formed chains

What a reader accepts as a chain of written blocks, place by place: each block is `WellFormed` behind
the hash of the one before, the first behind the anchor, and the numbers are consecutive.
`verification_exact` says that `verifyBlock` accepts the well-formed blocks and `verifyChain` the
well-formed chains, and neither accepts anything else.

## The model

Numbers are counted on as words. A chain in which a block has the greatest word for its number is
never accepted, so the numbers of a chain are told to be smaller.
-/

namespace RoundChain

/-- **A well-formed chain** behind an anchor, and what it tells block by block. -/
structure WellFormedChain (anchor : BlockHash) (blocks : List (List Bytes)) (stored : List FinalizedBlock) :
    Prop where
  complete : stored.length = blocks.length
  linked : ∀ (i : Nat) items previous block, blocks[i]? = some items →
    (anchor :: stored.map (·.hash))[i]? = some previous → stored[i]? = some block → WellFormed previous items block
  consecutive : ∀ (i : Nat) block next, stored[i]? = some block → stored[i + 1]? = some next →
    next.number.toNat = block.number.toNat + 1

theorem wellFormedChain_nil (anchor : BlockHash) : WellFormedChain anchor [] [] :=
  ⟨rfl, nofun, nofun⟩

/-- A chain is its first block and the chain behind it, which counts on from the first block. -/
theorem wellFormedChain_cons_iff {anchor : BlockHash} {items : List Bytes} {rest : List (List Bytes)}
    {block : FinalizedBlock} {more : List FinalizedBlock} :
    WellFormedChain anchor (items :: rest) (block :: more) ↔
      WellFormed anchor items block ∧ (∀ next ∈ more.head?, next.number.toNat = block.number.toNat + 1) ∧
        WellFormedChain block.hash rest more := by
  constructor
  · rintro ⟨hcomplete, hlinked, hconsecutive⟩
    refine ⟨hlinked 0 items anchor block rfl rfl rfl, fun next hnext => ?_, Nat.succ.inj hcomplete, ?_, ?_⟩
    · exact hconsecutive 0 block next rfl (List.head?_eq_getElem?.symm.trans hnext)
    · exact fun i => hlinked (i + 1)
    · exact fun i => hconsecutive (i + 1)
  · rintro ⟨hblock, hnext, hcomplete, hlinked, hconsecutive⟩
    refine ⟨congrArg (· + 1) hcomplete, fun i => ?_, fun i => ?_⟩
    · cases i with
      | zero =>
        rintro _ _ _ ⟨⟩ ⟨⟩ ⟨⟩
        exact hblock
      | succ i => exact hlinked i
    · cases i with
      | zero =>
        rintro _ next ⟨⟩ hmore
        exact hnext next (List.head?_eq_getElem?.trans hmore)
      | succ i => exact hconsecutive i

/-- **Accepted blocks are a well-formed chain** that begins with the expected number, and in which no number is the
greatest. -/
theorem accepted_iff_wellFormedChain {anchor : BlockHash} {expected : Option UInt64} {blocks : List (List Bytes)}
    {stored : List FinalizedBlock} :
    Accepted anchor expected blocks stored ↔
      WellFormedChain anchor blocks stored ∧ (∀ n ∈ expected, ∀ block ∈ stored.head?, block.number = n) ∧
        ∀ block ∈ stored, block.number.toNat + 1 < UInt64.size := by
  induction blocks generalizing anchor expected stored with
  | nil =>
    constructor
    · rintro ⟨⟩
      exact ⟨wellFormedChain_nil anchor, nofun, nofun⟩
    · rintro ⟨⟨hcomplete, -, -⟩, -, -⟩
      rw [List.length_eq_zero_iff.mp hcomplete]
      exact .nil
  | cons items rest ih =>
    rw [accepted_cons_iff]
    constructor
    · rintro ⟨block, next, more, rfl, hverified, hnumber, hnext, hmore⟩
      obtain ⟨hchain, hfirst, hfew⟩ := ih.mp hmore
      have hsum := nextWord_eq_ok_iff.mp hnext
      have hlt : block.number.toNat + 1 < UInt64.size := by
        rw [← hsum]
        exact next.toNat_lt
      refine ⟨wellFormedChain_cons_iff.mpr ⟨verifyBlock_eq_ok_iff.mp hverified, fun second hsecond => ?_, hchain⟩,
        ?_, List.forall_mem_cons.mpr ⟨hlt, hfew⟩⟩
      · rw [hfirst next rfl second hsecond, hsum]
      · rintro n hn _ ⟨⟩
        exact hnumber n hn
    · rintro ⟨hchain, hnumber, hfew⟩
      cases stored with
      | nil => cases hchain.complete
      | cons block more =>
        obtain ⟨hblock, hsecond, hrest⟩ := wellFormedChain_cons_iff.mp hchain
        obtain ⟨hlt, hfew⟩ := List.forall_mem_cons.mp hfew
        obtain ⟨next, hnext, hsum⟩ := exists_nextWord (ε := StreamError) hlt
        refine ⟨block, next, more, rfl, verifyBlock_eq_ok_iff.mpr hblock, fun n hn => hnumber n hn block rfl, hnext,
          ih.mpr ⟨hrest, ?_, hfew⟩⟩
        rintro _ ⟨⟩ second hmem
        exact UInt64.toNat_inj.mp ((hsecond second hmem).trans hsum.symm)

/-- **Verification accepts the well-formed blocks and chains, and nothing else.** A block, given as any list of byte
strings, is accepted behind a hash if and only if it is well-formed behind this hash, and then the reader tells what
the grammar says. Blocks are accepted as a chain behind an anchor if and only if they are a well-formed chain behind
it, as long as all numbers are below the greatest word. -/
theorem verification_exact :
    (∀ (items : List Bytes) (previous : BlockHash) (block : FinalizedBlock),
      verifyBlock items previous = .ok block ↔ WellFormed previous items block) ∧
    ∀ (blocks : List (List Bytes)) (anchor : BlockHash) (stored : List FinalizedBlock),
      verifyChain blocks anchor = .ok stored ↔
        WellFormedChain anchor blocks stored ∧ ∀ block ∈ stored, block.number.toNat + 1 < UInt64.size := by
  refine ⟨fun _ _ _ => verifyBlock_eq_ok_iff, fun blocks anchor stored => ?_⟩
  rw [verifyChain_eq_ok_iff, accepted_iff_wellFormedChain]
  exact and_congr_right fun _ => and_iff_right nofun

end RoundChain
