import RoundChain.Proofs.WellFormedBlocks

/-!
# Chains that a reader accepts

`verifyFrom` goes through blocks one after the other. `Accepted` says the same as a relation, block
by block: each block is accepted behind the hash of the one before, and it has the number that the
one before demands. `verifyFrom_eq_ok_iff` makes the two one. What is left of a chain without its
first blocks is a chain, `Accepted.split`, behind the hash that its own first block names.
-/

namespace RoundChain

/-! ### One block -/

/-- The last of these items is a proof that names the hash of the block before. -/
def Names (items : List Bytes) (previous : BlockHash) : Prop :=
  ∃ last proof, items.getLast? = some last ∧ decodeItem last = .ok (.blockProof proof) ∧ proof.previous = previous

/-- A block is accepted behind the hash that it names, and nowhere else. -/
theorem names_of_verifyBlock {items : List Bytes} {previous : BlockHash} {block : FinalizedBlock}
    (h : verifyBlock items previous = .ok block) : Names items previous := by
  cases verifyBlock_eq_ok_iff.mp h with
  | block _ _ _ ends _ link _ _ _ => exact ⟨_, _, List.getLast?_concat, ends, link⟩

/-! ### Blocks one after the other -/

/-- A reader accepts these blocks one after the other, behind a hash; the first of them has the number that is
expected, if one is, and every other one the number after the last. -/
inductive Accepted : BlockHash → Option UInt64 → List (List Bytes) → List FinalizedBlock → Prop where
  | nil {previous : BlockHash} {expected : Option UInt64} : Accepted previous expected [] []
  | cons {previous : BlockHash} {expected : Option UInt64} {items : List Bytes} {rest : List (List Bytes)}
      {block : FinalizedBlock} {next : UInt64} {more : List FinalizedBlock} :
      verifyBlock items previous = .ok block → (∀ n ∈ expected, block.number = n) →
      nextWord (ε := StreamError) block.number = .ok next → Accepted block.hash (some next) rest more →
      Accepted previous expected (items :: rest) (block :: more)

theorem accepted_cons_iff {previous : BlockHash} {expected : Option UInt64} {items : List Bytes}
    {rest : List (List Bytes)} {stored : List FinalizedBlock} :
    Accepted previous expected (items :: rest) stored ↔
      ∃ block next more, stored = block :: more ∧ verifyBlock items previous = .ok block ∧
        (∀ n ∈ expected, block.number = n) ∧ nextWord (ε := StreamError) block.number = .ok next ∧
        Accepted block.hash (some next) rest more := by
  constructor
  · intro h
    cases h with
    | cons hverified hnumber hnext hrest => exact ⟨_, _, _, rfl, hverified, hnumber, hnext, hrest⟩
  · rintro ⟨block, next, more, rfl, hverified, hnumber, hnext, hrest⟩
    exact .cons hverified hnumber hnext hrest

/-- **Blocks are verified if and only if they are accepted one after the other.** -/
theorem verifyFrom_eq_ok_iff {previous : BlockHash} {expected : Option UInt64} {blocks : List (List Bytes)}
    {stored : List FinalizedBlock} :
    verifyFrom previous expected blocks = .ok stored ↔ Accepted previous expected blocks stored := by
  induction blocks generalizing previous expected stored with
  | nil =>
    constructor
    · rintro ⟨⟩
      exact .nil
    · rintro ⟨⟩
      rfl
  | cons items rest ih =>
    have hafter : ∀ block : FinalizedBlock,
        (do
          let next ← nextWord block.number
          return block :: (← verifyFrom block.hash (some next) rest)) = .ok stored ↔
        ∃ next more, stored = block :: more ∧ nextWord (ε := StreamError) block.number = .ok next ∧
          Accepted block.hash (some next) rest more := by
      intro block
      rw [bind_eq_ok_iff]
      refine exists_congr fun next => ?_
      constructor
      · rintro ⟨hnext, h⟩
        obtain ⟨more, hmore, h⟩ := bind_eq_ok_iff.mp h
        cases h
        exact ⟨more, rfl, hnext, ih.mp hmore⟩
      · rintro ⟨more, rfl, hnext, hmore⟩
        exact ⟨hnext, bind_eq_ok_iff.mpr ⟨more, ih.mpr hmore, rfl⟩⟩
    rw [verifyFrom, bind_eq_ok_iff, accepted_cons_iff]
    refine exists_congr fun block => ?_
    rw [Checked.ofExcept_eq_ok_iff]
    cases expected with
    | none =>
      simp only
      rw [hafter]
      constructor
      · rintro ⟨hverified, next, more, rfl, hnext, hmore⟩
        exact ⟨next, more, rfl, hverified, nofun, hnext, hmore⟩
      · rintro ⟨next, more, rfl, hverified, -, hnext, hmore⟩
        exact ⟨hverified, next, more, rfl, hnext, hmore⟩
    | some n =>
      simp only
      by_cases hnumber : block.number ≠ n
      · rw [if_pos hnumber]
        constructor
        · rintro ⟨-, h⟩
          cases h
        · rintro ⟨_, _, -, -, hexpected, -, -⟩
          exact absurd (hexpected n rfl) hnumber
      · rw [if_neg hnumber, hafter]
        constructor
        · rintro ⟨hverified, next, more, rfl, hnext, hmore⟩
          refine ⟨next, more, rfl, hverified, ?_, hnext, hmore⟩
          rintro _ ⟨⟩
          exact not_not.mp hnumber
        · rintro ⟨next, more, rfl, hverified, -, hnext, hmore⟩
          exact ⟨hverified, next, more, rfl, hnext, hmore⟩

theorem verifyChain_eq_ok_iff {anchor : BlockHash} {blocks : List (List Bytes)} {stored : List FinalizedBlock} :
    verifyChain blocks anchor = .ok stored ↔ Accepted anchor none blocks stored := verifyFrom_eq_ok_iff

/-- A chain that begins with a given number is a chain whose first block has this number. -/
theorem accepted_some_iff {previous : BlockHash} {n : UInt64} {blocks : List (List Bytes)}
    {stored : List FinalizedBlock} :
    Accepted previous (some n) blocks stored ↔
      Accepted previous none blocks stored ∧ ∀ block ∈ stored.head?, block.number = n := by
  constructor
  · intro h
    cases h with
    | nil => exact ⟨.nil, nofun⟩
    | cons hverified hnumber hnext hrest =>
      refine ⟨.cons hverified nofun hnext hrest, ?_⟩
      rintro _ ⟨⟩
      exact hnumber n rfl
  · rintro ⟨h, hhead⟩
    cases h with
    | nil => exact .nil
    | cons hverified _ hnext hrest =>
      refine .cons hverified ?_ hnext hrest
      rintro _ ⟨⟩
      exact hhead _ rfl

/-- A chain begins behind the hash that its first block names. -/
theorem Accepted.names {previous : BlockHash} {expected : Option UInt64} {blocks : List (List Bytes)}
    {stored : List FinalizedBlock} (h : Accepted previous expected blocks stored) :
    ∀ items ∈ blocks.head?, Names items previous := by
  cases h with
  | nil => nofun
  | cons hverified =>
    rintro _ ⟨⟩
    exact names_of_verifyBlock hverified

/-- **The end of a chain is a chain**, behind the hash that its first block names. -/
theorem Accepted.split {previous : BlockHash} {expected : Option UInt64} {xs ys : List (List Bytes)}
    {stored : List FinalizedBlock} (h : Accepted previous expected (xs ++ ys) stored) :
    ∃ front back middle, stored = front ++ back ∧ front.length = xs.length ∧ Accepted middle none ys back := by
  induction xs generalizing previous expected stored with
  | nil =>
    cases expected with
    | none => exact ⟨[], stored, previous, rfl, rfl, h⟩
    | some n => exact ⟨[], stored, previous, rfl, rfl, (accepted_some_iff.mp h).1⟩
  | cons items rest ih =>
    obtain ⟨block, next, more, rfl, -, -, -, hrest⟩ := accepted_cons_iff.mp h
    obtain ⟨front, back, middle, rfl, hlength, hback⟩ := ih hrest
    refine ⟨block :: front, back, middle, rfl, ?_, hback⟩
    rw [List.length_cons, List.length_cons, hlength]

end RoundChain
