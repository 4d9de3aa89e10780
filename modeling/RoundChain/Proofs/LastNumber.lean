import RoundChain.Proofs.Windows

/-!
# Blocks with the last number

Readers of stored blocks take any bytes there are. They answer or refuse, but for one sum: both
`verifyChain` and `Recovery.recover` count on from the number of every block that they accept, also
from the greatest word, behind which there is no number. `exceeds_iff_last_number` says that a program
stops there and nowhere else.

## The model

`AcceptedToLast` is `Accepted` for blocks that end with the last number: each is accepted behind the
hash of the one before, with the number that the one before demands, and behind the last of them the
numbers have run out. A reader gets no further than that block, so what comes behind it in the list of
blocks, or in the window, does not matter.
-/

namespace RoundChain

/-- A reader accepts these blocks one after the other, behind a hash, as in `Accepted`; the last of them has the
greatest number that there is. -/
inductive AcceptedToLast : BlockHash → Option UInt64 → List (List Bytes) → List FinalizedBlock → Prop where
  | last {previous : BlockHash} {expected : Option UInt64} {items : List Bytes} {block : FinalizedBlock} :
      verifyBlock items previous = .ok block → (∀ n ∈ expected, block.number = n) →
      block.number.toNat + 1 = UInt64.size → AcceptedToLast previous expected [items] [block]
  | cons {previous : BlockHash} {expected : Option UInt64} {items : List Bytes} {rest : List (List Bytes)}
      {block : FinalizedBlock} {next : UInt64} {more : List FinalizedBlock} :
      verifyBlock items previous = .ok block → (∀ n ∈ expected, block.number = n) →
      nextWord (ε := StreamError) block.number = .ok next → AcceptedToLast block.hash (some next) rest more →
      AcceptedToLast previous expected (items :: rest) (block :: more)

/-- A chain that begins with a given number is a chain whose first block has this number. -/
theorem acceptedToLast_some_iff {previous : BlockHash} {n : UInt64} {blocks : List (List Bytes)}
    {stored : List FinalizedBlock} :
    AcceptedToLast previous (some n) blocks stored ↔
      AcceptedToLast previous none blocks stored ∧ ∀ block ∈ stored.head?, block.number = n := by
  constructor
  · intro h
    cases h with
    | last hverified hnumber hlast =>
      refine ⟨.last hverified nofun hlast, ?_⟩
      rintro _ ⟨⟩
      exact hnumber n rfl
    | cons hverified hnumber hnext hrest =>
      refine ⟨.cons hverified nofun hnext hrest, ?_⟩
      rintro _ ⟨⟩
      exact hnumber n rfl
  · rintro ⟨h, hhead⟩
    have hfirst : ∀ block ∈ stored.head?, ∀ m ∈ some n, block.number = m := by
      rintro block hblock _ ⟨⟩
      exact hhead block hblock
    cases h with
    | last hverified _ hlast => exact .last hverified (hfirst _ rfl) hlast
    | cons hverified _ hnext hrest => exact .cons hverified (hfirst _ rfl) hnext hrest

/-! ### Calls that stop -/

theorem Checked.ofExcept_ne_exceeded {ε α : Type} (x : Except ε α) (limit : Limit) :
    Checked.ofExcept x ≠ .error (.exceeded limit) := by
  cases x <;> simp [Checked.ofExcept, refuse]

/-- A call that checks no limit is behind us where a limit is exceeded. -/
theorem ofExcept_bind_exceeds_iff {ε α β : Type} {x : Except ε α} {f : α → Checked ε β} {limit : Limit} :
    Checked.ofExcept x >>= f = .error (.exceeded limit) ↔ ∃ a, x = .ok a ∧ f a = .error (.exceeded limit) := by
  rw [bind_eq_error_iff]
  constructor
  · rintro (h | ⟨a, ha, h⟩)
    · exact absurd h (Checked.ofExcept_ne_exceeded x limit)
    · exact ⟨a, Checked.ofExcept_eq_ok_iff.mp ha, h⟩
  · rintro ⟨a, ha, h⟩
    exact .inr ⟨a, Checked.ofExcept_eq_ok_iff.mpr ha, h⟩

/-- Counting on from a number stops exactly if the number is the last one, or if what comes then does. -/
theorem nextWord_bind_exceeds_iff {ε β : Type} {n : UInt64} {f : UInt64 → Checked ε β} {limit : Limit} :
    nextWord n >>= f = .error (.exceeded limit) ↔
      limit = .word ∧ n.toNat + 1 = UInt64.size ∨
        ∃ next, nextWord (ε := ε) n = .ok next ∧ f next = .error (.exceeded limit) := by
  rw [bind_eq_error_iff]
  refine or_congr_left ⟨fun h => ?_, ?_⟩
  · cases limit with
    | word => exact ⟨rfl, nextWord_eq_exceeded_iff.mp h⟩
    | places =>
      unfold nextWord at h
      split at h <;> cases h
  · rintro ⟨rfl, hlast⟩
    exact nextWord_eq_exceeded_iff.mpr hlast

/-! ### Chains -/

/-- **Verification stops the program if and only if it comes to an accepted block with the last number.** -/
theorem verifyFrom_exceeds_iff {previous : BlockHash} {expected : Option UInt64} {blocks : List (List Bytes)}
    {limit : Limit} :
    verifyFrom previous expected blocks = .error (.exceeded limit) ↔
      limit = .word ∧ ∃ front stored, front <+: blocks ∧ AcceptedToLast previous expected front stored := by
  induction blocks generalizing previous expected with
  | nil =>
    constructor
    · intro h
      cases h
    · rintro ⟨-, front, stored, hfront, haccepted⟩
      obtain rfl := List.prefix_nil.mp hfront
      cases haccepted
  | cons items rest ih =>
    have hafter : ∀ block : FinalizedBlock,
        (do
          let next ← nextWord block.number
          return block :: (← verifyFrom block.hash (some next) rest)) = .error (.exceeded limit) ↔
        limit = .word ∧ (block.number.toNat + 1 = UInt64.size ∨
          ∃ next front more, nextWord (ε := StreamError) block.number = .ok next ∧ front <+: rest ∧
            AcceptedToLast block.hash (some next) front more) := by
      intro block
      rw [nextWord_bind_exceeds_iff, and_or_left]
      refine or_congr_right ?_
      constructor
      · rintro ⟨next, hnext, h⟩
        rcases bind_eq_error_iff.mp h with h | ⟨_, -, h⟩
        · obtain ⟨rfl, front, more, hfront, hmore⟩ := ih.mp h
          exact ⟨rfl, next, front, more, hnext, hfront, hmore⟩
        · cases h
      · rintro ⟨rfl, next, front, more, hnext, hfront, hmore⟩
        exact ⟨next, hnext, bind_eq_error_iff.mpr (.inl (ih.mpr ⟨rfl, front, more, hfront, hmore⟩))⟩
    have hchecked : verifyFrom previous expected (items :: rest) = .error (.exceeded limit) ↔
        ∃ block, verifyBlock items previous = .ok block ∧ (∀ n ∈ expected, block.number = n) ∧
          (do
            let next ← nextWord block.number
            return block :: (← verifyFrom block.hash (some next) rest)) = .error (.exceeded limit) := by
      rw [verifyFrom, ofExcept_bind_exceeds_iff]
      refine exists_congr fun block => and_congr_right fun _ => ?_
      cases expected with
      | none => simp
      | some n =>
        by_cases hnumber : block.number = n
        · simp [hnumber]
        · simp only [ne_eq, hnumber, not_false_eq_true, if_true, Option.mem_some_iff, forall_eq', false_and,
            iff_false]
          intro h
          cases h
    rw [hchecked]
    constructor
    · rintro ⟨block, hverified, hnumber, h⟩
      obtain ⟨rfl, hlast | ⟨next, front, more, hnext, hfront, hmore⟩⟩ := (hafter block).mp h
      · exact ⟨rfl, [items], [block], ⟨rest, rfl⟩, .last hverified hnumber hlast⟩
      · exact ⟨rfl, items :: front, block :: more, List.cons_prefix_cons.mpr ⟨rfl, hfront⟩,
          .cons hverified hnumber hnext hmore⟩
    · rintro ⟨rfl, front, stored, hfront, haccepted⟩
      cases haccepted with
      | @last _ _ items' block hverified hnumber hlast =>
        obtain ⟨rfl, -⟩ := List.cons_prefix_cons.mp hfront
        exact ⟨block, hverified, hnumber, (hafter block).mpr ⟨rfl, .inl hlast⟩⟩
      | @cons _ _ items' behind block next more hverified hnumber hnext hmore =>
        obtain ⟨rfl, hbehind⟩ := List.cons_prefix_cons.mp hfront
        exact ⟨block, hverified, hnumber,
          (hafter block).mpr ⟨rfl, .inr ⟨next, behind, more, hnext, hbehind, hmore⟩⟩⟩

theorem verifyChain_exceeds_iff {anchor : BlockHash} {blocks : List (List Bytes)} {limit : Limit} :
    verifyChain blocks anchor = .error (.exceeded limit) ↔
      limit = .word ∧ ∃ front stored, front <+: blocks ∧ AcceptedToLast anchor none front stored :=
  verifyFrom_exceeds_iff

/-! ### Files -/

namespace Recovery

variable [Compression] {d : Directory} {limit : Limit} {info : StreamInfo} {kept : Nat}

/-- Files, one after the other, are a chain that ends with the last number, and each has the number of its
block. -/
structure FiledToLast (d : Directory) (files : List (UInt64 × String)) (anchor : BlockHash)
    (contents : List (List Bytes)) (stored : List FinalizedBlock) : Prop where
  opens : List.Forall₂ (Opens d) files contents
  accepted : AcceptedToLast anchor none contents stored
  numbers : stored.map (·.number) = files.map (·.1)

omit [Compression] in
theorem recordFile_exceeds_iff {expected number : UInt64} {items : List Bytes} :
    recordFile kept info expected number items = .error (.exceeded limit) ↔
      limit = .word ∧ ∃ block, verifyBlock items info.lastHash = .ok block ∧ block.number = number ∧
        block.number = expected ∧ block.number.toNat + 1 = UInt64.size := by
  rw [recordFile, ofExcept_bind_exceeds_iff, ← exists_and_left]
  refine exists_congr fun block => ?_
  rw [and_left_comm]
  refine and_congr_right fun _ => ?_
  by_cases hnumber : block.number ≠ number ∨ block.number ≠ expected
  · rw [if_pos hnumber]
    constructor
    · intro h
      cases h
    · rintro ⟨-, rfl, rfl, -⟩
      exact absurd hnumber (by simp)
  · rw [if_neg hnumber]
    obtain ⟨rfl, hexpected⟩ := not_or.mp hnumber |>.imp not_not.mp not_not.mp
    constructor
    · intro h
      rcases nextWord_bind_exceeds_iff.mp h with ⟨rfl, hlast⟩ | ⟨next, -, h⟩
      · exact ⟨rfl, rfl, hexpected, hlast⟩
      · cases h
    · rintro ⟨rfl, -, -, hlast⟩
      exact nextWord_bind_exceeds_iff.mpr (.inl ⟨rfl, hlast⟩)

/-- **Recording files stops the program if and only if it comes to a file with the last number**, whose block is
accepted as those before it are. -/
theorem recordFiles_exceeds_iff {expected : UInt64} {files : List (UInt64 × String)} :
    recordFiles d kept info expected files = .error (.exceeded limit) ↔
      limit = .word ∧ ∃ opened contents stored, opened <+: files ∧ List.Forall₂ (Opens d) opened contents ∧
        AcceptedToLast info.lastHash (some expected) contents stored ∧
        stored.map (·.number) = opened.map (·.1) := by
  induction files generalizing info expected with
  | nil =>
    constructor
    · intro h
      cases h
    · rintro ⟨-, opened, contents, stored, hopened, hopens, haccepted, -⟩
      obtain rfl := List.prefix_nil.mp hopened
      cases hopens
      cases haccepted
  | cons file rest ih =>
    obtain ⟨number, name⟩ := file
    rw [recordFiles, ofExcept_bind_exceeds_iff]
    constructor
    · rintro ⟨items, hitems, h⟩
      have hopens : Opens d (number, name) items := readItems_eq_ok_iff.mp hitems
      rcases bind_eq_error_iff.mp h with h | ⟨⟨after, next⟩, hrecord, h⟩
      · obtain ⟨rfl, block, hverified, hnumber, hexpected, hlast⟩ := recordFile_exceeds_iff.mp h
        refine ⟨rfl, [(number, name)], [items], [block], ⟨rest, rfl⟩, .cons hopens .nil,
          .last hverified ?_ hlast, congrArg ([·]) hnumber⟩
        rintro _ ⟨⟩
        exact hexpected
      · obtain ⟨block, hverified, hnumber, hexpected, hnext, rfl⟩ := recordFile_eq_ok_iff.mp hrecord
        obtain ⟨rfl, opened, contents, stored, hopened, hcontents, haccepted, hnumbers⟩ := ih.mp h
        refine ⟨rfl, (number, name) :: opened, items :: contents, block :: stored,
          List.cons_prefix_cons.mpr ⟨rfl, hopened⟩, .cons hopens hcontents, .cons hverified ?_ hnext haccepted,
          ?_⟩
        · rintro _ ⟨⟩
          exact hexpected
        · rw [List.map_cons, List.map_cons, hnumber, hnumbers]
    · rintro ⟨rfl, opened, contents, stored, hopened, hcontents, haccepted, hnumbers⟩
      cases hcontents with
      | nil => cases haccepted
      | @cons file items opened contents hopens hcontents =>
        obtain ⟨rfl, hrest⟩ := List.cons_prefix_cons.mp hopened
        refine ⟨items, readItems_eq_ok_iff.mpr hopens, bind_eq_error_iff.mpr ?_⟩
        cases haccepted with
        | last hverified hexpected hlast =>
          have hnumber := (List.cons.inj hnumbers).1
          exact .inl (recordFile_exceeds_iff.mpr ⟨rfl, _, hverified, hnumber, hexpected _ rfl, hlast⟩)
        | cons hverified hexpected hnext haccepted =>
          obtain ⟨hnumber, hnumbers⟩ := List.cons.inj hnumbers
          exact .inr ⟨_, recordFile_eq_ok_iff.mpr ⟨_, hverified, hnumber, hexpected _ rfl, hnext, rfl⟩,
            ih.mpr ⟨rfl, opened, contents, _, hrest, hcontents, haccepted, hnumbers⟩⟩

/-- **Recovery stops the program if and only if its window has a file with the last number**, whose block is
accepted behind the blocks of the files before it. -/
theorem recover_exceeds_iff {version : SoftwareVersion} :
    recover d version kept = .error (.exceeded limit) ↔
      limit = .word ∧ ∃ opened anchor contents stored, opened <+: window (BlockFile.list d) kept ∧
        FiledToLast d opened anchor contents stored ∧ ∀ items ∈ contents.head?, Names items anchor := by
  cases hwindow : window (BlockFile.list d) kept with
  | nil =>
    rw [recover, hwindow]
    constructor
    · intro h
      cases h
    · rintro ⟨-, opened, anchor, contents, stored, hopened, ⟨hopens, haccepted, -⟩, -⟩
      obtain rfl := List.prefix_nil.mp hopened
      cases hopens
      cases haccepted
  | cons file rest =>
    rw [recover_eq hwindow, ofExcept_bind_exceeds_iff]
    constructor
    · rintro ⟨items, hitems, h⟩
      obtain ⟨anchor, hanchor, h⟩ := ofExcept_bind_exceeds_iff.mp h
      rcases bind_eq_error_iff.mp h with h | ⟨told, -, h⟩
      · obtain ⟨rfl, opened, contents, stored, hopened, hopens, haccepted, hnumbers⟩ :=
          recordFiles_exceeds_iff.mp h
        refine ⟨rfl, opened, anchor, contents, stored, hopened,
          ⟨hopens, (acceptedToLast_some_iff.mp haccepted).1, hnumbers⟩, ?_⟩
        cases hopens with
        | nil => exact fun items hitems => absurd hitems (Option.not_mem_none items)
        | cons hfirst _ =>
          -- the file that named the anchor is the first one that is recorded
          obtain ⟨rfl, -⟩ := List.cons_prefix_cons.mp hopened
          rw [readItems_eq_ok_iff.mpr hfirst] at hitems
          rintro _ ⟨⟩
          cases hitems
          exact anchorOf_eq_ok_iff.mp hanchor
      · cases h
    · rintro ⟨rfl, opened, anchor, contents, stored, hopened, ⟨hopens, haccepted, hnumbers⟩, hnames⟩
      cases hopens with
      | nil => cases haccepted
      | @cons first items opened contents hfirst hcontents =>
        obtain ⟨rfl, -⟩ := List.cons_prefix_cons.mp hopened
        have hhead : ∀ block ∈ stored.head?, block.number = first.1 := by
          intro block hblock
          obtain ⟨more, rfl⟩ := List.head?_eq_some_iff.mp hblock
          exact (List.cons.inj hnumbers).1
        have hrecorded : recordFiles d kept (.anchored anchor version) first.1 (first :: rest) =
            .error (.exceeded .word) :=
          recordFiles_exceeds_iff.mpr ⟨rfl, _, _, stored, hopened, .cons hfirst hcontents,
            acceptedToLast_some_iff.mpr ⟨haccepted, hhead⟩, hnumbers⟩
        exact ⟨items, readItems_eq_ok_iff.mpr hfirst, ofExcept_bind_exceeds_iff.mpr
          ⟨anchor, anchorOf_eq_ok_iff.mpr (hnames _ rfl), bind_eq_error_iff.mpr (.inl hrecorded)⟩⟩

end Recovery

/-! ### Any bytes -/

/-- **Readers of any bytes stop at an accepted block with the last number, and nowhere else.** The verification of
a chain answers or refuses, whatever the blocks hold, unless it comes to a block with the greatest number that it
accepts behind the blocks before. Recovery answers or refuses, whatever a directory holds, unless the window begins
with files whose blocks it accepts and the last of them has the greatest number. -/
theorem exceeds_iff_last_number [Compression] (blocks : List (List Bytes)) (anchor : BlockHash)
    (d : Directory) (version : SoftwareVersion) (kept : Nat) (limit : Limit) :
    (verifyChain blocks anchor = .error (.exceeded limit) ↔
      limit = .word ∧ ∃ front stored, front <+: blocks ∧ AcceptedToLast anchor none front stored) ∧
    (Recovery.recover d version kept = .error (.exceeded limit) ↔
      limit = .word ∧ ∃ opened named contents stored, opened <+: (BlockFile.list d).rtake (max kept 1) ∧
        Recovery.FiledToLast d opened named contents stored ∧ ∀ items ∈ contents.head?, Names items named) :=
  ⟨verifyChain_exceeds_iff, Recovery.recover_exceeds_iff⟩

/-- The greatest number that a block can have. -/
def lastNumber : UInt64 := 18446744073709551615

/-- A reader of one block with the last number stops, and so does recovery from its file. -/
theorem last_number_stops_readers :
    verifyChain [headerItems lastNumber .zero .zero] .zero = .error (.exceeded .word) ∧
      ∃ framed, frameItems (headerItems lastNumber .zero .zero) = .ok framed ∧
        Recovery.recover ⟨[(BlockFile.name lastNumber false, .file framed)]⟩ ⟨0, 1, 0⟩ 1 =
          .error (.exceeded .word) := by
  obtain ⟨block, hverified, hnumber, -⟩ := verifyBlock_headerItems lastNumber .zero .zero
  have hlast : block.number.toNat + 1 = UInt64.size := by
    rw [hnumber]
    rfl
  have haccepted : AcceptedToLast .zero none [headerItems lastNumber .zero .zero] [block] :=
    .last hverified nofun hlast
  have hframed := frameItems_eq_ok_iff.mpr ⟨@length_lt_of_mem_headerItems lastNumber .zero .zero, rfl⟩
  refine ⟨verifyChain_exceeds_iff.mpr ⟨rfl, _, _, List.prefix_rfl, haccepted⟩, _, hframed, ?_⟩
  generalize (headerItems lastNumber .zero .zero).flatMap frameBytes = framed at hframed
  have hlist : BlockFile.list ⟨[(BlockFile.name lastNumber false, .file framed)]⟩ =
      [(lastNumber, BlockFile.name lastNumber false)] := by
    simp [BlockFile.list, Directory.names]
  have hopens : Recovery.Opens ⟨[(BlockFile.name lastNumber false, .file framed)]⟩
      (lastNumber, BlockFile.name lastNumber false) (headerItems lastNumber .zero .zero) := by
    refine ⟨framed, ?_, splitFrames_eq_ok_iff.mpr hframed⟩
    simp [BlockFile.read, Directory.contentOf, Directory.find?]
  have hnames := names_of_verifyBlock hverified
  refine Recovery.recover_exceeds_iff.mpr ⟨rfl, _, .zero, _, _, ?_, ⟨.cons hopens .nil, haccepted, ?_⟩, ?_⟩
  · rw [hlist]
    exact List.prefix_rfl
  · exact congrArg ([·]) hnumber
  · rintro _ ⟨⟩
    exact hnames

end RoundChain
