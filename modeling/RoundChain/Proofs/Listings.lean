import RoundChain.Proofs.FileNames
import RoundChain.Proofs.FileNumbers

/-!
# What a directory of block files lists

Writers may close blocks in any order and under either setting, and any close may be cut
off. `names_tell_numbers` says that the directory then lists the blocks that were stored,
each once and by ascending number, and that nothing which is left of closes that were cut
off is taken for a block.

## The model

`FileStore.Leaves` are the directories that writers can leave, with the blocks that they
stored. A close goes through its steps or is cut off at any of them, or within the one
that writes; its block is stored once its file has its name. What whole sessions with
their faults leave is among these directories, `Successive.leaves`.

`Directory.Stocks` is the invariant: the files of the stored blocks are there, and
everything else is a file under a temporary name. One close preserves it,
`Directory.Stocks.closing`.
-/

namespace RoundChain

/-! ### Stored blocks -/

/-- A block as it is stored, with its number. -/
structure StoredBlock extends StoredFile where
  number : UInt64

namespace StoredBlock

/-- The name of the block's file. -/
def name (block : StoredBlock) : String := BlockFile.name block.number block.compressed

theorem name_ne_temporaryName (block : StoredBlock) (number : UInt64) (compressed : Bool) :
    block.name ≠ BlockFile.temporaryName number compressed :=
  BlockFile.name_ne_temporaryName _ _ _ _

/-- The block's file as a directory lists it. -/
def file (block : StoredBlock) : UInt64 × String := (block.number, block.name)

end StoredBlock

namespace FileStore

variable [Compression]

/-- What a close has stored when this much is done of its steps: the open block, if its file has its name. -/
def storedBy (s : FileStore) (done : List FileStep) : List StoredBlock :=
  match s.opened with
  | none => []
  | some (number, framed) =>
    if .rename (BlockFile.temporaryName number s.compress) (BlockFile.name number s.compress) ∈ done then
      [⟨⟨s.compress, framed⟩, number⟩]
    else []

/-- The blocks that writers have stored in a directory that was empty at first, and what they leave there. Any
writer may close the block that it has open, and the close may be cut off anywhere. -/
inductive Leaves : List StoredBlock → Directory → Prop where
  | nothing : Leaves [] .empty
  | closing {blocks : List StoredBlock} {s : FileStore} {done : List FileStep} : Leaves blocks s.dir →
      FileStep.Cut done (s.stepsFor .closeBlock) → Leaves (blocks ++ s.storedBy done) (s.dir.steps done).2

end FileStore

/-- The directory has the files of the blocks, each under a name of its own; all other files are being written. -/
structure Directory.Stocks [Compression] (d : Directory) (blocks : List StoredBlock) : Prop where
  distinct : d.Distinct
  flat : d.Flat
  once : (blocks.map StoredBlock.name).Nodup
  stored : ∀ block ∈ blocks, d.find? block.name = some block.entry
  only : ∀ name, d.contains name = true →
    (∃ number compressed, name = BlockFile.temporaryName number compressed) ∨
      ∃ block ∈ blocks, name = block.name

namespace Directory.Stocks

variable [Compression] {d : Directory} {blocks : List StoredBlock} {number : UInt64} {compress : Bool}
  {framed : Bytes}

theorem empty : Directory.empty.Stocks [] where
  distinct := List.nodup_nil
  flat _ := nofun
  once := List.nodup_nil
  stored := nofun
  only _ h := by cases h

/-- What is done before a file has its name leaves the stored blocks. -/
theorem drafted (h : d.Stocks blocks) {done : List FileStep}
    (hcut : FileStep.Cut done (FileStore.draftSteps number compress framed)) : (d.steps done).2.Stocks blocks where
  distinct := h.distinct.steps done
  flat := h.flat.steps done
  once := h.once
  stored block hblock := by
    rw [FileStore.find?_drafted hcut (block.name_ne_temporaryName number compress)]
    exact h.stored block hblock
  only name hname := by
    by_cases htemporary : name = BlockFile.temporaryName number compress
    · exact .inl ⟨number, compress, htemporary⟩
    · rw [Directory.contains, FileStore.find?_drafted hcut htemporary] at hname
      exact h.only name hname

/-- All steps of a close store the block. -/
theorem renamed (h : d.Stocks blocks) (habsent : d.find? (BlockFile.name number compress) = none)
    (framed : Bytes) :
    (d.steps (FileStore.closeSteps number compress framed)).2.Stocks
      (blocks ++ [⟨⟨compress, framed⟩, number⟩]) := by
  rcases FileStore.steps_closeSteps habsent framed with ⟨hfolder, -⟩ | ⟨after, hdone, hfile, hgone, hframe⟩
  · exact absurd hfolder (h.flat _)
  have hdistinct := h.distinct.steps (FileStore.closeSteps number compress framed)
  have hflat := h.flat.steps (FileStore.closeSteps number compress framed)
  rw [hdone] at hdistinct hflat ⊢
  have hnew : ∀ block ∈ blocks, block.name ≠ BlockFile.name number compress := by
    intro block hblock hname
    have hstored := h.stored block hblock
    rw [hname, habsent] at hstored
    cases hstored
  refine ⟨hdistinct, hflat, ?_, ?_, ?_⟩
  · rw [List.map_append, List.nodup_append]
    refine ⟨h.once, List.nodup_singleton _, ?_⟩
    rintro _ hold _ hlast rfl
    obtain ⟨block, hblock, hname⟩ := List.mem_map.mp hold
    exact hnew block hblock (hname.trans (List.mem_singleton.mp hlast))
  · intro block hblock
    rcases List.mem_append.mp hblock with hblock | hblock
    · rw [hframe _ (hnew block hblock) (block.name_ne_temporaryName number compress)]
      exact h.stored block hblock
    · obtain rfl := List.mem_singleton.mp hblock
      exact hfile
  · intro name hname
    by_cases hlast : name = BlockFile.name number compress
    · exact .inr ⟨_, List.mem_append_right _ (List.mem_singleton_self _), hlast⟩
    · have htemporary : name ≠ BlockFile.temporaryName number compress := by
        rintro rfl
        rw [Directory.contains, hgone] at hname
        cases hname
      rw [Directory.contains, hframe name hlast htemporary] at hname
      rcases h.only name hname with htemporary | ⟨block, hblock, hsame⟩
      · exact .inl htemporary
      · exact .inr ⟨block, List.mem_append_left _ hblock, hsame⟩

end Directory.Stocks

/-- Before its file has its name, a block is not stored. -/
theorem FileStore.not_mem_of_drafted [Compression] {number : UInt64} {compress : Bool} {framed : Bytes}
    {done : List FileStep} (hcut : FileStep.Cut done (draftSteps number compress framed)) (name target : String) :
    .rename name target ∉ done := by
  intro hmem
  obtain ⟨whole, hwhole, hnames⟩ := hcut.names _ hmem
  simp only [draftSteps, List.mem_cons, List.not_mem_nil, or_false] at hwhole
  rcases hwhole with rfl | rfl | rfl <;> cases hnames

/-- **A close, cut off anywhere, leaves the stored blocks and stores its own or none.** -/
theorem Directory.Stocks.closing [Compression] {s : FileStore} {blocks : List StoredBlock} (h : s.dir.Stocks blocks)
    {done : List FileStep} (hcut : FileStep.Cut done (s.stepsFor .closeBlock)) :
    (s.dir.steps done).2.Stocks (blocks ++ s.storedBy done) := by
  cases hopened : s.opened with
  | none =>
    simp only [FileStore.stepsFor, hopened] at hcut
    cases hcut
    simp only [FileStore.storedBy, hopened, List.append_nil]
    exact h
  | some buffer =>
    obtain ⟨number, framed⟩ := buffer
    simp only [FileStore.stepsFor, hopened] at hcut
    simp only [FileStore.storedBy, hopened]
    split at hcut
    · cases hcut
      rw [if_neg List.not_mem_nil, List.append_nil]
      exact h
    · rename_i habsent
      have hnew := Directory.find?_of_contains (Bool.eq_false_iff.mpr habsent)
      -- the last step alone gives the file its name
      rw [FileStore.closeSteps_eq] at hcut
      rcases hcut.append_cases with hdraft | ⟨later, rfl, hlater⟩
      · rw [if_neg (FileStore.not_mem_of_drafted hdraft _ _), List.append_nil]
        exact h.drafted hdraft
      · cases hlater with
        | off =>
          have hdraft := FileStep.cut_refl (FileStore.draftSteps number s.compress framed)
          rw [List.append_nil, if_neg (FileStore.not_mem_of_drafted hdraft _ _), List.append_nil]
          exact h.drafted hdraft
        | cons hnil =>
          cases hnil
          rw [if_pos (List.mem_append_right _ (List.mem_singleton_self _)), ← FileStore.closeSteps_eq]
          exact h.renamed hnew framed

theorem FileStore.Leaves.stocks [Compression] {blocks : List StoredBlock} {d : Directory}
    (h : Leaves blocks d) : d.Stocks blocks := by
  induction h with
  | nothing => exact .empty
  | closing _ hcut ih => exact ih.closing hcut

/-! ### What is listed -/

/-- The directory lists the blocks that were stored in it. -/
structure Directory.Lists [Compression] (d : Directory) (blocks : List StoredBlock) : Prop where
  /-- The files listed are those of the blocks. -/
  files : (BlockFile.list d).Perm (blocks.map StoredBlock.file)
  /-- No file is listed twice. -/
  nodup : (BlockFile.list d).Nodup
  sorted : (BlockFile.list d).Pairwise fun a b => a.1 ≤ b.1
  /-- No number is listed twice unless a block was stored under both settings. -/
  strict : (BlockFile.list d).Pairwise (fun a b => a.1 < b.1) ↔
    ∀ block ∈ blocks, ∀ other ∈ blocks, block.number = other.number → block.compressed = other.compressed
  /-- Every block is read as it was written. -/
  read : ∀ block ∈ blocks, BlockFile.read d block.name = .ok block.framed
  /-- Whatever else is in the directory is left of writing a block. -/
  ignored : ∀ name ∈ d.names, name ∉ (BlockFile.list d).map Prod.snd →
    ∃ number compressed, name = BlockFile.temporaryName number compressed

namespace Directory.Stocks

variable [Compression] {d : Directory} {blocks : List StoredBlock}

theorem mem_list_iff (h : d.Stocks blocks) (file : UInt64 × String) :
    file ∈ BlockFile.list d ↔ file ∈ blocks.map StoredBlock.file := by
  obtain ⟨number, name⟩ := file
  rw [BlockFile.mem_list_iff, List.mem_map]
  constructor
  · rintro ⟨⟨entry, hentry⟩, hnumber⟩
    have hname : d.contains name = true := by rw [Directory.contains, hentry]; rfl
    rcases h.only name hname with ⟨other, compressed, rfl⟩ | ⟨block, hblock, rfl⟩
    · rw [BlockFile.number?_temporaryName] at hnumber
      cases hnumber
    · rw [StoredBlock.name, BlockFile.number?_name] at hnumber
      exact ⟨block, hblock, Prod.ext (Option.some.inj hnumber) rfl⟩
  · rintro ⟨block, hblock, hfile⟩
    cases hfile
    exact ⟨⟨_, h.stored block hblock⟩, BlockFile.number?_name _ _⟩

theorem perm_list (h : d.Stocks blocks) : (BlockFile.list d).Perm (blocks.map StoredBlock.file) := by
  have hnames : ((blocks.map StoredBlock.file).map Prod.snd).Nodup := by
    rw [List.map_map]
    exact h.once
  exact (List.perm_ext_iff_of_nodup (BlockFile.nodup_list h.distinct) (.of_map _ hnames)).mpr h.mem_list_iff

/-- No number is listed twice just if no block was stored under both settings. -/
theorem strict_iff (h : d.Stocks blocks) :
    (BlockFile.list d).Pairwise (fun a b => a.1 < b.1) ↔
      ∀ block ∈ blocks, ∀ other ∈ blocks, block.number = other.number → block.compressed = other.compressed := by
  rw [BlockFile.pairwise_lt_iff h.distinct]
  simp only [h.mem_list_iff, List.forall_mem_map]
  constructor
  · intro hsame block hblock other hother hnumber
    exact (BlockFile.name_eq_iff.mp (congrArg Prod.snd (hsame block hblock other hother hnumber))).2
  · intro hsettings block hblock other hother hnumber
    exact Prod.ext hnumber (BlockFile.name_eq_iff.mpr ⟨hnumber, hsettings block hblock other hother hnumber⟩)

theorem lists (h : d.Stocks blocks) : d.Lists blocks where
  files := h.perm_list
  nodup := BlockFile.nodup_list h.distinct
  sorted := BlockFile.pairwise_list d
  strict := h.strict_iff
  read block hblock := BlockFile.read_fileContent (h.stored block hblock)
  ignored name hname hunlisted := by
    obtain ⟨entry, hentry⟩ := Directory.mem_names_iff.mp hname
    have hcontains : d.contains name = true := by rw [Directory.contains, hentry]; rfl
    rcases h.only name hcontains with htemporary | ⟨block, hblock, rfl⟩
    · exact htemporary
    · have hlisted := (h.mem_list_iff _).mpr (List.mem_map_of_mem hblock)
      exact absurd (List.mem_map_of_mem hlisted) hunlisted

end Directory.Stocks

/-! ### Sessions with their faults -/

theorem FileStep.Cut.append_right {done a : List FileStep} (h : Cut done a) (b : List FileStep) :
    Cut done (a ++ b) := by
  induction h with
  | off => exact .off
  | torn hpart => exact .torn hpart
  | cons _ ih => exact .cons ih

namespace FileStore

variable [Compression]

theorem Leaves.closed {s : FileStore} {blocks : List StoredBlock} (h : Leaves blocks s.dir) :
    Leaves (blocks ++ s.storedBy (s.stepsFor .closeBlock)) (s.perform .closeBlock).2.dir :=
  s.dir_perform .closeBlock ▸ h.closing (FileStep.cut_refl _)

/-- However a writer answers, it leaves what a close can leave. -/
theorem Answers.leaves {s t : FileStore} {call : WriteCall} {answer : Except WriteError Unit}
    (h : Answers s call answer t) {blocks : List StoredBlock} (hleaves : Leaves blocks s.dir) :
    ∃ blocks, Leaves blocks t.dir := by
  cases h with
  | performed h =>
    by_cases hcall : call = .closeBlock
    · subst hcall
      have hclosed := hleaves.closed
      rw [h] at hclosed
      exact ⟨_, hclosed⟩
    · rw [perform_eq_fill s hcall] at h
      cases h
      exact ⟨blocks, hleaves⟩
  | unread => exact ⟨blocks, hleaves⟩
  | @unwritten number framed done cause hopened habsent hcut =>
    have hsteps : s.stepsFor .closeBlock = closeSteps number s.compress framed := by
      simp only [stepsFor, hopened, habsent, Bool.false_eq_true, if_false]
    have hpart : FileStep.Cut done (s.stepsFor .closeBlock) := by
      rw [hsteps, closeSteps_eq]
      exact hcut.append_right _
    exact ⟨_, hleaves.closing hpart⟩

theorem Leaves.of_answered {s t : FileStore} {log : WriteLog} {blocks : List StoredBlock}
    (hleaves : Leaves blocks s.dir) (h : Answered Answers s log t) : ∃ blocks, Leaves blocks t.dir := by
  induction h with
  | nil => exact ⟨blocks, hleaves⟩
  | concat _ hanswer ih =>
    obtain ⟨stored, hstored⟩ := ih
    exact hanswer.leaves hstored

end FileStore

/-- **What sessions leave, writers can leave**; the blocks that they stored are those whose close succeeded. -/
theorem Successive.leaves [Compression] {sessions : List FileSession} {d : Directory}
    (h : Successive sessions d) : ∃ blocks, FileStore.Leaves blocks d ∧ ∀ number compressed,
      (∃ block ∈ blocks, block.number = number ∧ block.compressed = compressed) ↔
        number ∈ closedUnder compressed sessions := by
  obtain ⟨blocks, hblocks⟩ : ∃ blocks, FileStore.Leaves blocks d := by
    induction h with
    | none => exact ⟨[], .nothing⟩
    | next _ hlog ih =>
      obtain ⟨blocks, hblocks⟩ := ih
      exact FileStore.Leaves.of_answered hblocks hlog
  refine ⟨blocks, hblocks, fun number compressed => ?_⟩
  -- both say that the file of this name is listed
  have hlisted := hblocks.stocks.mem_list_iff (number, BlockFile.name number compressed)
  have hclosed := h.archives.listed number (BlockFile.name number compressed)
  constructor
  · rintro ⟨block, hblock, rfl, rfl⟩
    obtain ⟨setting, hname, hmem⟩ := hclosed.mp (hlisted.mpr (List.mem_map_of_mem hblock))
    obtain ⟨-, rfl⟩ := BlockFile.name_eq_iff.mp hname
    exact hmem
  · intro hmem
    obtain ⟨block, hblock, hfile⟩ := List.mem_map.mp (hlisted.mp (hclosed.mpr ⟨compressed, rfl, hmem⟩))
    obtain ⟨hnumber, hsetting⟩ := BlockFile.name_eq_iff.mp (congrArg Prod.snd hfile)
    exact ⟨block, hblock, hnumber, hsetting⟩

/-! ### Names, numbers and listings -/

/-- **Names tell numbers.** For every directory, every number and both settings, the file name of a block's path is
read as the block's number. The name a block is written under first is its file name with another extension, is
read as no number and is no block's file name. Different blocks, and one block under different settings, have
different names; under one setting the names are ordered as the numbers are. So whatever writers leave, closing
blocks and being cut off in it, the directory lists just the blocks that were stored, by ascending number; and of
sessions that came to their end, with their faults, these are the blocks whose close succeeded. -/
theorem names_tell_numbers [Compression] :
    (∀ dir number compressed,
      fileName? (BlockFile.path dir number compressed) = some (BlockFile.name number compressed) ∧
        BlockFile.number? (BlockFile.name number compressed) = some number) ∧
    (∀ number compressed,
      BlockFile.temporaryName number compressed = withExtension (BlockFile.name number compressed) "tmp" ∧
        BlockFile.number? (BlockFile.temporaryName number compressed) = none ∧
        ∀ other compressed', BlockFile.temporaryName number compressed ≠ BlockFile.name other compressed') ∧
    (Function.Injective fun file : UInt64 × Bool => BlockFile.name file.1 file.2) ∧
    (∀ number other compressed,
      BlockFile.name number compressed < BlockFile.name other compressed ↔ number < other) ∧
    (∀ blocks d, FileStore.Leaves blocks d → d.Lists blocks) ∧
    ∀ sessions d, Successive sessions d → ∃ blocks, FileStore.Leaves blocks d ∧ ∀ number compressed,
      (∃ block ∈ blocks, block.number = number ∧ block.compressed = compressed) ↔
        number ∈ closedUnder compressed sessions :=
  ⟨fun dir number compressed =>
      ⟨BlockFile.fileName?_path dir number compressed, BlockFile.number?_name number compressed⟩,
    fun number compressed =>
      ⟨BlockFile.temporaryName_eq number compressed, BlockFile.number?_temporaryName number compressed,
        fun other compressed' => (BlockFile.name_ne_temporaryName other number compressed' compressed).symm⟩,
    BlockFile.name_injective, BlockFile.name_lt_iff, fun _ _ h => h.stocks.lists, fun _ _ h => h.leaves⟩

/-- Writers as they close a block: block 10 and then block 9 in plain files, and block 11 in a compressed one. -/
def tenOpen : FileStore := ⟨.empty, false, some (10, [1])⟩

def nineOpen [Compression] : FileStore := ⟨(tenOpen.perform .closeBlock).2.dir, false, some (9, [2])⟩

def elevenOpen [Compression] : FileStore := ⟨(nineOpen.perform .closeBlock).2.dir, true, some (11, [3])⟩

/-- What the last of them has done when it is cut off as it writes. -/
def elevenBegun : List FileStep :=
  [.create "00000000000000000011.blk.tmp", .write "00000000000000000011.blk.tmp" []]

/-- The two blocks are listed by their numbers, and the file that was begun is not listed. A session that stored
block 0 stored it alone. -/
theorem names_tell_numbers_cut_off :
    let blocks : List StoredBlock := [⟨⟨false, [1]⟩, 10⟩, ⟨⟨false, [2]⟩, 9⟩]
    let d := (elevenOpen.dir.steps elevenBegun).2
    (FileStore.Leaves blocks d ∧ d.Lists blocks ∧ d.contains "00000000000000000011.blk.tmp" = true ∧
      BlockFile.list d = [(9, "00000000000000000009.blk"), (10, "00000000000000000010.blk")]) ∧
    ∃ stored, FileStore.Leaves stored plainDirectory ∧
      (∃ block ∈ stored, block.number = 0 ∧ block.compressed = false) ∧
      ¬ ∃ block ∈ stored, block.number = 0 ∧ block.compressed = true := by
  intro blocks d
  obtain ⟨-, -, -, -, hlists, hsessions⟩ := names_tell_numbers
  have hten : FileStore.Leaves [⟨⟨false, [1]⟩, 10⟩] nineOpen.dir := FileStore.Leaves.closed (s := tenOpen) .nothing
  have hnine : FileStore.Leaves blocks elevenOpen.dir := FileStore.Leaves.closed (s := nineOpen) hten
  have hcut : FileStep.Cut elevenBegun (elevenOpen.stepsFor .closeBlock) := .cons (.torn List.nil_prefix)
  have hleaves : FileStore.Leaves blocks d := hnine.closing hcut
  have hfiles : (BlockFile.list d).Perm [(9, BlockFile.name 9 false), (10, BlockFile.name 10 false)] :=
    (hlists blocks d hleaves).files.trans (.swap _ _ _)
  have hsorted := BlockFile.list_eq_of_mem_iff hleaves.stocks.distinct (by decide) fun _ => hfiles.mem_iff
  obtain ⟨stored, hstored, hclosed⟩ := hsessions _ plainDirectory successive_plainDirectory
  exact ⟨⟨hleaves, hlists blocks d hleaves, rfl, hsorted⟩, stored, hstored, (hclosed 0 false).mpr (by decide),
    fun h => absurd ((hclosed 0 true).mp h) (by decide)⟩

end RoundChain
