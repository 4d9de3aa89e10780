import RoundChain.Libraries
import RoundChain.Proofs.AppendOnce
import Mathlib.Data.List.Chain

/-!
# Blocks in memory and blocks in files

The two stores answer alike and store alike, with one exception. A close that finds other content
stored leaves the block open in files and not in memory. So the next call is answered differently,
unless it opens the same block afresh; from there on the stores are alike again. `interchange_iff`
says that nothing else tells them apart: the answers are the same if and only if every conflict is
followed by opening its block, and as long as they are, both stores hold the same blocks.

## The model

`Writer.logOf` is what a store answers to calls. `Paired` relates a store in memory to one of plain
files that holds the same blocks; `parted` is the block, if any, that was left open in files only.
-/

namespace RoundChain

variable {ω : Type}

/-- The calls with the store's answers. -/
def Writer.logOf (writer : Writer ω) : ω → List WriteCall → WriteLog
  | _, [] => []
  | s, call :: rest => (call, (writer.perform s call).1) :: writer.logOf (writer.perform s call).2 rest

/-- The store behind the calls. -/
def Writer.stateAfter (writer : Writer ω) (s : ω) (calls : List WriteCall) : ω :=
  calls.foldl (fun s call => (writer.perform s call).2) s

/-- The blocks in memory, by ascending number, with their content. -/
def MemoryStore.shelf (s : MemoryStore) : List (UInt64 × Except WriteError Bytes) :=
  s.closed.entries.map fun block => (block.1, .ok block.2)

/-- The blocks in files, by ascending number, with their content as it is read. -/
def FileStore.shelf [Compression] (s : FileStore) : List (UInt64 × Except WriteError Bytes) :=
  (BlockFile.list s.dir).map fun file => (file.1, BlockFile.read s.dir file.2)

/-! ### Directories of plain files -/

/-- A directory has a file for each block of a map, with its content, and nothing else. -/
structure Directory.Mirrors (d : Directory) (blocks : WordMap Bytes) : Prop where
  distinct : d.Distinct
  entries : ∀ name entry, d.find? name = some entry ↔
    ∃ number framed, name = BlockFile.name number false ∧ entry = .file framed ∧ blocks.find? number = some framed

namespace Directory.Mirrors

variable {d : Directory} {blocks : WordMap Bytes}

theorem empty : Directory.empty.Mirrors .empty where
  distinct := List.nodup_nil
  entries name entry := by
    constructor
    · nofun
    · rintro ⟨_, _, -, -, h⟩
      cases h

theorem find?_name (h : d.Mirrors blocks) (number : UInt64) :
    d.find? (BlockFile.name number false) = (blocks.find? number).map .file := by
  cases hfind : blocks.find? number with
  | some framed => exact (h.entries _ _).mpr ⟨number, framed, rfl, rfl, hfind⟩
  | none =>
    rw [Option.map_none, Option.eq_none_iff_forall_ne_some]
    intro entry hentry
    obtain ⟨other, framed, hname, -, hstored⟩ := (h.entries _ _).mp hentry
    rw [← BlockFile.name_inj hname, hfind] at hstored
    cases hstored

theorem find?_temporaryName (h : d.Mirrors blocks) (number : UInt64) (compressed : Bool) :
    d.find? (BlockFile.temporaryName number compressed) = none := by
  rw [Option.eq_none_iff_forall_ne_some]
  intro entry hentry
  obtain ⟨other, framed, hname, -⟩ := (h.entries _ _).mp hentry
  exact BlockFile.name_ne_temporaryName _ _ _ _ hname.symm

/-- A block is read from its file. -/
theorem read_eq [Compression] (h : d.Mirrors blocks) {number : UInt64} {framed : Bytes}
    (hstored : blocks.find? number = some framed) : BlockFile.read d (BlockFile.name number false) = .ok framed := by
  refine BlockFile.read_fileContent ?_
  rw [h.find?_name, hstored]
  rfl

/-- The files are listed as the blocks are. -/
theorem list_eq (h : d.Mirrors blocks) :
    BlockFile.list d = blocks.entries.map fun block => (block.1, BlockFile.name block.1 false) := by
  refine BlockFile.list_eq_of_mem_iff h.distinct (List.pairwise_map.mpr blocks.sorted) ?_
  rintro ⟨number, name⟩
  rw [BlockFile.mem_list_iff, List.mem_map]
  constructor
  · rintro ⟨⟨entry, hentry⟩, hnumber⟩
    obtain ⟨other, framed, rfl, -, hstored⟩ := (h.entries _ _).mp hentry
    rw [BlockFile.number?_name] at hnumber
    cases hnumber
    exact ⟨(number, framed), WordMap.find?_eq_some_iff.mp hstored, rfl⟩
  · rintro ⟨⟨other, framed⟩, hblock, ⟨⟩⟩
    have hstored := WordMap.find?_eq_some_iff.mpr hblock
    exact ⟨⟨_, (h.entries _ _).mpr ⟨other, framed, rfl, rfl, hstored⟩⟩, BlockFile.number?_name _ _⟩

/-- One more block and its file. -/
theorem insert (h : d.Mirrors blocks) {after : Directory} (hdistinct : after.Distinct) {number : UInt64}
    {framed : Bytes} (hfile : after.find? (BlockFile.name number false) = some (.file framed))
    (hother : ∀ name, name ≠ BlockFile.name number false → after.find? name = d.find? name) :
    after.Mirrors (blocks.insert number framed) where
  distinct := hdistinct
  entries name entry := by
    by_cases hname : name = BlockFile.name number false
    · rw [hname, hfile]
      constructor
      · rintro ⟨⟩
        exact ⟨number, framed, rfl, rfl, by rw [WordMap.find?_insert, if_pos rfl]⟩
      · rintro ⟨other, content, hsame, rfl, hstored⟩
        rw [← BlockFile.name_inj hsame, WordMap.find?_insert, if_pos rfl] at hstored
        cases hstored
        rfl
    · rw [hother name hname, h.entries]
      refine exists_congr fun other => exists_congr fun content => and_congr_right fun hsame => ?_
      have hne : other ≠ number := by
        rintro rfl
        exact hname hsame
      rw [WordMap.find?_insert, if_neg hne]

end Directory.Mirrors

/-! ### Stores that hold the same -/

/-- The block that a close found stored with other content. -/
def conflicting : Except WriteError Unit → Option UInt64
  | .error (.conflict number) => some number
  | _ => none

theorem conflicting_fill (buffer : OpenBuffer) (call : WriteCall) :
    conflicting ((buffer.fill call).map fun _ => ()) = none := by
  cases call with
  | openBlock number =>
    simp only [OpenBuffer.fill, OpenBuffer.start]
    split
    · split <;> rfl
    · rfl
  | item bytes =>
    simp only [OpenBuffer.fill, OpenBuffer.addItem]
    split
    · rfl
    · split
      · rw [OpenBuffer.add]
        rfl
      · rfl
  | items framed => cases buffer <;> rfl
  | closeBlock => rfl

/-- The stores have the same block open; or, if they parted over one, it is open in files only, and cannot be closed
there. -/
def OpenAlike (m : MemoryStore) (f : FileStore) : Option UInt64 → Prop
  | none => m.opened = f.opened
  | some number => m.opened = none ∧ ∃ framed stored, f.opened = some (number, framed) ∧
      m.closed.find? number = some stored ∧ stored ≠ framed

/-- A store in memory whose closes do not fail, and one of plain files that holds the same blocks. -/
structure Paired (parted : Option UInt64) (m : MemoryStore) (f : FileStore) : Prop where
  willing : m.failing = false ∧ m.failingCloses = 0
  plain : f.compress = false
  mirrors : f.dir.Mirrors m.closed
  opened : OpenAlike m f parted

theorem paired_new : Paired none .new (.new .empty false) := ⟨⟨rfl, rfl⟩, rfl, .empty, rfl⟩

section

variable [Compression] {parted : Option UInt64} {m : MemoryStore} {f : FileStore}

theorem Paired.shelf_eq (h : Paired parted m f) : m.shelf = f.shelf := by
  rw [MemoryStore.shelf, FileStore.shelf, h.mirrors.list_eq, List.map_map]
  refine List.map_congr_left ?_
  rintro ⟨number, framed⟩ hblock
  have hread := h.mirrors.read_eq (WordMap.find?_eq_some_iff.mpr hblock)
  exact congrArg (Prod.mk number) hread.symm

/-- A close of stores that hold the same and have the same open. -/
theorem Paired.close (h : Paired none m f) :
    m.close.1 = f.close.1 ∧ Paired (conflicting m.close.1) m.close.2 f.close.2 := by
  obtain ⟨dir, compress, opened⟩ := f
  obtain ⟨⟨hfailing, hcloses⟩, hplain, hmirrors, hopen⟩ := h
  obtain rfl : compress = false := hplain
  obtain rfl : m.opened = opened := hopen
  have hclosed := m.closed_close
  generalize m.close = r at hclosed
  cases hclosed with
  | idle hnone =>
    have hf : (FileStore.mk dir false m.opened).close = (.error .noOpenBlock, ⟨dir, false, m.opened⟩) := by
      simp only [FileStore.close, hnone]
    rw [hf]
    exact ⟨rfl, ⟨hfailing, hcloses⟩, rfl, hmirrors, rfl⟩
  | failed _ hfails =>
    rcases hfails with hfails | hfails
    · rw [hfailing] at hfails
      cases hfails
    · rw [hcloses] at hfails
      cases hfails
  | @stored number framed _ hopened hnew =>
    have habsent : dir.find? (BlockFile.name number false) = none := by
      rw [hmirrors.find?_name, hnew]
      rfl
    -- only a folder in place of the file to write could refuse the block, and there is none
    have hdraft := hmirrors.find?_temporaryName number false
    rcases FileStore.steps_closeSteps habsent framed with ⟨hfolder, -⟩ | ⟨after, hsteps, hfile, hdone, hframe⟩
    · cases hdraft.symm.trans hfolder
    · rw [FileStore.close_of_steps (s := ⟨dir, false, m.opened⟩) hopened habsent hsteps]
      have hdistinct := hmirrors.distinct.steps (FileStore.closeSteps number false framed)
      rw [hsteps] at hdistinct
      refine ⟨rfl, ⟨hfailing, hcloses⟩, rfl, hmirrors.insert hdistinct hfile fun name hname => ?_, rfl⟩
      by_cases htemporary : name = BlockFile.temporaryName number false
      · rw [htemporary, hdone, hdraft]
      · exact hframe name hname htemporary
  | repeated hopened hstored =>
    rw [FileStore.close_of_read (s := ⟨dir, false, m.opened⟩) hopened (hmirrors.read_eq hstored), if_pos rfl]
    exact ⟨rfl, ⟨hfailing, hcloses⟩, rfl, hmirrors, rfl⟩
  | conflict hopened hstored hother =>
    -- here the stores part: the block stays open in files
    rw [FileStore.close_of_read (s := ⟨dir, false, m.opened⟩) hopened (hmirrors.read_eq hstored), if_neg hother]
    exact ⟨rfl, ⟨hfailing, hcloses⟩, rfl, hmirrors, rfl, _, _, hopened, hstored, hother⟩

/-- **One call to stores that hold the same and have the same open** is answered alike. They hold the same
again, and they have parted exactly if the call was a conflict. -/
theorem Paired.perform (h : Paired none m f) (call : WriteCall) :
    (m.perform call).1 = (f.perform call).1 ∧
      Paired (conflicting (m.perform call).1) (m.perform call).2 (f.perform call).2 := by
  have hopen : m.opened = f.opened := h.opened
  by_cases hclose : call = .closeBlock
  · subst hclose
    exact h.close
  · obtain ⟨log, openings, hm⟩ := MemoryStore.perform_eq_fill m hclose
    rw [hm, FileStore.perform_eq_fill f hclose, hopen, conflicting_fill]
    exact ⟨rfl, h.willing, h.plain, h.mirrors, rfl⟩

/-- Stores that have parted answer alike only if the block is opened afresh. -/
theorem Paired.reopen {number : UInt64} (h : Paired (some number) m f) (call : WriteCall) :
    ((m.perform call).1 = (f.perform call).1 ↔ call = .openBlock number) ∧
      (call = .openBlock number → Paired (conflicting (m.perform call).1) (m.perform call).2 (f.perform call).2) := by
  obtain ⟨hm, framed, stored, hf, hstored, hother⟩ := h.opened
  cases call with
  | openBlock other =>
    simp only [MemoryStore.perform, MemoryStore.note, FileStore.perform, OpenBuffer.start, hm, hf]
    by_cases hnumber : number = other
    · subst hnumber
      simp only [if_true]
      exact ⟨by simp, fun _ => ⟨h.willing, h.plain, h.mirrors, rfl⟩⟩
    · have hne : WriteCall.openBlock other ≠ .openBlock number := fun heq => hnumber (WriteCall.openBlock.inj heq).symm
      simp only [if_neg hnumber]
      refine ⟨⟨fun heq => ?_, fun heq => absurd heq hne⟩, fun heq => absurd heq hne⟩
      cases heq
  | item bytes =>
    have hne : WriteCall.item bytes ≠ .openBlock number := by simp
    refine ⟨⟨fun heq => ?_, fun heq => absurd heq hne⟩, fun heq => absurd heq hne⟩
    simp only [MemoryStore.perform, MemoryStore.note, FileStore.perform, OpenBuffer.addItem, OpenBuffer.add, hm,
      hf] at heq
    cases hframe : frame bytes <;> simp [hframe] at heq
  | items buffer =>
    have hne : WriteCall.items buffer ≠ .openBlock number := by simp
    refine ⟨⟨fun heq => ?_, fun heq => absurd heq hne⟩, fun heq => absurd heq hne⟩
    simp [MemoryStore.perform, MemoryStore.note, FileStore.perform, OpenBuffer.add, hm, hf] at heq
  | closeBlock =>
    have hne : WriteCall.closeBlock ≠ .openBlock number := by simp
    refine ⟨⟨fun heq => ?_, fun heq => absurd heq hne⟩, fun heq => absurd heq hne⟩
    have hread : BlockFile.read f.dir (BlockFile.name number f.compress) = .ok stored := by
      rw [h.plain]
      exact h.mirrors.read_eq hstored
    simp only [MemoryStore.perform, FileStore.perform, FileStore.close_of_read hf hread, if_neg hother,
      MemoryStore.close, hm] at heq
    cases heq

/-- **One call to stores that hold the same**: it is answered alike unless they have parted and it is anything but
opening the block afresh. -/
theorem Paired.step (h : Paired parted m f) (call : WriteCall) :
    ((m.perform call).1 = (f.perform call).1 ↔ ∀ number ∈ parted, call = .openBlock number) ∧
      ((∀ number ∈ parted, call = .openBlock number) →
        Paired (conflicting (m.perform call).1) (m.perform call).2 (f.perform call).2) := by
  cases parted with
  | none => exact ⟨⟨fun _ => nofun, fun _ => (h.perform call).1⟩, fun _ => (h.perform call).2⟩
  | some number =>
    have hreopen : (∀ other ∈ some number, call = .openBlock other) ↔ call = .openBlock number := by simp
    rw [hreopen]
    exact h.reopen call

end

/-! ### Logs -/

/-- Behind a conflict, the next call opens its block afresh. -/
def Resumes (entry next : WriteCall × Except WriteError Unit) : Prop :=
  ∀ number ∈ conflicting entry.2, next.1 = .openBlock number

theorem head?_logOf (writer : Writer ω) (s : ω) (calls : List WriteCall) :
    (writer.logOf s calls).head?.map Prod.fst = calls.head? := by
  cases calls <;> rfl

/-- **Stores that hold the same, call after call.** Their logs are the same if and only if every conflict is resumed,
also one over which they have parted before. As long as their answers are the same, they hold the same. -/
theorem Paired.logOf [Compression] {parted : Option UInt64} {m : MemoryStore} {f : FileStore} (h : Paired parted m f)
    (calls : List WriteCall) :
    (MemoryStore.writer.logOf m calls = FileStore.writer.logOf f calls ↔
      (∀ number ∈ parted, ∀ call ∈ calls.head?, call = .openBlock number) ∧
        (MemoryStore.writer.logOf m calls).IsChain Resumes) ∧
      ∀ k, (MemoryStore.writer.logOf m calls).take k = (FileStore.writer.logOf f calls).take k →
        (MemoryStore.writer.stateAfter m (calls.take k)).shelf =
          (FileStore.writer.stateAfter f (calls.take k)).shelf := by
  induction calls generalizing parted m f with
  | nil =>
    refine ⟨⟨fun _ => ⟨fun _ _ => nofun, .nil⟩, fun _ => rfl⟩, fun k _ => ?_⟩
    rw [List.take_nil]
    exact h.shelf_eq
  | cons call rest ih =>
    obtain ⟨hanswer, hpaired⟩ := h.step call
    have hm : MemoryStore.writer.perform m call = m.perform call := rfl
    have hf : FileStore.writer.perform f call = f.perform call := rfl
    constructor
    · rw [Writer.logOf, Writer.logOf, List.cons.injEq, Prod.mk.injEq, List.isChain_cons]
      have hfirst : (∀ number ∈ parted, ∀ other ∈ (call :: rest).head?, other = .openBlock number) ↔
          ∀ number ∈ parted, call = .openBlock number := by simp
      rw [hfirst, and_iff_right rfl, hm, hf, hanswer]
      refine and_congr_right fun hagree => ?_
      rw [(ih (hpaired hagree)).1, ← head?_logOf MemoryStore.writer (m.perform call).2 rest]
      refine and_congr_left fun _ => ?_
      cases (MemoryStore.writer.logOf (m.perform call).2 rest).head? with
      | none => simp
      | some next => simp [Resumes]
    · intro k hk
      cases k with
      | zero => exact h.shelf_eq
      | succ k =>
        rw [Writer.logOf, Writer.logOf, List.take_succ_cons, List.take_succ_cons, List.cons.injEq, Prod.mk.injEq] at hk
        exact (ih (hpaired (hanswer.mp hk.1.2))).2 k hk.2

/-- **A store in memory and one of plain files can be exchanged as long as every conflict is resumed.** Started
without blocks, they answer the same calls with the same if and only if behind each conflict, the next call opens
its block afresh. Up to the first answer in which they differ, they hold the same blocks with the same content. -/
theorem interchange_iff [Compression] (calls : List WriteCall) :
    let inMemory := MemoryStore.writer.logOf .new calls
    let inFiles := FileStore.writer.logOf (.new .empty false) calls
    (inMemory = inFiles ↔ inMemory.IsChain Resumes) ∧
      ∀ k, inMemory.take k = inFiles.take k →
        (MemoryStore.writer.stateAfter .new (calls.take k)).shelf =
          (FileStore.writer.stateAfter (.new .empty false) (calls.take k)).shelf := by
  intro inMemory inFiles
  obtain ⟨hanswers, hcontents⟩ := paired_new.logOf calls
  have hstart : ∀ number ∈ (none : Option UInt64), ∀ call ∈ calls.head?, call = .openBlock number := nofun
  rw [and_iff_right hstart] at hanswers
  exact ⟨hanswers, hcontents⟩

/-- A block is written, written again with other content, and then with its own. -/
def rewriting : List WriteCall :=
  [.openBlock 3, .items [1], .closeBlock, .openBlock 3, .items [2], .closeBlock, .openBlock 3, .items [1], .closeBlock]

theorem interchange_iff_rewriting :
    MemoryStore.writer.logOf .new rewriting = FileStore.writer.logOf (.new .empty false) rewriting ∧
      (FileStore.writer.stateAfter (.new .empty false) rewriting).shelf = [(3, .ok [1])] := by
  have hlog : MemoryStore.writer.logOf .new rewriting =
      [(.openBlock 3, .ok ()), (.items [1], .ok ()), (.closeBlock, .ok ()), (.openBlock 3, .ok ()),
        (.items [2], .ok ()), (.closeBlock, .error (.conflict 3)), (.openBlock 3, .ok ()), (.items [1], .ok ()),
        (.closeBlock, .ok ())] := rfl
  have hresumed : (MemoryStore.writer.logOf .new rewriting).IsChain Resumes := by
    rw [hlog]
    simp [Resumes, conflicting]
  obtain ⟨hanswers, hcontents⟩ := interchange_iff rewriting
  have hsame := hanswers.mpr hresumed
  have hshelf := hcontents 9 (by rw [hsame])
  exact ⟨hsame, hshelf.symm⟩

/-- Behind a conflict that is not resumed, only the store of files takes items. -/
theorem conflict_parts :
    (MemoryStore.writer.logOf .new
        [.openBlock 3, .items [1], .closeBlock, .openBlock 3, .items [2], .closeBlock, .items [3]]).getLast? =
      some (.items [3], .error .noOpenBlock) ∧
    (FileStore.writer.logOf (.new .empty false)
        [.openBlock 3, .items [1], .closeBlock, .openBlock 3, .items [2], .closeBlock, .items [3]]).getLast? =
      some (.items [3], .ok ()) :=
  ⟨rfl, rfl⟩

end RoundChain
