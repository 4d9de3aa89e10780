import RoundChain.Libraries
import RoundChain.Proofs.AppendOnce

/-!
# Files that are not seen

Before a block's file is written, the file system is asked whether it is there, and if it cannot tell,
the block passes for a new one. So a close whose question fails renames a file over the one that is
stored, and succeeds: this is the one fault under which blocks in files do not append once,
`FileStore.unseen_replaces`. Also then a block is only ever replaced as a whole, by what the open block
received, no other block is concerned, and no block disappears. `append_once_unless_unseen` says all
that holds of both stores.

## The model

`FileStore.ClosesUnseen` is a close that finds a file and does not see it; its steps may fail as those
of any close may. `FileStore.FaultyAnswers` are the answers with this fault besides those of
`RoundChain.Proofs.AppendOnce`. `FileStore.Replaces` is what such a close has to come with for the
content to change: it succeeds, and brings another content than what is stored.
-/

namespace RoundChain

/-! ### Stores that may replace -/

/-- What is stored stays, but where an answer replaces it. -/
structure AppendsOnceUnless {ω : Type} (replaces : UInt64 → Answering ω) (answers : Answering ω)
    (opened : ω → OpenBuffer) (content : ω → UInt64 → Option Bytes) : Prop
    extends StoresReceived answers opened content where
  /-- An answer changes the content of a block exactly if it replaces it. -/
  kept_iff : ∀ {s t : ω} {call : WriteCall} {answer : Except WriteError Unit}, answers s call answer t →
    ∀ {number stored}, content s number = some stored →
      (content t number = some stored ↔ ¬ replaces number s call answer t)
  /-- What is never replaced never changes. -/
  kept : ∀ {s t : ω} {log : WriteLog} {number : UInt64},
    Answered (fun s call answer t => answers s call answer t ∧ ¬ replaces number s call answer t) s log t →
      ∀ {stored}, content s number = some stored → content t number = some stored
  /-- The content of a block never disappears. -/
  remains : ∀ {s t : ω} {log : WriteLog}, Answered answers s log t →
    ∀ {number}, (content s number).isSome → (content t number).isSome

namespace FileStore

variable [Compression]

/-! ### Closes that see no file -/

/-- Closes the open block, whose file is there, as if it were not: it is written, or it cannot be, whatever was done of
it before it would have had its name. -/
inductive ClosesUnseen (s : FileStore) : Except WriteError Unit → FileStore → Prop where
  | written {number : UInt64} {framed : Bytes} {answer : Except WriteError Unit} {t : FileStore} :
      s.opened = some (number, framed) → s.dir.contains (BlockFile.name number s.compress) = true →
      s.writeFile number framed = (answer, t) → ClosesUnseen s answer t
  | unwritten {number : UInt64} {framed : Bytes} {done : List FileStep} (cause : String) :
      s.opened = some (number, framed) → s.dir.contains (BlockFile.name number s.compress) = true →
      FileStep.Cut done (draftSteps number s.compress framed) →
      ClosesUnseen s (.error (.io cause)) { s with dir := (s.dir.steps done).2 }

/-- Blocks in files answer, where the file system may fail in every way. -/
def FaultyAnswers : Answering FileStore := fun s call answer t =>
  Answers s call answer t ∨ call = .closeBlock ∧ s.ClosesUnseen answer t

/-- A close does not see the file of its block, in which other content is stored, and succeeds. -/
def Replaces (number : UInt64) : Answering FileStore := fun s call answer t =>
  call = .closeBlock ∧ answer = .ok () ∧ s.ClosesUnseen (.ok ()) t ∧
    ∃ framed stored, s.opened = some (number, framed) ∧ s.content? number = some stored ∧ framed ≠ stored

variable {s t : FileStore} {number : UInt64} {framed : Bytes}

/-- Writing a block's file succeeds with all its steps, or fails with one of them. -/
theorem writeFile_cases {answer : Except WriteError Unit} (h : s.writeFile number framed = (answer, t)) :
    (∃ dir, s.dir.steps (closeSteps number s.compress framed) = (.ok (), dir) ∧ answer = .ok () ∧
      t = { s with dir, opened := none }) ∨
      ∃ e dir, s.dir.steps (closeSteps number s.compress framed) = (.error e, dir) ∧ answer = .error e ∧
        t = { s with dir } := by
  rw [writeFile] at h
  split at h
  · rename_i dir hsteps
    cases h
    exact .inl ⟨dir, hsteps, rfl, rfl⟩
  · rename_i e dir hsteps
    cases h
    exact .inr ⟨e, dir, hsteps, rfl, rfl⟩

/-- **A block whose file is not seen is stored all the same**, in place of what was stored of it. -/
theorem ClosesUnseen.closed (h : s.ClosesUnseen (.ok ()) t) : ∃ number framed, s.opened = some (number, framed) ∧
    t.opened = none ∧ t.content? number = some framed ∧
      ∀ other, other ≠ number → t.content? other = s.content? other := by
  cases h with
  | @written number framed _ _ hopened _ hwrite =>
    rcases writeFile_cases hwrite with ⟨dir, hsteps, -, rfl⟩ | ⟨e, _, -, hanswer, -⟩
    · obtain ⟨hnew, hothers⟩ := content?_of_steps hsteps none
      exact ⟨number, framed, hopened, rfl, hnew, hothers⟩
    · cases hanswer

theorem ClosesUnseen.failed {e : WriteError} (h : s.ClosesUnseen (.error e) t) :
    t.opened = s.opened ∧ t.content? = s.content? := by
  cases h with
  | written _ _ hwrite =>
    rcases writeFile_cases hwrite with ⟨_, -, hanswer, -⟩ | ⟨_, dir, hsteps, -, rfl⟩
    · cases hanswer
    · exact ⟨rfl, content?_of_steps_error hsteps⟩
  | unwritten _ _ _ hcut =>
    exact ⟨rfl, content?_congr rfl fun number => find?_drafted hcut (BlockFile.name_ne_temporaryName _ _ _ _)⟩

/-- Blocks in files store what they received, whatever fails. -/
theorem stores : RoundChain.Stores FaultyAnswers opened content? where
  filled := by
    rintro s t call answer (h | ⟨hcall, -⟩) hclose
    · exact appends.filled h hclose
    · exact absurd hcall hclose
  closed := by
    rintro s t (h | ⟨-, h⟩)
    · exact appends.closed h
    · obtain ⟨number, framed, hopened, hnone, hnew, hothers⟩ := h.closed
      exact ⟨number, framed, hopened, hnone, hnew,
        fun other stored hother hstored => (hothers other hother).trans hstored⟩
  failed := by
    rintro s t e (h | ⟨-, h⟩)
    · exact appends.failed h
    · exact ⟨.inl h.failed.1, h.failed.2⟩

/-- **What is stored changes exactly if it is replaced.** -/
theorem kept_iff {call : WriteCall} {answer : Except WriteError Unit} (h : FaultyAnswers s call answer t)
    {stored : Bytes} (hstored : s.content? number = some stored) :
    t.content? number = some stored ↔ ¬ Replaces number s call answer t := by
  constructor
  · rintro hkept ⟨-, -, hunseen, framed, before, hopened, hbefore, hother⟩
    obtain ⟨_, _, hclosed, -, hnew, -⟩ := hunseen.closed
    cases hopened.symm.trans hclosed
    cases hstored.symm.trans hbefore
    exact hother (Option.some.inj (hnew.symm.trans hkept))
  · intro hnot
    by_contra hchanged
    obtain ⟨rfl, rfl, framed, hopened, -, hother⟩ := (stores.changes_iff h hstored).mp hchanged
    rcases h with h | ⟨-, hunseen⟩
    · exact hchanged (appends.kept h hstored)
    · exact hnot ⟨rfl, rfl, hunseen, framed, stored, hopened, hstored, hother⟩

theorem appendsOnceUnless : AppendsOnceUnless Replaces FaultyAnswers opened content? where
  toStoresReceived := stores.storesReceived
  kept_iff h _ _ hstored := kept_iff h hstored
  kept := by
    intro s t log number hlog stored hstored
    induction hlog with
    | nil => exact hstored
    | concat _ hanswer ih => exact (kept_iff hanswer.1 ih).mpr hanswer.2
  remains hlog := stores.exists_content hlog

/-! ### Closes that see no file and are cut off -/

/-- The same block files, of which all but one have the content that they had. -/
structure Rewrites (after before : Directory) (name : String) : Prop where
  files : ∀ file, file ∈ BlockFile.list after ↔ file ∈ BlockFile.list before
  contents : ∀ file ∈ BlockFile.list before, file.2 ≠ name → BlockFile.read after file.2 = BlockFile.read before file.2

/-- Directories that differ in one block file, which is in both, and in files that are no block files. -/
theorem rewrites_of_find? {after before : Directory} {name : String} {old new : DirEntry}
    (hold : before.find? name = some old) (hnew : after.find? name = some new)
    (h : ∀ other, BlockFile.number? other ≠ none → other ≠ name → after.find? other = before.find? other) :
    Rewrites after before name where
  files := by
    rintro ⟨number, file⟩
    rw [BlockFile.mem_list_iff, BlockFile.mem_list_iff]
    by_cases hname : file = name
    · subst hname
      rw [hold, hnew]
      exact ⟨fun hfile => ⟨⟨old, rfl⟩, hfile.2⟩, fun hfile => ⟨⟨new, rfl⟩, hfile.2⟩⟩
    · refine and_congr_left fun hnumber => ?_
      rw [h file (hnumber.trans_ne (Option.some_ne_none _)) hname]
  contents := by
    rintro ⟨number, file⟩ hfile hname
    obtain ⟨-, hnumber⟩ := BlockFile.mem_list_iff.mp hfile
    exact BlockFile.read_congr (h file (hnumber.trans_ne (Option.some_ne_none _)) hname)

/-- **A close that sees no file and is cut off has replaced the whole block file or nothing.** -/
theorem rewrites_cut (d : Directory) {compress : Bool} {done : List FileStep}
    (hthere : d.contains (BlockFile.name number compress) = true)
    (hcut : FileStep.Cut done (closeSteps number compress framed)) :
    Shows (d.steps done).2 d [] ∨ Rewrites (d.steps done).2 d (BlockFile.name number compress) ∧
      BlockFile.read (d.steps done).2 (BlockFile.name number compress) = .ok framed := by
  rw [closeSteps_eq] at hcut
  rcases hcut.append_cases with hpart | ⟨later, rfl, hlater⟩
  · exact .inl (shows_drafted d hpart)
  · cases hlater with
    | off =>
      rw [List.append_nil]
      exact .inl (shows_drafted d (FileStep.cut_refl _))
    | cons hnil =>
      cases hnil
      rw [← closeSteps_eq]
      rcases steps_closeSteps_cases d number compress framed with ⟨-, e, hrefused⟩ | ⟨-, e, hrefused⟩ |
        ⟨after, hdone, hfile, -, hframe⟩
      · rw [hrefused]
        exact .inl (shows_of_eq fun _ _ => rfl)
      · rw [hrefused]
        exact .inl (shows_drafted d (FileStep.cut_refl _))
      · rw [hdone]
        obtain ⟨old, hold⟩ := Option.isSome_iff_exists.mp hthere
        refine .inr ⟨rewrites_of_find? hold hfile fun other hname hother => ?_, BlockFile.read_fileContent hfile⟩
        exact hframe other hother (ne_temporaryName hname _ _)

end FileStore

/-! ### Both stores -/

/-- **What is stored stays, unless its file is not seen.** In memory, and in files as long as the system finds out
whether a file is there, the content of a block never changes once it is there, a call that is refused changes no
content, and a close that succeeds has stored what the open block received since it was opened last. In files all this
holds whatever fails, but for one change: the content of a block changes exactly where a close brings another content,
does not see the file that is there, and succeeds. A close that is cut off within its steps in the directory has added
the whole file of the open block to the block files, or, where it does not see this file, replaced the whole of it; or
it has changed no block file. -/
theorem append_once_unless_unseen [Compression] :
    AppendsOnce MemoryStore.Answers MemoryStore.opened MemoryStore.content? ∧
      AppendsOnce FileStore.Answers FileStore.opened FileStore.content? ∧
      AppendsOnceUnless FileStore.Replaces FileStore.FaultyAnswers FileStore.opened FileStore.content? ∧
      (∀ (s : FileStore) (done : List FileStep), FileStep.Cut done (s.stepsFor .closeBlock) →
        FileStore.Shows (s.dir.steps done).2 s.dir [] ∨
          ∃ number framed, s.opened = some (number, framed) ∧
            (number, BlockFile.name number s.compress) ∉ BlockFile.list s.dir ∧
            FileStore.Shows (s.dir.steps done).2 s.dir [(number, BlockFile.name number s.compress)] ∧
            BlockFile.read (s.dir.steps done).2 (BlockFile.name number s.compress) = .ok framed) ∧
      ∀ (s : FileStore) (number : UInt64) (framed : Bytes) (done : List FileStep), s.opened = some (number, framed) →
        s.dir.contains (BlockFile.name number s.compress) = true →
        FileStep.Cut done (FileStore.closeSteps number s.compress framed) →
        FileStore.Shows (s.dir.steps done).2 s.dir [] ∨
          FileStore.Rewrites (s.dir.steps done).2 s.dir (BlockFile.name number s.compress) ∧
            BlockFile.read (s.dir.steps done).2 (BlockFile.name number s.compress) = .ok framed :=
  ⟨MemoryStore.appends.once, FileStore.appends.once, FileStore.appendsOnceUnless, fun s _ hcut => s.shows_cut hcut,
    fun s _ _ _ _ hthere hcut => FileStore.rewrites_cut s.dir hthere hcut⟩

/-- A store in which block 3 was written. -/
def storeOfThree [Compression] (framed : Bytes) : FileStore :=
  .new (Directory.empty.steps (FileStore.closeSteps 3 false framed)).2 false

/-- The disk is full when a block is closed, and the next close succeeds. The block is opened again with another
content, and a close that sees its file is refused. -/
theorem append_once_unless_unseen_retried :
    Answered FileStore.FaultyAnswers (.new .empty false)
        [(.openBlock 3, .ok ()), (.items [1], .ok ()),
          (.closeBlock, .error (.io "No space left on device (os error 28)")), (.closeBlock, .ok ()),
          (.openBlock 3, .ok ()), (.items [2], .ok ()), (.closeBlock, .error (.conflict 3))]
        { storeOfThree [1] with opened := some (3, [2]) } ∧
      (storeOfThree [1]).content? 3 = some [1] ∧
      ({ storeOfThree [1] with opened := some (3, [2]) } : FileStore).content? 3 = some [1] := by
  have hfiles := append_once_unless_unseen.2.2.1
  have hfilled : Answered FileStore.FaultyAnswers (.new .empty false) [(.openBlock 3, .ok ()), (.items [1], .ok ())]
      ⟨.empty, false, some (3, [1])⟩ :=
    .concat (.concat .nil (.inl (.performed rfl))) (.inl (.performed rfl))
  -- the file could be created, and nothing could be written to it
  have hfull : FileStore.FaultyAnswers ⟨.empty, false, some (3, [1])⟩ .closeBlock
      (.error (.io "No space left on device (os error 28)"))
      ⟨(Directory.empty.steps [.create (BlockFile.temporaryName 3 false)]).2, false, some (3, [1])⟩ :=
    .inl (.unwritten _ rfl rfl (.cons .off))
  have hclose : FileStore.FaultyAnswers
      ⟨(Directory.empty.steps [.create (BlockFile.temporaryName 3 false)]).2, false, some (3, [1])⟩ .closeBlock (.ok ())
      (storeOfThree [1]) := .inl (.performed rfl)
  have hcontent : (storeOfThree [1]).content? 3 = some [1] := by
    obtain ⟨number, later, hopened, -, hcontent⟩ := hfiles.closed rfl (hfilled.concat hfull) hclose
    obtain ⟨rfl, hreceived⟩ := Prod.mk.inj (Option.some.inj hopened)
    rw [hcontent, ← hreceived]
  have hopen : FileStore.FaultyAnswers (storeOfThree [1]) (.openBlock 3) (.ok ())
      { storeOfThree [1] with opened := some (3, []) } := .inl (.performed rfl)
  have hitems : FileStore.FaultyAnswers { storeOfThree [1] with opened := some (3, []) } (.items [2]) (.ok ())
      { storeOfThree [1] with opened := some (3, [2]) } := .inl (.performed rfl)
  have hconflict : FileStore.FaultyAnswers { storeOfThree [1] with opened := some (3, [2]) } .closeBlock
      (.error (.conflict 3)) { storeOfThree [1] with opened := some (3, [2]) } := .inl (.performed rfl)
  have hlog := ((((hfilled.concat hfull).concat hclose).concat hopen).concat hitems).concat hconflict
  refine ⟨hlog, hcontent, (hfiles.kept_iff hconflict hcontent).mpr ?_⟩
  rintro ⟨-, hanswer, -⟩
  cases hanswer

/-- **A file that is not seen is replaced.** Block 3 is stored and opened again with another content, and at the close
the system cannot tell whether its file is there: the close succeeds, and the content has changed. -/
theorem unseen_replaces :
    Answered FileStore.FaultyAnswers (.new .empty false)
        [(.openBlock 3, .ok ()), (.items [1], .ok ()), (.closeBlock, .ok ())] (storeOfThree [1]) ∧
      Answered FileStore.FaultyAnswers (storeOfThree [1])
        [(.openBlock 3, .ok ()), (.items [2], .ok ()), (.closeBlock, .ok ())] (storeOfThree [2]) ∧
      (storeOfThree [1]).content? 3 = some [1] ∧ (storeOfThree [2]).content? 3 = some [2] ∧
      ¬ AppendsOnce FileStore.FaultyAnswers FileStore.opened FileStore.content? := by
  have hstored : Answered FileStore.FaultyAnswers (.new .empty false)
      [(.openBlock 3, .ok ()), (.items [1], .ok ()), (.closeBlock, .ok ())] (storeOfThree [1]) :=
    .concat (.concat (.concat .nil (.inl (.performed rfl))) (.inl (.performed rfl))) (.inl (.performed rfl))
  have hunseen : FileStore.ClosesUnseen { storeOfThree [1] with opened := some (3, [2]) } (.ok ()) (storeOfThree [2]) :=
    .written rfl rfl rfl
  have hreplaced : Answered FileStore.FaultyAnswers (storeOfThree [1])
      [(.openBlock 3, .ok ()), (.items [2], .ok ()), (.closeBlock, .ok ())] (storeOfThree [2]) :=
    .concat (.concat (.concat .nil (.inl (.performed rfl))) (.inl (.performed rfl))) (.inr ⟨rfl, hunseen⟩)
  have hone : (storeOfThree [1]).content? 3 = some [1] := rfl
  have htwo : (storeOfThree [2]).content? 3 = some [2] := rfl
  refine ⟨hstored, hreplaced, hone, htwo, fun honce => ?_⟩
  cases htwo.symm.trans (honce.kept hreplaced hone)

end RoundChain
