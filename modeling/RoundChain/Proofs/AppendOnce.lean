import RoundChain.Proofs.FileWrites
import RoundChain.Proofs.StoreCalls

/-!
# What is stored stays

A store that appends once never changes what it has stored, whatever it is told: a block's content stays
from the first successful close on, a refused call leaves all contents, and a close that succeeds has
stored what the open block received since it was opened last. Blocks in memory append once, whichever
closes fail, and so do blocks in files as long as the system always finds out whether a file is there:
`MemoryStore.appends`, `FileStore.appends`. A close that is cut off in the directory has added the whole
block or nothing, `FileStore.shows_cut`.

## The model

`Answering` is a store together with its faults: how it may answer a call, from one state to another.
A store in memory may have been told anything about failing closes before each call. In files, a
block that is there may fail to be read, and writing one may fail at any of its steps, or within the
one that writes; a file is renamed as a whole or not at all. That the system cannot tell whether a
file is there is left to `RoundChain.Proofs.UnseenFiles`.

`Stores` is what each single answer owes to the open block and to the contents, also if a close may
replace what is stored, and `Appends` adds that none does. `AppendsOnce` is what follows for all that
was answered.
-/

namespace RoundChain

variable {ω : Type}

/-! ### Answers one after the other -/

/-- How a store may answer a call, from one state to another. -/
abbrev Answering (ω : Type) := ω → WriteCall → Except WriteError Unit → ω → Prop

/-- The store answers in this way, one call after the other. -/
inductive Answered (answers : Answering ω) : ω → WriteLog → ω → Prop where
  | nil {s : ω} : Answered answers s [] s
  | concat {s t u : ω} {log : WriteLog} {call : WriteCall} {answer : Except WriteError Unit} :
      Answered answers s log t → answers t call answer u → Answered answers s (log ++ [(call, answer)]) u

/-- What the calls bring that were taken. -/
def received (log : WriteLog) : Bytes :=
  log.flatMap fun
    | (call, .ok ()) => call.payload
    | (_, .error _) => []

theorem received_concat_ok (log : WriteLog) (call : WriteCall) :
    received (log ++ [(call, .ok ())]) = received log ++ call.payload := by
  rw [received, List.flatMap_append, List.flatMap_singleton]
  rfl

theorem received_concat_error (log : WriteLog) (call : WriteCall) (e : WriteError) :
    received (log ++ [(call, .error e)]) = received log := by
  rw [received, List.flatMap_append, List.flatMap_singleton, List.append_nil]
  rfl

/-- The end of a log from the latest successful opening on, which opened the block with this number. -/
def Latest (number : UInt64) (later log : WriteLog) : Prop :=
  (∃ before, log = before ++ (.openBlock number, .ok ()) :: later) ∧ ∀ other, (.openBlock other, .ok ()) ∉ later

theorem latest_concat (number : UInt64) (log : WriteLog) :
    Latest number [] (log ++ [(.openBlock number, .ok ())]) :=
  ⟨⟨log, rfl⟩, fun _ => List.not_mem_nil⟩

/-- A call that opens no block does not change which opening is the latest. -/
theorem Latest.concat {number : UInt64} {later log : WriteLog} (h : Latest number later log)
    {entry : WriteCall × Except WriteError Unit} (hentry : ∀ other, entry ≠ (.openBlock other, .ok ())) :
    Latest number (later ++ [entry]) (log ++ [entry]) := by
  obtain ⟨⟨before, rfl⟩, hnone⟩ := h
  refine ⟨⟨before, by rw [List.append_assoc, List.cons_append]⟩, fun other hmem => ?_⟩
  rcases List.mem_append.mp hmem with hmem | hmem
  · exact hnone other hmem
  · exact hentry other (List.mem_singleton.mp hmem).symm

/-! ### Stores that append once -/

/-- What a store has to keep to, in every answer. -/
structure Stores (answers : Answering ω) (opened : ω → OpenBuffer) (content : ω → UInt64 → Option Bytes) :
    Prop where
  /-- A block is opened and filled as the open block is, and nothing is stored. -/
  filled : ∀ {s t : ω} {call : WriteCall} {answer : Except WriteError Unit}, answers s call answer t →
    call ≠ .closeBlock → answer = ((opened s).fill call).map (fun _ => ()) ∧ opened t = (opened s).filled call ∧
      content t = content s
  /-- A close stores the open block, and leaves what is stored of other blocks. -/
  closed : ∀ {s t : ω}, answers s .closeBlock (.ok ()) t → ∃ number framed, opened s = some (number, framed) ∧
    opened t = none ∧ content t number = some framed ∧
      ∀ other stored, other ≠ number → content s other = some stored → content t other = some stored
  /-- A close that is refused stores nothing; it leaves the open block, or nothing of it. -/
  failed : ∀ {s t : ω} {e : WriteError}, answers s .closeBlock (.error e) t →
    (opened t = opened s ∨ opened t = none) ∧ content t = content s

/-- What a store that appends once has to keep to: a close that succeeds stores no block with another content. -/
structure Appends (answers : Answering ω) (opened : ω → OpenBuffer) (content : ω → UInt64 → Option Bytes) :
    Prop extends Stores answers opened content where
  same : ∀ {s t : ω} {number : UInt64} {framed stored : Bytes}, answers s .closeBlock (.ok ()) t →
    opened s = some (number, framed) → content s number = some stored → framed = stored

/-- What answers tell truly, from a state on in which no block is open. -/
structure StoresReceived (answers : Answering ω) (opened : ω → OpenBuffer) (content : ω → UInt64 → Option Bytes) :
    Prop where
  /-- A refused call leaves all contents as they are. -/
  refused : ∀ {s t : ω} {call : WriteCall} {e : WriteError}, answers s call (.error e) t → content t = content s
  /-- Behind a close that succeeded, the open block has the content that was received since it was opened last. -/
  closed : ∀ {s t u : ω} {log : WriteLog}, opened s = none → Answered answers s log t →
    answers t .closeBlock (.ok ()) u → ∃ number later, opened t = some (number, received later) ∧
      Latest number later log ∧ content u number = some (received later)

/-- What is stored stays, for all that is answered from a state on in which no block is open. -/
structure AppendsOnce (answers : Answering ω) (opened : ω → OpenBuffer) (content : ω → UInt64 → Option Bytes) :
    Prop extends StoresReceived answers opened content where
  /-- The content of a block never changes or disappears. -/
  kept : ∀ {s t : ω} {log : WriteLog}, Answered answers s log t →
    ∀ {number framed}, content s number = some framed → content t number = some framed

namespace Stores

variable {answers : Answering ω} {opened : ω → OpenBuffer} {content : ω → UInt64 → Option Bytes}

/-- A refused call stores nothing, and leaves the open block or nothing of it. -/
theorem refused (h : Stores answers opened content) {s t : ω} {call : WriteCall} {e : WriteError}
    (hanswer : answers s call (.error e) t) : (opened t = opened s ∨ opened t = none) ∧ content t = content s := by
  by_cases hclose : call = .closeBlock
  · subst hclose
    exact h.failed hanswer
  · obtain ⟨hrefused, hopened, hcontent⟩ := h.filled hanswer hclose
    refine ⟨.inl ?_, hcontent⟩
    cases hfill : (opened s).fill call with
    | error _ => rw [hopened, OpenBuffer.filled_of_error hfill]
    | ok after =>
      rw [hfill] at hrefused
      cases hrefused

/-- **What is stored changes with a close of the block that succeeds with another content, and with no other
answer.** -/
theorem changes_iff (h : Stores answers opened content) {s t : ω} {call : WriteCall}
    {answer : Except WriteError Unit} (hanswer : answers s call answer t) {number : UInt64} {stored : Bytes}
    (hstored : content s number = some stored) :
    content t number ≠ some stored ↔ call = .closeBlock ∧ answer = .ok () ∧
      ∃ framed, opened s = some (number, framed) ∧ content t number = some framed ∧ framed ≠ stored := by
  constructor
  · intro hchanged
    have hclose : call = .closeBlock := by
      by_contra hclose
      rw [(h.filled hanswer hclose).2.2] at hchanged
      exact hchanged hstored
    subst hclose
    cases answer with
    | error e =>
      rw [(h.failed hanswer).2] at hchanged
      exact absurd hstored hchanged
    | ok _ =>
      obtain ⟨other, framed, hopened, -, hnew, hothers⟩ := h.closed hanswer
      by_cases hnumber : number = other
      · subst hnumber
        exact ⟨rfl, rfl, framed, hopened, hnew, fun hsame => hchanged (hsame ▸ hnew)⟩
      · exact absurd (hothers number stored hnumber hstored) hchanged
  · rintro ⟨-, -, framed, -, hnew, hother⟩ hsame
    exact hother (Option.some.inj (hnew.symm.trans hsame))

/-- No answer makes what is stored disappear. -/
theorem exists_content (h : Stores answers opened content) {s t : ω} {log : WriteLog} (hlog : Answered answers s log t)
    {number : UInt64} (hstored : (content s number).isSome) : (content t number).isSome := by
  induction hlog with
  | nil => exact hstored
  | @concat t u log call answer _ hanswer ih =>
    obtain ⟨stored, hbefore⟩ := Option.isSome_iff_exists.mp ih
    by_cases hkept : content u number = some stored
    · rw [hkept]
      rfl
    · obtain ⟨-, -, framed, -, hnew, -⟩ := (h.changes_iff hanswer hbefore).mp hkept
      rw [hnew]
      rfl

/-- The block that is open holds what was received since it was opened. -/
theorem holds_received (h : Stores answers opened content) {s t : ω} {log : WriteLog} (hs : opened s = none)
    (hlog : Answered answers s log t) {number : UInt64} {framed : Bytes} (ht : opened t = some (number, framed)) :
    ∃ later, Latest number later log ∧ framed = received later := by
  induction hlog generalizing number framed with
  | nil =>
    rw [hs] at ht
    cases ht
  | @concat t u log call answer _ hanswer ih =>
    cases answer with
    | error e =>
      rcases (h.refused hanswer).1 with hsame | hnone
      · obtain ⟨later, hlatest, rfl⟩ := ih (hsame ▸ ht)
        exact ⟨_, hlatest.concat nofun, (received_concat_error later call e).symm⟩
      · rw [hnone] at ht
        cases ht
    | ok _ =>
      by_cases hclose : call = .closeBlock
      · subst hclose
        obtain ⟨_, _, -, hnone, -⟩ := h.closed hanswer
        rw [hnone] at ht
        cases ht
      obtain ⟨htaken, hopened, -⟩ := h.filled hanswer hclose
      cases hfill : (opened t).fill call with
      | error _ =>
        rw [hfill] at htaken
        cases htaken
      | ok after =>
        rw [OpenBuffer.filled_of_ok hfill, ht] at hopened
        subst hopened
        rcases OpenBuffer.fill_eq_ok hfill with ⟨other, rfl, heq⟩ | ⟨hopens, other, before, hbefore, heq⟩
        · cases heq
          exact ⟨[], latest_concat number log, rfl⟩
        · cases heq
          obtain ⟨later, hlatest, rfl⟩ := ih hbefore
          refine ⟨_, hlatest.concat fun other heq => hopens other ?_, (received_concat_ok later call).symm⟩
          exact (Prod.mk.inj heq).1

/-- **A close that succeeds has stored what was received.** -/
theorem storesReceived (h : Stores answers opened content) : StoresReceived answers opened content where
  refused hanswer := (h.refused hanswer).2
  closed hs hlog hanswer := by
    obtain ⟨number, framed, hopened, -, hstored, -⟩ := h.closed hanswer
    obtain ⟨later, hlatest, rfl⟩ := h.holds_received hs hlog hopened
    exact ⟨number, later, hopened, hlatest, hstored⟩

end Stores

namespace Appends

variable {answers : Answering ω} {opened : ω → OpenBuffer} {content : ω → UInt64 → Option Bytes}

/-- No answer changes what is stored. -/
theorem kept (h : Appends answers opened content) {s t : ω} {call : WriteCall} {answer : Except WriteError Unit}
    (hanswer : answers s call answer t) {number : UInt64} {stored : Bytes} (hstored : content s number = some stored) :
    content t number = some stored := by
  by_contra hchanged
  obtain ⟨rfl, rfl, framed, hopened, -, hother⟩ := (h.changes_iff hanswer hstored).mp hchanged
  exact hother (h.same hanswer hopened hstored)

/-- **A store that keeps to it in every answer appends once.** -/
theorem once (h : Appends answers opened content) : AppendsOnce answers opened content where
  toStoresReceived := h.storesReceived
  kept hlog := by
    induction hlog with
    | nil => exact id
    | concat _ hanswer ih => exact fun hstored => h.kept hanswer (ih hstored)

end Appends

/-! ### Blocks in memory -/

namespace MemoryStore

/-- A store in memory answers, of which it may have been decided anew which closes are to fail. -/
def Answers (s : MemoryStore) (call : WriteCall) (answer : Except WriteError Unit) (t : MemoryStore) : Prop :=
  ∃ failing failingCloses, ({ s with failing, failingCloses } : MemoryStore).perform call = (answer, t)

/-- **Blocks in memory keep to it.** -/
theorem appends : Appends Answers opened content? where
  filled := by
    rintro s t call answer ⟨failing, failingCloses, h⟩ hclose
    obtain ⟨log, openings, heq⟩ := perform_eq_fill { s with failing, failingCloses } hclose
    cases heq.symm.trans h
    exact ⟨rfl, rfl, rfl⟩
  closed := by
    rintro s t ⟨failing, failingCloses, h⟩
    have hclosed := closed_close { s with failing, failingCloses }
    rw [show close _ = _ from h] at hclosed
    cases hclosed with
    | @stored number framed _ hopened hnew =>
      refine ⟨number, framed, hopened, rfl, ?_, fun other stored hother hstored => ?_⟩
      · rw [content?, WordMap.find?_insert, if_pos rfl]
      · rw [content?, WordMap.find?_insert, if_neg hother]
        exact hstored
    | repeated hopened hstored => exact ⟨_, _, hopened, rfl, hstored, fun _ _ _ => id⟩
  failed := by
    rintro s t e ⟨failing, failingCloses, h⟩
    have hclosed := closed_close { s with failing, failingCloses }
    rw [show close _ = _ from h] at hclosed
    cases hclosed with
    | idle => exact ⟨.inl rfl, rfl⟩
    | failed => exact ⟨.inl rfl, rfl⟩
    | conflict => exact ⟨.inr rfl, rfl⟩
  same := by
    rintro s t number framed stored ⟨failing, failingCloses, h⟩ hopened hstored
    have hclosed := closed_close { s with failing, failingCloses }
    rw [show close _ = _ from h] at hclosed
    cases hclosed with
    | stored hother hnew =>
      cases hopened.symm.trans hother
      cases hstored.symm.trans hnew
    | repeated hother hsame =>
      cases hopened.symm.trans hother
      exact Option.some.inj (hsame.symm.trans hstored)

end MemoryStore

/-! ### Blocks in files -/

namespace FileStore

variable [Compression]

/-- What is done of a block's file before it has its name. -/
def draftSteps (number : UInt64) (compress : Bool) (framed : Bytes) : List FileStep :=
  let temporary := BlockFile.temporaryName number compress
  [.create temporary, .write temporary (BlockFile.fileContent compress framed), .sync temporary]

theorem closeSteps_eq (number : UInt64) (compress : Bool) (framed : Bytes) :
    closeSteps number compress framed = draftSteps number compress framed ++
      [.rename (BlockFile.temporaryName number compress) (BlockFile.name number compress)] := rfl

/-- The content of a block's file, if there is one that can be read. -/
def content? (s : FileStore) (number : UInt64) : Option Bytes :=
  (BlockFile.read s.dir (BlockFile.name number s.compress)).toOption

/-- A content is what is read from the file. -/
theorem read_of_content {s : FileStore} {number : UInt64} {stored : Bytes} (h : s.content? number = some stored) :
    BlockFile.read s.dir (BlockFile.name number s.compress) = .ok stored := by
  rw [content?] at h
  cases hfile : BlockFile.read s.dir (BlockFile.name number s.compress) with
  | error e =>
    rw [hfile] at h
    cases h
  | ok content =>
    rw [hfile] at h
    exact congrArg _ (Option.some.inj h)

/-- Blocks in files answer, where the file system may fail but says truly whether a file is there: a file that is there
cannot be read, or a file cannot be written, whatever was done of it before it would have had its name. -/
inductive Answers : FileStore → WriteCall → Except WriteError Unit → FileStore → Prop where
  | performed {s t : FileStore} {call : WriteCall} {answer : Except WriteError Unit} :
      s.perform call = (answer, t) → Answers s call answer t
  | unread {s : FileStore} {number : UInt64} {framed : Bytes} (cause : String) :
      s.opened = some (number, framed) → s.dir.contains (BlockFile.name number s.compress) = true →
      Answers s .closeBlock (.error (.io cause)) s
  | unwritten {s : FileStore} {number : UInt64} {framed : Bytes} {done : List FileStep} (cause : String) :
      s.opened = some (number, framed) → s.dir.contains (BlockFile.name number s.compress) = false →
      FileStep.Cut done (draftSteps number s.compress framed) →
      Answers s .closeBlock (.error (.io cause)) { s with dir := (s.dir.steps done).2 }

section

variable {d : Directory} {number : UInt64} {compress : Bool} {framed : Bytes}

/-- A file that does not have its name yet concerns no other. -/
theorem find?_drafted {done : List FileStep} (hcut : FileStep.Cut done (draftSteps number compress framed))
    {name : String} (hname : name ≠ BlockFile.temporaryName number compress) :
    (d.steps done).2.find? name = d.find? name := by
  refine Directory.find?_steps fun step hstep hmem => ?_
  obtain ⟨whole, hwhole, hnames⟩ := hcut.names step hstep
  rw [hnames] at hmem
  simp only [draftSteps, List.mem_cons, List.not_mem_nil, or_false] at hwhole
  rcases hwhole with rfl | rfl | rfl
  · exact hname (List.mem_singleton.mp hmem)
  · exact hname (List.mem_singleton.mp hmem)
  · cases hmem

/-- **Writing a block's file** is refused at once, for a folder in place of the file to write, or at the end, for a
folder in place of the block's file; or it is done. -/
theorem steps_closeSteps_cases (d : Directory) (number : UInt64) (compress : Bool) (framed : Bytes) :
    (d.find? (BlockFile.temporaryName number compress) = some .folder ∧
      ∃ e, d.steps (closeSteps number compress framed) = (.error e, d)) ∨
      (d.find? (BlockFile.name number compress) = some .folder ∧
        ∃ e, d.steps (closeSteps number compress framed) =
          (.error e, (d.steps (draftSteps number compress framed)).2)) ∨
      ∃ after, d.steps (closeSteps number compress framed) = (.ok (), after) ∧
        after.find? (BlockFile.name number compress) = some (.file (BlockFile.fileContent compress framed)) ∧
        after.find? (BlockFile.temporaryName number compress) = none ∧
        ∀ other, other ≠ BlockFile.name number compress → other ≠ BlockFile.temporaryName number compress →
          after.find? other = d.find? other := by
  have hne := BlockFile.name_ne_temporaryName number number compress compress
  simp only [closeSteps, draftSteps]
  generalize BlockFile.temporaryName number compress = temporary at hne
  generalize BlockFile.fileContent compress framed = content
  cases hcreate : d.step (.create temporary) with
  | error e =>
    have hfolder : d.find? temporary = some .folder := by
      simp only [Directory.step] at hcreate
      split at hcreate
      · assumption
      · cases hcreate
    refine .inl ⟨hfolder, e, ?_⟩
    rw [Directory.steps, hcreate]
  | ok created =>
    obtain rfl : created = d.set temporary (.file []) := by
      simp only [Directory.step] at hcreate
      split at hcreate
      · cases hcreate
      · exact (Except.ok.inj hcreate).symm
    have hempty : (d.set temporary (.file [])).find? temporary = some (.file []) := Directory.find?_set_self
    have hwrite := Directory.step_write hempty content
    generalize hwritten : (d.set temporary (.file [])).set temporary (.file content) = written at hwrite
    have hthere : written.find? temporary = some (.file content) := by rw [← hwritten, Directory.find?_set_self]
    have hframe : ∀ other, other ≠ temporary → written.find? other = d.find? other := fun other hother => by
      rw [← hwritten, Directory.find?_set_of_ne hother, Directory.find?_set_of_ne hother]
    have hdraft : d.steps [.create temporary, .write temporary content, .sync temporary] = (.ok (), written) := by
      rw [Directory.steps_cons_of_ok hcreate, Directory.steps_cons_of_ok hwrite]
      rfl
    -- all is written, and renaming decides
    have hclose : d.steps [.create temporary, .write temporary content, .sync temporary,
        .rename temporary (BlockFile.name number compress)] =
          written.steps [.rename temporary (BlockFile.name number compress)] :=
      Directory.steps_append_of_ok hdraft [.rename temporary (BlockFile.name number compress)]
    rw [hclose, hdraft]
    by_cases hfolder : d.find? (BlockFile.name number compress) = some .folder
    · refine .inr (.inl ⟨hfolder, Directory.isFolder, ?_⟩)
      rw [Directory.steps, Directory.step_rename_folder hthere ((hframe _ hne).trans hfolder)]
    · rw [Directory.steps_cons_of_ok (Directory.step_rename hthere ((hframe _ hne).trans_ne hfolder))]
      refine .inr (.inr ⟨_, rfl, Directory.find?_set_self, ?_, fun other hname htemporary => ?_⟩)
      · rw [Directory.find?_set_of_ne hne.symm, Directory.find?_remove_self]
      · rw [Directory.find?_set_of_ne hname, Directory.find?_remove_of_ne htemporary, hframe other htemporary]

/-- The file of a new block is refused at once or written. -/
theorem steps_closeSteps (habsent : d.find? (BlockFile.name number compress) = none) (framed : Bytes) :
    (d.find? (BlockFile.temporaryName number compress) = some .folder ∧
      ∃ e, d.steps (closeSteps number compress framed) = (.error e, d)) ∨
      ∃ after, d.steps (closeSteps number compress framed) = (.ok (), after) ∧
        after.find? (BlockFile.name number compress) = some (.file (BlockFile.fileContent compress framed)) ∧
        after.find? (BlockFile.temporaryName number compress) = none ∧
        ∀ other, other ≠ BlockFile.name number compress → other ≠ BlockFile.temporaryName number compress →
          after.find? other = d.find? other := by
  rcases steps_closeSteps_cases d number compress framed with hrefused | ⟨hfolder, -⟩ | hdone
  · exact .inl hrefused
  · cases habsent.symm.trans hfolder
  · exact .inr hdone

end

/-- The contents are those of the block files. -/
theorem content?_congr {s t : FileStore} (hcompress : t.compress = s.compress)
    (h : ∀ number, t.dir.find? (BlockFile.name number s.compress) = s.dir.find? (BlockFile.name number s.compress)) :
    t.content? = s.content? := by
  funext number
  rw [content?, content?, hcompress, BlockFile.read_congr (h number)]

/-- A file that was written has the block's content, and all others have theirs. -/
theorem content?_of_steps {s : FileStore} {number : UInt64} {framed : Bytes} {dir : Directory}
    (hsteps : s.dir.steps (closeSteps number s.compress framed) = (.ok (), dir)) (opened : OpenBuffer) :
    ({ s with dir, opened } : FileStore).content? number = some framed ∧
      ∀ other, other ≠ number → ({ s with dir, opened } : FileStore).content? other = s.content? other := by
  rcases steps_closeSteps_cases s.dir number s.compress framed with ⟨-, e, hrefused⟩ | ⟨-, e, hrefused⟩ |
    ⟨after, hdone, hfile, -, hframe⟩
  · cases hrefused.symm.trans hsteps
  · cases hrefused.symm.trans hsteps
  · obtain rfl : after = dir := congrArg Prod.snd (hdone.symm.trans hsteps)
    constructor
    · rw [content?, BlockFile.read_fileContent hfile]
      rfl
    · intro other hother
      have hname : BlockFile.name other s.compress ≠ BlockFile.name number s.compress :=
        fun h => hother (BlockFile.name_inj h)
      rw [content?, content?, BlockFile.read_congr (hframe _ hname (BlockFile.name_ne_temporaryName _ _ _ _))]

/-- A file that could not be written has left all contents. -/
theorem content?_of_steps_error {s : FileStore} {number : UInt64} {framed : Bytes} {e : WriteError} {dir : Directory}
    (hsteps : s.dir.steps (closeSteps number s.compress framed) = (.error e, dir)) :
    ({ s with dir } : FileStore).content? = s.content? := by
  rcases steps_closeSteps_cases s.dir number s.compress framed with ⟨-, e, hrefused⟩ | ⟨-, e, hrefused⟩ |
    ⟨after, hdone, -⟩
  · cases hrefused.symm.trans hsteps
    rfl
  · cases hrefused.symm.trans hsteps
    exact content?_congr rfl fun number =>
      find?_drafted (FileStep.cut_refl _) (BlockFile.name_ne_temporaryName _ _ _ _)
  · cases hdone.symm.trans hsteps

theorem content?_of_not_contains {s : FileStore} {number : UInt64}
    (h : s.dir.contains (BlockFile.name number s.compress) = false) : s.content? number = none := by
  rw [content?, BlockFile.read, Directory.contentOf, Directory.find?_of_contains h]
  rfl

/-- **Blocks in files keep to it.** -/
theorem appends : Appends Answers opened content? where
  filled := by
    rintro s t call answer h hclose
    cases h with
    | performed h =>
      rw [perform_eq_fill s hclose] at h
      cases h
      exact ⟨rfl, rfl, rfl⟩
    | unread => exact absurd rfl hclose
    | unwritten => exact absurd rfl hclose
  closed := by
    rintro s t ⟨h⟩
    have hclosed := s.closed_close
    rw [show s.close = _ from h] at hclosed
    cases hclosed with
    | @repeated number framed hopened _ hread =>
      refine ⟨number, framed, hopened, rfl, ?_, fun _ _ _ => id⟩
      rw [content?, hread]
      rfl
    | @stored number framed dir hopened _ hsteps =>
      obtain ⟨hnew, hothers⟩ := content?_of_steps hsteps none
      exact ⟨number, framed, hopened, rfl, hnew,
        fun other stored hother hstored => (hothers other hother).trans hstored⟩
  failed := by
    rintro s t e h
    cases h with
    | performed h =>
      have hclosed := s.closed_close
      rw [show s.close = _ from h] at hclosed
      cases hclosed with
      | idle => exact ⟨.inl rfl, rfl⟩
      | unread => exact ⟨.inl rfl, rfl⟩
      | conflict => exact ⟨.inl rfl, rfl⟩
      | refused _ _ hsteps => exact ⟨.inl rfl, content?_of_steps_error hsteps⟩
    | unread => exact ⟨.inl rfl, rfl⟩
    | unwritten _ _ _ hcut =>
      exact ⟨.inl rfl, content?_congr rfl fun number => find?_drafted hcut (BlockFile.name_ne_temporaryName _ _ _ _)⟩
  same := by
    rintro s t number framed stored ⟨h⟩ hopened hstored
    have hclosed := s.closed_close
    rw [show s.close = _ from h] at hclosed
    cases hclosed with
    | repeated hother _ hread =>
      cases hopened.symm.trans hother
      exact Except.ok.inj (hread.symm.trans (read_of_content hstored))
    | stored hother hnew _ =>
      cases hopened.symm.trans hother
      cases (content?_of_not_contains hnew).symm.trans hstored

/-! ### Closes that are cut off -/

/-- The block files of the first directory are those of the second with some added; those of the second have the
content that they had. -/
structure Shows (after before : Directory) (added : List (UInt64 × String)) : Prop where
  files : ∀ file, file ∈ BlockFile.list after ↔ file ∈ added ∨ file ∈ BlockFile.list before
  contents : ∀ file ∈ BlockFile.list before, BlockFile.read after file.2 = BlockFile.read before file.2

/-- Directories that differ in block files that were added, and in files that are no block files. -/
theorem shows_of_find? {after before : Directory} {added : List (UInt64 × String)}
    (hold : ∀ name, BlockFile.number? name ≠ none → name ∉ added.map Prod.snd →
      after.find? name = before.find? name)
    (hnew : ∀ file ∈ added, BlockFile.number? file.2 = some file.1 ∧ before.find? file.2 = none ∧
      ∃ entry, after.find? file.2 = some entry) : Shows after before added where
  files := by
    rintro ⟨number, name⟩
    rw [BlockFile.mem_list_iff, BlockFile.mem_list_iff]
    by_cases hmem : name ∈ added.map Prod.snd
    · obtain ⟨⟨other, _⟩, hfile, rfl⟩ := List.mem_map.mp hmem
      obtain ⟨hnumber, hnone, hentry⟩ := hnew _ hfile
      constructor
      · rintro ⟨-, hsame⟩
        cases hnumber.symm.trans hsame
        exact .inl hfile
      · rintro (hfile | ⟨⟨entry, hentry⟩, -⟩)
        · exact ⟨hentry, (hnew _ hfile).1⟩
        · cases hnone.symm.trans hentry
    · constructor
      · rintro ⟨hentry, hnumber⟩
        rw [hold name (by rw [hnumber]; nofun) hmem] at hentry
        exact .inr ⟨hentry, hnumber⟩
      · rintro (hfile | ⟨hentry, hnumber⟩)
        · exact absurd (List.mem_map_of_mem hfile) hmem
        · rw [← hold name (by rw [hnumber]; nofun) hmem] at hentry
          exact ⟨hentry, hnumber⟩
  contents := by
    rintro ⟨number, name⟩ hfile
    obtain ⟨⟨entry, hentry⟩, hnumber⟩ := BlockFile.mem_list_iff.mp hfile
    refine BlockFile.read_congr (hold name (by rw [hnumber]; nofun) fun hmem => ?_)
    obtain ⟨⟨other, _⟩, hadded, rfl⟩ := List.mem_map.mp hmem
    cases (hnew _ hadded).2.1.symm.trans hentry

theorem shows_of_eq {before after : Directory}
    (h : ∀ name, BlockFile.number? name ≠ none → after.find? name = before.find? name) : Shows after before [] :=
  shows_of_find? (fun name hname _ => h name hname) nofun

omit [Compression] in
theorem ne_temporaryName {name : String} (h : BlockFile.number? name ≠ none) (number : UInt64) (compress : Bool) :
    name ≠ BlockFile.temporaryName number compress := by
  rintro rfl
  exact h (BlockFile.number?_temporaryName number compress)

/-- A file that does not have its name yet is no block file. -/
theorem shows_drafted (d : Directory) {number : UInt64} {compress : Bool} {framed : Bytes} {done : List FileStep}
    (hcut : FileStep.Cut done (draftSteps number compress framed)) : Shows (d.steps done).2 d [] :=
  shows_of_eq fun _ hname => find?_drafted hcut (ne_temporaryName hname number compress)

/-- **A close that is cut off has added one whole block file or none.** -/
theorem shows_cut (s : FileStore) {done : List FileStep} (hcut : FileStep.Cut done (s.stepsFor .closeBlock)) :
    Shows (s.dir.steps done).2 s.dir [] ∨
      ∃ number framed, s.opened = some (number, framed) ∧
        (number, BlockFile.name number s.compress) ∉ BlockFile.list s.dir ∧
        Shows (s.dir.steps done).2 s.dir [(number, BlockFile.name number s.compress)] ∧
        BlockFile.read (s.dir.steps done).2 (BlockFile.name number s.compress) = .ok framed := by
  simp only [stepsFor] at hcut
  split at hcut
  · cases hcut
    exact .inl (shows_of_eq fun _ _ => rfl)
  · rename_i number framed hopened
    split at hcut
    · cases hcut
      exact .inl (shows_of_eq fun _ _ => rfl)
    · rename_i habsent
      have hnew := Directory.find?_of_contains (Bool.eq_false_iff.mpr habsent)
      rw [closeSteps_eq] at hcut
      rcases hcut.append_cases with hdraft | ⟨later, rfl, hlater⟩
      · exact .inl (shows_drafted _ hdraft)
      · cases hlater with
        | off =>
          rw [List.append_nil]
          exact .inl (shows_drafted _ (FileStep.cut_refl _))
        | cons hnil =>
          cases hnil
          rw [← closeSteps_eq]
          rcases steps_closeSteps hnew framed with ⟨-, e, hrefused⟩ | ⟨after, hdone, hfile, -, hframe⟩
          · rw [hrefused]
            exact .inl (shows_of_eq fun _ _ => rfl)
          · rw [hdone]
            refine .inr ⟨number, framed, hopened, ?_, ?_, BlockFile.read_fileContent hfile⟩
            · rw [BlockFile.mem_list_iff, hnew]
              rintro ⟨⟨_, ⟨⟩⟩, -⟩
            · refine shows_of_find? (fun name hname hother => ?_) fun file hmem => ?_
              · exact hframe name (fun h => hother (List.mem_singleton.mpr h)) (ne_temporaryName hname _ _)
              · obtain rfl := List.mem_singleton.mp hmem
                exact ⟨BlockFile.number?_name _ _, hnew, _, hfile⟩

end FileStore

end RoundChain
