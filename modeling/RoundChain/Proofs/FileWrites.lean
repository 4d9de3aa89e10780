import RoundChain.Proofs.BlockFiles
import RoundChain.Proofs.Replay
import RoundChain.Proofs.StoreCalls

/-!
# Block files as they are written

What a session does to a directory of block files is read off the log of its store: only
closing a block takes steps. A directory that holds some blocks holds, wherever these steps
are cut off, the same blocks and behind them the first of those that were written,
`FileStore.cut_of_log`.

## The model

`FileStore.stepsAlong` are the steps of a list of calls, made one after the other. Calls
that `Fills` a block take none, so a failed attempt leaves the directory as it was; and the
close of the next block of a directory does not fail, `FileStore.closes_next`.
-/

namespace RoundChain

namespace FileStore

variable [Compression]

/-- The steps that a call takes in the directory. -/
def stepsFor (s : FileStore) : WriteCall → List FileStep
  | .closeBlock =>
    match s.opened with
    | none => []
    | some (number, framed) =>
      if s.dir.contains (BlockFile.name number s.compress) then [] else closeSteps number s.compress framed
  | _ => []

/-- The steps that calls take in the directory, one after the other. -/
def stepsAlong (s : FileStore) : List WriteCall → List FileStep
  | [] => []
  | call :: rest => s.stepsFor call ++ (s.perform call).2.stepsAlong rest

/-- A call does to the directory what its steps do. -/
theorem dir_perform (s : FileStore) (call : WriteCall) :
    (s.perform call).2.dir = (s.dir.steps (s.stepsFor call)).2 := by
  cases call with
  | closeBlock =>
    simp only [perform, close, stepsFor]
    cases s.opened with
    | none => rfl
    | some buffer =>
      obtain ⟨number, framed⟩ := buffer
      simp only
      split
      · split
        · rfl
        · split <;> rfl
      · rw [writeFile, ← Prod.eta (s.dir.steps (closeSteps number s.compress framed))]
        cases (s.dir.steps (closeSteps number s.compress framed)).1 <;> rfl
  | openBlock number =>
    simp only [perform]
    split <;> rfl
  | item bytes =>
    simp only [perform]
    split <;> rfl
  | items framed =>
    simp only [perform]
    split <;> rfl

/-! ### Filling a block -/

/-- No block is open, or the block with this number is. -/
def Ready (s : FileStore) (number : UInt64) : Prop :=
  s.opened = none ∨ ∃ content, s.opened = some (number, content)

/-- A call that fills the block with this number. -/
def Fills (number : UInt64) : WriteCall → Prop
  | .openBlock opened => opened = number
  | .closeBlock => False
  | _ => True

/-- The store in which only the open block may have changed. -/
structure Filling (s t : FileStore) (number : UInt64) : Prop where
  dir : t.dir = s.dir
  compress : t.compress = s.compress
  ready : t.Ready number

omit [Compression] in
theorem Fills.ne_close {number : UInt64} {call : WriteCall} (h : Fills number call) : call ≠ .closeBlock := by
  rintro rfl
  exact h

theorem filling_perform {s : FileStore} {number : UInt64} (hready : s.Ready number) {call : WriteCall}
    (hcall : Fills number call) : s.Filling (s.perform call).2 number ∧ s.stepsFor call = [] := by
  rw [perform_eq_fill s hcall.ne_close]
  constructor
  · refine ⟨rfl, rfl, ?_⟩
    cases hfill : s.opened.fill call with
    | error e =>
      rw [OpenBuffer.filled_of_error hfill]
      exact hready
    | ok after =>
      rw [OpenBuffer.filled_of_ok hfill]
      rcases OpenBuffer.fill_eq_ok hfill with ⟨other, rfl, rfl⟩ | ⟨-, other, before, hbefore, rfl⟩
      · obtain rfl : other = number := hcall
        exact .inr ⟨[], rfl⟩
      · rcases hready with hnone | ⟨content, hopened⟩
        · cases hnone.symm.trans hbefore
        · cases hopened.symm.trans hbefore
          exact .inr ⟨_, rfl⟩
  · cases call with
    | closeBlock => cases hcall
    | _ => rfl

omit [Compression] in
theorem Filling.trans {s t u : FileStore} {number : UInt64} (h : s.Filling t number)
    (h' : t.Filling u number) : s.Filling u number :=
  ⟨h'.dir.trans h.dir, h'.compress.trans h.compress, h'.ready⟩

/-- Calls that fill a block take no steps. -/
theorem filling_replays {s t : FileStore} {number : UInt64} {log : WriteLog} (hready : s.Ready number)
    (h : Replays writer s log t) (hlog : ∀ entry ∈ log, Fills number entry.1) :
    s.Filling t number ∧ s.stepsAlong (log.map Prod.fst) = [] := by
  induction h with
  | nil => exact ⟨⟨rfl, rfl, hready⟩, rfl⟩
  | @cons s t call rest _ ih =>
    obtain ⟨hfilling, hnone⟩ := filling_perform hready (hlog _ List.mem_cons_self)
    obtain ⟨hrest, hnothing⟩ := ih hfilling.ready fun entry he => hlog entry (List.mem_cons_of_mem _ he)
    refine ⟨hfilling.trans hrest, ?_⟩
    rw [List.map_cons, stepsAlong, hnone]
    exact hnothing

theorem stepsAlong_append {s t : FileStore} {a b : WriteLog} (h : Replays writer s a t) :
    s.stepsAlong ((a ++ b).map Prod.fst) =
      s.stepsAlong (a.map Prod.fst) ++ t.stepsAlong (b.map Prod.fst) := by
  induction h with
  | nil => rfl
  | cons _ ih =>
    rw [List.cons_append, List.map_cons, List.map_cons, stepsAlong, stepsAlong, List.append_assoc]
    exact congrArg _ ih

theorem replays_cons_iff {s t : FileStore} {call : WriteCall} {answer : Except WriteError Unit}
    {rest : WriteLog} :
    Replays writer s ((call, answer) :: rest) t ↔
      (s.perform call).1 = answer ∧ Replays writer (s.perform call).2 rest t := by
  constructor
  · intro h
    cases h with
    | cons hrest => exact ⟨rfl, hrest⟩
  · rintro ⟨rfl, hrest⟩
    exact .cons hrest

/-- The items that were taken are in the open block. -/
theorem opened_of_items {s t : FileStore} {number : UInt64} {content : Bytes} {batches : List Bytes}
    (hopened : s.opened = some (number, content))
    (h : Replays writer s (allOk (batches.map .items)) t) :
    t.opened = some (number, content ++ batches.flatten) := by
  induction batches generalizing s content with
  | nil =>
    cases h
    rw [List.flatten_nil, List.append_nil]
    exact hopened
  | cons batch rest ih =>
    obtain ⟨-, hrest⟩ := replays_cons_iff.mp h
    have hnext : (s.perform (.items batch)).2.opened = some (number, content ++ batch) := by
      simp only [perform, OpenBuffer.add, hopened]
    rw [ih hnext hrest, List.flatten_cons, List.append_assoc]

/-- The block that was filled: its batches, and the proof in its frame. -/
theorem opened_of_filled {s t : FileStore} {number : UInt64} {batches : List Bytes} {proof : Bytes}
    (h : Replays writer s (allOk (.openBlock number :: (batches.map .items ++ [.item proof]))) t) :
    ∃ framed, frame proof = .ok framed ∧ t.opened = some (number, batches.flatten ++ framed) := by
  obtain ⟨hopen, hrest⟩ := replays_cons_iff.mp h
  have hopened : (s.perform (.openBlock number)).2.opened = some (number, []) := by
    have hopens : WriteCall.openBlock number ≠ .closeBlock := nofun
    rw [perform_eq_fill s hopens] at hopen ⊢
    cases hfill : s.opened.fill (.openBlock number) with
    | error e =>
      rw [hfill] at hopen
      cases hopen
    | ok after => exact (OpenBuffer.filled_of_ok hfill).trans (OpenBuffer.start_eq_ok hfill)
  have hsplit : allOk (batches.map .items ++ [.item proof]) =
      allOk (batches.map .items) ++ allOk [.item proof] := List.map_append
  have hrest' : Replays writer (s.perform (.openBlock number)).2
      (allOk (batches.map .items) ++ allOk [.item proof]) t := hsplit ▸ hrest
  obtain ⟨u, hitems, hlast⟩ := replays_append_iff.mp hrest'
  have hfilled := opened_of_items hopened hitems
  obtain ⟨hitem, hend⟩ := replays_cons_iff.mp hlast
  cases hend
  simp only [perform, OpenBuffer.addItem, hfilled] at hitem ⊢
  cases hframe : frame proof with
  | error e =>
    rw [hframe] at hitem
    cases hitem
  | ok framed => exact ⟨framed, rfl, rfl⟩

omit [Compression] in
theorem fills_of_mem {number : UInt64} (batches : List Bytes) (proof : Bytes) {call : WriteCall}
    (h : call ∈ .openBlock number :: (batches.map WriteCall.items ++ [.item proof])) : Fills number call := by
  rcases List.mem_cons.mp h with rfl | h
  · rfl
  rcases List.mem_append.mp h with h | h
  · obtain ⟨batch, -, rfl⟩ := List.mem_map.mp h
    trivial
  · obtain rfl := List.mem_singleton.mp h
    trivial

omit [Compression] in
theorem map_fst_allOk (calls : List WriteCall) : (allOk calls).map Prod.fst = calls := by
  rw [allOk, List.map_map]
  exact List.map_id _

theorem filling_of_allOk {s t : FileStore} {number : UInt64} {batches : List Bytes} {proof : Bytes}
    (hready : s.Ready number)
    (h : Replays writer s (allOk (.openBlock number :: (batches.map .items ++ [.item proof]))) t) :
    s.Filling t number ∧
      s.stepsAlong (.openBlock number :: (batches.map .items ++ [.item proof])) = [] := by
  have hfill := filling_replays hready h fun entry he => by
    obtain ⟨call, hcall, rfl⟩ := List.mem_map.mp he
    exact fills_of_mem batches proof hcall
  rw [map_fst_allOk] at hfill
  exact hfill

/-! ### Closing a block -/

variable {files : List StoredFile}

/-- What closing the next block leaves. -/
structure Closes (s : FileStore) (files : List StoredFile) (number : UInt64) (framed : Bytes) : Prop where
  answer : (s.perform .closeBlock).1 = .ok ()
  opened : (s.perform .closeBlock).2.opened = none
  steps : s.stepsFor .closeBlock = closeSteps number s.compress framed
  dir : s.dir.steps (s.stepsFor .closeBlock) = (.ok (), (s.perform .closeBlock).2.dir)
  holds : (s.perform .closeBlock).2.dir.Holds (files ++ [⟨s.compress, framed⟩])
  cut : ∀ done, FileStep.Cut done (s.stepsFor .closeBlock) →
    (s.dir.steps done).2.Holds files ∨ (s.dir.steps done).2.Holds (files ++ [⟨s.compress, framed⟩])

/-- The next block of a directory can be closed. -/
theorem closes_next {s : FileStore} (hholds : s.dir.Holds files) {number : UInt64}
    (hnumber : number.toNat = files.length) {framed : Bytes} (hopened : s.opened = some (number, framed)) :
    s.Closes files number framed := by
  obtain ⟨⟨hok, hnext⟩, hcut⟩ := hholds.closeSteps hnumber ⟨s.compress, framed⟩
  have habsent : s.dir.contains (BlockFile.name number s.compress) = false := by
    rw [Directory.contains, hholds.find?_next hnumber]
    rfl
  have hsteps : s.stepsFor .closeBlock = closeSteps number s.compress framed := by
    simp only [stepsFor, hopened, habsent, Bool.false_eq_true, if_false]
  have hresult : s.dir.steps (closeSteps number s.compress framed) =
      (.ok (), (s.dir.steps (closeSteps number s.compress framed)).2) := Prod.ext hok rfl
  have hclose : s.perform .closeBlock =
      (.ok (), { s with dir := (s.dir.steps (closeSteps number s.compress framed)).2, opened := none }) :=
    close_of_steps hopened (hholds.find?_next hnumber s.compress) hresult
  refine ⟨congrArg Prod.fst hclose, ?_, hsteps, ?_, ?_, hsteps ▸ hcut⟩
  · rw [hclose]
  · rw [hsteps, hclose]
    exact hresult
  · rw [hclose]
    exact hnext

/-- An attempt that failed has left no trace in the directory. -/
theorem filling_of_tried {s t : FileStore} {number : UInt64} {batches : List Bytes} {proof : Bytes}
    {log : WriteLog} (htried : Tried (blockCalls number batches proof) log) (h : Replays writer s log t)
    (hready : s.Ready number) (hholds : s.dir.Holds files) (hnumber : number.toNat = files.length) :
    s.Filling t number ∧ s.stepsAlong (log.map Prod.fst) = [] := by
  obtain ⟨before, call, after, e, hcalls, rfl⟩ := htried
  rw [blockCalls_eq] at hcalls
  rcases List.eq_nil_or_concat after with rfl | ⟨later, last, rfl⟩
  · -- only closing can have failed, and it cannot
    obtain ⟨rfl, hlast⟩ := List.append_inj' hcalls rfl
    obtain rfl := (List.cons.inj hlast).1
    obtain ⟨u, hfilled, hclose⟩ := replays_append_iff.mp h
    obtain ⟨hfilling, -⟩ := filling_of_allOk hready hfilled
    obtain ⟨framed, -, hopened⟩ := opened_of_filled hfilled
    have hcloses := closes_next (hfilling.dir ▸ hholds) hnumber hopened
    obtain ⟨hanswer, -⟩ := replays_cons_iff.mp hclose
    rw [hcloses.answer] at hanswer
    cases hanswer
  · have hsplit : before ++ call :: later.concat last = (before ++ call :: later) ++ [last] := by simp
    obtain ⟨hfront, -⟩ := List.append_inj' (hcalls.trans hsplit) rfl
    refine filling_replays hready h fun entry he => fills_of_mem batches proof ?_
    rw [hfront]
    rcases List.mem_append.mp he with he | he
    · obtain ⟨c, hc, rfl⟩ := List.mem_map.mp he
      exact List.mem_append_left _ hc
    · obtain rfl := List.mem_singleton.mp he
      exact List.mem_append_right _ List.mem_cons_self

theorem filling_of_attempted {s t : FileStore} {number : UInt64} {batches : List Bytes} {proof : Bytes}
    {log : WriteLog} (hattempted : Attempted (blockCalls number batches proof) log)
    (h : Replays writer s log t) (hready : s.Ready number) (hholds : s.dir.Holds files)
    (hnumber : number.toNat = files.length) :
    s.Filling t number ∧ s.stepsAlong (log.map Prod.fst) = [] := by
  obtain ⟨tries, htries, rfl⟩ := hattempted
  induction tries generalizing s with
  | nil =>
    cases h
    exact ⟨⟨rfl, rfl, hready⟩, rfl⟩
  | cons first rest ih =>
    obtain ⟨u, hfirst, hrest⟩ := replays_append_iff.mp h
    obtain ⟨hfilling, hnone⟩ :=
      filling_of_tried (htries first List.mem_cons_self) hfirst hready hholds hnumber
    obtain ⟨hmore, hnothing⟩ := ih hfilling.ready (hfilling.dir ▸ hholds)
      (fun log hlog => htries log (List.mem_cons_of_mem _ hlog)) hrest
    refine ⟨hfilling.trans hmore, ?_⟩
    rw [List.flatten_cons, stepsAlong_append hfirst, hnone]
    exact hnothing

/-! ### Blocks written one after the other -/

/-- Steps that add files to the blocks of a directory: together they add all, and cut off, the first of
them. -/
structure Stores (s t : FileStore) (steps : List FileStep) (files more : List StoredFile) : Prop where
  closed : t.opened = none
  whole : s.dir.steps steps = (.ok (), t.dir)
  holds : t.dir.Holds (files ++ more)
  cut : ∀ done, FileStep.Cut done steps → ∃ first, first <+: more ∧ (s.dir.steps done).2.Holds (files ++ first)

theorem stores_nothing {s : FileStore} (hholds : s.dir.Holds files) (hclosed : s.opened = none) :
    s.Stores s [] files [] where
  closed := hclosed
  whole := rfl
  holds := (List.append_nil files).symm ▸ hholds
  cut done hdone := by
    cases hdone
    exact ⟨[], List.prefix_rfl, (List.append_nil files).symm ▸ hholds⟩

theorem Stores.append {s t u : FileStore} {a b : List FileStep} {more later : List StoredFile}
    (h : s.Stores t a files more) (h' : t.Stores u b (files ++ more) later) :
    s.Stores u (a ++ b) files (more ++ later) where
  closed := h'.closed
  whole := (Directory.steps_append_of_ok h.whole b).trans h'.whole
  holds := List.append_assoc files more later ▸ h'.holds
  cut done hdone := by
    rcases hdone.append_cases with hcut | ⟨rest, rfl, hrest⟩
    · obtain ⟨first, hfirst, hholds⟩ := h.cut done hcut
      exact ⟨first, hfirst.trans (List.prefix_append ..), hholds⟩
    · obtain ⟨first, hfirst, hholds⟩ := h'.cut rest hrest
      refine ⟨more ++ first, (List.prefix_append_right_inj more).mpr hfirst, ?_⟩
      rw [Directory.steps_append_of_ok h.whole rest, ← List.append_assoc]
      exact hholds

/-- A file keeps a block: the frames of its items and of its proof. -/
def Keeps (w : Written) (file : StoredFile) : Prop := frameItems (w.block.items ++ [w.proof]) = .ok file.framed

/-- A block that is written is the next file. -/
theorem stores_of_storing {s t : FileStore} {size : Nat} {w : Written} {log : WriteLog}
    (hstoring : w.Storing size log) (h : Replays writer s log t) (hclosed : s.opened = none)
    (hholds : s.dir.Holds files) (hnumber : w.block.number.toNat = files.length) :
    ∃ file, Keeps w file ∧ s.Stores t (s.stepsAlong (log.map Prod.fst)) files [file] := by
  obtain ⟨batches, tries, hframes, htries, rfl⟩ := hstoring
  obtain ⟨u, htried, hwritten⟩ := replays_append_iff.mp h
  obtain ⟨hfirst, hnothing⟩ := filling_of_attempted htries htried (.inl hclosed) hholds hnumber
  have hsplit : allOk (blockCalls w.block.number batches w.proof) =
      allOk (.openBlock w.block.number :: (batches.map .items ++ [.item w.proof])) ++ allOk [.closeBlock] := by
    rw [blockCalls_eq]
    exact List.map_append
  rw [hsplit] at hwritten ⊢
  obtain ⟨v, hfilled, hclose⟩ := replays_append_iff.mp hwritten
  obtain ⟨hmore, hnone⟩ := filling_of_allOk hfirst.ready hfilled
  obtain ⟨framed, hproof, hopened⟩ := opened_of_filled hfilled
  have hfilling := hfirst.trans hmore
  have hcloses := closes_next (hfilling.dir ▸ hholds) hnumber hopened
  obtain ⟨-, hlast⟩ := replays_cons_iff.mp hclose
  cases hlast
  have hsteps : v.stepsAlong ((allOk [.closeBlock]).map Prod.fst) = v.stepsFor .closeBlock := List.append_nil _
  rw [stepsAlong_append htried, stepsAlong_append hfilled, hnothing, map_fst_allOk, hnone, List.nil_append,
    List.nil_append, hsteps]
  refine ⟨⟨v.compress, batches.flatten ++ framed⟩,
    frameItems_append (frameItems_of_frameBatches hframes) (frameItems_singleton hproof), hcloses.opened, ?_,
    hcloses.holds, ?_⟩
  · rw [← hfilling.dir]
    exact hcloses.dir
  · intro done hdone
    rw [← hfilling.dir]
    rcases hcloses.cut done hdone with hbefore | hafter
    · exact ⟨[], List.nil_prefix, (List.append_nil files).symm ▸ hbefore⟩
    · exact ⟨_, List.prefix_rfl, hafter⟩

/-- **Blocks that are written one after the other are the next files.** -/
theorem stores_of_stored {s t : FileStore} {size : Nat} {ws : List Written} {log : WriteLog}
    (hstored : Stored size ws log) (h : Replays writer s log t) (hclosed : s.opened = none)
    (hholds : s.dir.Holds files)
    (hnumber : ∀ i w, ws[i]? = some w → w.block.number.toNat = files.length + i) :
    ∃ more, List.Forall₂ Keeps ws more ∧ s.Stores t (s.stepsAlong (log.map Prod.fst)) files more := by
  induction hstored generalizing t with
  | nil =>
    cases h
    exact ⟨[], .nil, stores_nothing hholds hclosed⟩
  | @concat ws log later w _ hstoring ih =>
    obtain ⟨u, hbefore, hafter⟩ := replays_append_iff.mp h
    obtain ⟨more, hkeeps, hstores⟩ := ih hbefore fun i v hv =>
      hnumber i v ((List.getElem?_append_left (List.getElem?_eq_some_iff.mp hv).1).trans hv)
    have hnext : w.block.number.toNat = (files ++ more).length := by
      rw [List.length_append, ← hkeeps.length_eq]
      exact hnumber ws.length w (List.getElem?_concat_length ..)
    obtain ⟨file, hfile, hlast⟩ := stores_of_storing hstoring hafter hstores.closed hstores.holds hnext
    refine ⟨more ++ [file], List.rel_append hkeeps (.cons hfile .nil), ?_⟩
    rw [stepsAlong_append hbefore]
    exact hstores.append hlast

/-- **What is in a directory when writing is cut off**: the files that were there, and the first of the blocks
that were written. Attempts to write one more leave nothing. If nothing cuts it off, writing does just these
steps. -/
theorem cut_of_log {s t : FileStore} {size : Nat} {ws : List Written} {log trying : WriteLog}
    (hstored : Stored size ws log)
    (htrying : trying = [] ∨
      ∃ next : Written, next.Trying size trying ∧ next.block.number.toNat = files.length + ws.length)
    (h : Replays writer s (log ++ trying) t) (hclosed : s.opened = none) (hholds : s.dir.Holds files)
    (hnumber : ∀ i w, ws[i]? = some w → w.block.number.toNat = files.length + i) :
    ∃ more, List.Forall₂ Keeps ws more ∧
      t.dir = (s.dir.steps (s.stepsAlong ((log ++ trying).map Prod.fst))).2 ∧
      ∀ done, FileStep.Cut done (s.stepsAlong ((log ++ trying).map Prod.fst)) →
        ∃ first, first <+: more ∧ (s.dir.steps done).2.Holds (files ++ first) := by
  obtain ⟨u, hbefore, hafter⟩ := replays_append_iff.mp h
  obtain ⟨more, hkeeps, hstores⟩ := stores_of_stored hstored hbefore hclosed hholds hnumber
  have hnothing : t.dir = u.dir ∧ u.stepsAlong (trying.map Prod.fst) = [] := by
    rcases htrying with rfl | ⟨next, ⟨batches, -, hattempted⟩, hnext⟩
    · cases hafter
      exact ⟨rfl, rfl⟩
    · rw [hkeeps.length_eq, ← List.length_append] at hnext
      obtain ⟨hfilling, hnone⟩ :=
        filling_of_attempted hattempted hafter (.inl hstores.closed) hstores.holds hnext
      exact ⟨hfilling.dir, hnone⟩
  rw [stepsAlong_append hbefore, hnothing.2, List.append_nil]
  exact ⟨more, hkeeps, by rw [hnothing.1, hstores.whole], hstores.cut⟩

end FileStore

end RoundChain
