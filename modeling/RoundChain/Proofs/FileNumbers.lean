import RoundChain.Libraries
import RoundChain.Proofs.AppendOnce

/-!
# How often a block is stored

A block has two possible file names, one for each setting of the writer, and a writer looks for the
file of its own setting only. So writers that work on a directory one after the other store a block
once for each setting under which they close it. `stored_once_per_setting` says so for all writers,
calls and faults, as long as the file system always finds out whether a file is there: the numbers in
the listing are strictly increasing exactly if no block was closed under both settings. Under one
setting a rewrite with other content is always refused.

## The model

A `FileSession` is the log of one writer with its setting. `Successive` says that sessions follow one
another on a directory that was empty; within each of them the writer `Answers` as the file system
lets it. `closedUnder` are the numbers of the blocks whose close succeeded, as the logs show them.

The step lemma is `FileStore.Answers.shows`: an answer adds the file of the block that it closes, or
no block file.
-/

namespace RoundChain

/-! ### Sessions -/

/-- The numbers of the blocks whose close succeeded. -/
def numbersClosed (log : WriteLog) : List UInt64 := (deliveries log).filterMap Delivery.number

/-- A writer's time on a directory. -/
structure FileSession where
  compress : Bool
  log : WriteLog

/-- The numbers of the blocks that were closed under a setting. -/
def closedUnder (compressed : Bool) (sessions : List FileSession) : List UInt64 :=
  sessions.flatMap fun session => if session.compress = compressed then numbersClosed session.log else []

/-- Writers that were started one after the other on a directory without entries, and what they left. -/
inductive Successive [Compression] : List FileSession → Directory → Prop where
  | none : Successive [] .empty
  | next {sessions : List FileSession} {d : Directory} {compress : Bool} {log : WriteLog} {s : FileStore} :
      Successive sessions d → Answered FileStore.Answers (.new d compress) log s →
      Successive (sessions ++ [⟨compress, log⟩]) s.dir

theorem closedUnder_concat (compressed : Bool) (sessions : List FileSession) (session : FileSession) :
    closedUnder compressed (sessions ++ [session]) = closedUnder compressed sessions ++
      if session.compress = compressed then numbersClosed session.log else [] := by
  rw [closedUnder, List.flatMap_append, List.flatMap_singleton]
  rfl

theorem numbersClosed_concat (log : WriteLog) (entry : WriteCall × Except WriteError Unit)
    (h : entry ≠ (.closeBlock, .ok ())) : numbersClosed (log ++ [entry]) = numbersClosed log := by
  have hquiet : (.closeBlock, .ok ()) ∉ [entry] := fun hmem => h (List.mem_singleton.mp hmem).symm
  rw [numbersClosed, deliveries_append_of_quiet hquiet, numbersClosed]

/-- The block that a log shows as open. -/
def openNumber (log : WriteLog) : Option UInt64 := (log.foldl Reception.hear {}).opened.number

theorem numbersClosed_concat_close {log : WriteLog} {number : UInt64} (h : openNumber log = some number) :
    numbersClosed (log ++ [(.closeBlock, .ok ())]) = numbersClosed log ++ [number] := by
  have hclosed : deliveries (log ++ [(.closeBlock, .ok ())]) =
      deliveries log ++ [(log.foldl Reception.hear {}).opened] := by
    rw [deliveries, List.foldl_append]
    rfl
  have hnumber : Delivery.number (log.foldl Reception.hear {}).opened = some number := h
  rw [numbersClosed, hclosed, List.filterMap_append, List.filterMap_cons_some hnumber, List.filterMap_nil,
    numbersClosed]

/-! ### Answers in a directory -/

theorem BlockFile.mem_list_of_read [Compression] {d : Directory} {number : UInt64} {compressed : Bool} {framed : Bytes}
    (h : BlockFile.read d (BlockFile.name number compressed) = .ok framed) :
    (number, BlockFile.name number compressed) ∈ BlockFile.list d := by
  refine BlockFile.mem_list_iff.mpr ⟨?_, BlockFile.number?_name ..⟩
  cases hfind : d.find? (BlockFile.name number compressed) with
  | some entry => exact ⟨entry, rfl⟩
  | none =>
    rw [BlockFile.read, Directory.contentOf, hfind] at h
    cases h

namespace FileStore

variable [Compression]

variable {s t : FileStore} {call : WriteCall} {answer : Except WriteError Unit}

theorem Answers.compress_eq (h : Answers s call answer t) : t.compress = s.compress := by
  cases h with
  | performed h =>
    by_cases hclose : call = .closeBlock
    · subst hclose
      have hclosed := s.closed_close
      rw [show s.close = _ from h] at hclosed
      cases hclosed <;> rfl
    · rw [perform_eq_fill s hclose] at h
      cases h
      rfl
  | unread => rfl
  | unwritten => rfl

theorem Answers.distinct (h : Answers s call answer t) (hs : s.dir.Distinct) : t.dir.Distinct := by
  cases h with
  | performed h =>
    have hdir := s.dir_perform call
    rw [h] at hdir
    rw [hdir]
    exact hs.steps _
  | unread => exact hs
  | unwritten => exact hs.steps _

/-- A close that succeeded stored the open block: its file is there, and no other can be new. -/
theorem Answers.closes (h : Answers s .closeBlock (.ok ()) t) :
    ∃ number framed, s.opened = some (number, framed) ∧ t.opened = none ∧
      BlockFile.read t.dir (BlockFile.name number s.compress) = .ok framed ∧
      ∃ added, added ⊆ [(number, BlockFile.name number s.compress)] ∧ Shows t.dir s.dir added := by
  obtain ⟨number, framed, hopened, hnone, hstored, -⟩ := appends.closed h
  have hread : BlockFile.read t.dir (BlockFile.name number s.compress) = .ok framed := by
    rw [← h.compress_eq]
    exact read_of_content hstored
  refine ⟨number, framed, hopened, hnone, hread, ?_⟩
  obtain ⟨h⟩ := h
  have hdir := s.dir_perform .closeBlock
  rw [h] at hdir
  rw [hdir]
  rcases s.shows_cut (FileStep.cut_refl _) with hshows | ⟨other, _, hother, -, hshows, -⟩
  · exact ⟨[], List.nil_subset _, hshows⟩
  · cases hopened.symm.trans hother
    exact ⟨_, List.Subset.refl _, hshows⟩

/-- Any other answer leaves all block files as they were. -/
theorem Answers.shows (h : Answers s call answer t) (hclose : (call, answer) ≠ (.closeBlock, .ok ())) :
    Shows t.dir s.dir [] := by
  cases h with
  | performed h =>
    by_cases hcall : call = .closeBlock
    · subst hcall
      have hclosed := s.closed_close
      rw [show s.close = _ from h] at hclosed
      cases hclosed with
      | idle => exact shows_of_eq fun _ _ => rfl
      | unread => exact shows_of_eq fun _ _ => rfl
      | conflict => exact shows_of_eq fun _ _ => rfl
      | repeated => exact absurd rfl hclose
      | stored => exact absurd rfl hclose
      | refused _ hnew hsteps =>
        -- a refused write has not gone beyond its first step
        rcases steps_closeSteps (Directory.find?_of_contains hnew) _ with ⟨-, e, hrefused⟩ | ⟨after, hdone, -⟩
        · cases hrefused.symm.trans hsteps
          exact shows_of_eq fun _ _ => rfl
        · cases hdone.symm.trans hsteps
    · rw [perform_eq_fill s hcall] at h
      cases h
      exact shows_of_eq fun _ _ => rfl
  | unread => exact shows_of_eq fun _ _ => rfl
  | unwritten _ _ _ hcut => exact shows_drafted _ hcut

/-- An answer that is refused leaves the open block. -/
theorem Answers.opened_of_error {e : WriteError} (h : Answers s call (.error e) t) : t.opened = s.opened := by
  cases h with
  | performed h =>
    by_cases hcall : call = .closeBlock
    · subst hcall
      have hclosed := s.closed_close
      rw [show s.close = _ from h] at hclosed
      cases hclosed <;> rfl
    · rw [perform_eq_fill s hcall] at h
      obtain ⟨hrefused, rfl⟩ := Prod.mk.inj h
      cases hfill : s.opened.fill call with
      | error _ => exact OpenBuffer.filled_of_error hfill
      | ok _ =>
        rw [hfill] at hrefused
        cases hrefused
  | unread => rfl
  | unwritten => rfl

/-- The log of a writer shows which block is open. -/
theorem Answers.openNumber {log : WriteLog} (h : Answers s call answer t)
    (hlog : openNumber log = s.opened.map Prod.fst) :
    RoundChain.openNumber (log ++ [(call, answer)]) = t.opened.map Prod.fst := by
  have hheard : RoundChain.openNumber (log ++ [(call, answer)]) =
      ((log.foldl Reception.hear {}).hear (call, answer)).opened.number := by
    rw [RoundChain.openNumber, List.foldl_append]
    rfl
  rw [hheard]
  cases answer with
  | error e =>
    rw [h.opened_of_error, ← hlog]
    rfl
  | ok _ =>
    by_cases hcall : call = .closeBlock
    · subst hcall
      obtain ⟨_, _, -, hnone, -⟩ := h.closes
      rw [hnone]
      rfl
    · obtain ⟨htaken, hopened, -⟩ := appends.filled h hcall
      cases hfill : s.opened.fill call with
      | error _ =>
        rw [hfill] at htaken
        cases htaken
      | ok after =>
        rw [hopened, OpenBuffer.filled_of_ok hfill]
        rcases OpenBuffer.fill_eq_ok hfill with ⟨number, rfl, rfl⟩ | ⟨hopens, number, before, hbefore, rfl⟩
        · rfl
        · rw [hbefore] at hlog
          cases call with
          | openBlock other => exact absurd rfl (hopens other)
          | item bytes => exact hlog
          | items framed => exact hlog
          | closeBlock => exact absurd rfl hcall

theorem answered_append_allOk {s t u : FileStore} {log : WriteLog} {calls : List WriteCall}
    (hlog : Answered Answers s log t) (hcalls : writer.performAll t calls = (.ok (), u)) :
    Answered Answers s (log ++ allOk calls) u := by
  induction calls generalizing t log with
  | nil =>
    cases hcalls
    rw [allOk, List.map_nil, List.append_nil]
    exact hlog
  | cons call rest ih =>
    cases hanswer : (writer.perform t call).1 with
    | error e =>
      rw [performAll_cons_of_error writer hanswer] at hcalls
      cases hcalls
    | ok _ =>
      rw [performAll_cons_of_ok writer hanswer] at hcalls
      have hnext := ih (hlog.concat (.performed (Prod.ext hanswer rfl))) hcalls
      rwa [List.append_assoc] at hnext

/-- Calls that all succeed are answered so. -/
theorem answered_of_performAll {s t : FileStore} {calls : List WriteCall}
    (h : writer.performAll s calls = (.ok (), t)) : Answered Answers s (allOk calls) t :=
  answered_append_allOk .nil h

end FileStore

/-! ### Directories and the blocks that were closed -/

/-- The block files of a directory are those of the blocks that were closed, one for each setting under
which they were, and all of them can be read. -/
structure Directory.Archives [Compression] (d : Directory) (closed : Bool → List UInt64) : Prop where
  distinct : d.Distinct
  listed : ∀ number name, (number, name) ∈ BlockFile.list d ↔
    ∃ compressed, name = BlockFile.name number compressed ∧ number ∈ closed compressed
  readable : ∀ number compressed, number ∈ closed compressed →
    ∃ framed, BlockFile.read d (BlockFile.name number compressed) = .ok framed

namespace Directory.Archives

variable [Compression]

variable {d d' : Directory} {closed : Bool → List UInt64}

theorem empty : Directory.empty.Archives fun _ => [] where
  distinct := List.nodup_nil
  listed number name := by simp [BlockFile.list, Directory.names, Directory.empty]
  readable _ _ h := by cases h

theorem of_shows (h : d.Archives closed) (hdistinct : d'.Distinct) (hshows : FileStore.Shows d' d []) :
    d'.Archives closed where
  distinct := hdistinct
  listed number name := by simpa using (hshows.files _).trans (or_congr_right (h.listed number name))
  readable number compressed hmem := by
    have hfile := (h.listed number _).mpr ⟨compressed, rfl, hmem⟩
    exact hshows.contents _ hfile ▸ h.readable number compressed hmem

theorem of_closes (h : d.Archives closed) (hdistinct : d'.Distinct) {number : UInt64} {compress : Bool}
    {framed : Bytes} (hread : BlockFile.read d' (BlockFile.name number compress) = .ok framed)
    {added : List (UInt64 × String)} (hadded : added ⊆ [(number, BlockFile.name number compress)])
    (hshows : FileStore.Shows d' d added) :
    d'.Archives fun compressed => closed compressed ++ if compress = compressed then [number] else [] where
  distinct := hdistinct
  listed other name := by
    constructor
    · intro hfile
      rcases (hshows.files _).mp hfile with hnew | hold
      · cases List.mem_singleton.mp (hadded hnew)
        exact ⟨compress, rfl, by simp⟩
      · obtain ⟨compressed, hname, hmem⟩ := (h.listed other name).mp hold
        exact ⟨compressed, hname, List.mem_append_left _ hmem⟩
    · rintro ⟨compressed, rfl, hmem⟩
      rcases List.mem_append.mp hmem with hmem | hmem
      · exact (hshows.files _).mpr (.inr ((h.listed other _).mpr ⟨compressed, rfl, hmem⟩))
      · obtain ⟨rfl, rfl⟩ : compress = compressed ∧ other = number := by simpa using hmem
        exact BlockFile.mem_list_of_read hread
  readable other compressed hmem := by
    rcases List.mem_append.mp hmem with hmem | hmem
    · have hfile := (h.listed other _).mpr ⟨compressed, rfl, hmem⟩
      exact hshows.contents _ hfile ▸ h.readable other compressed hmem
    · obtain ⟨rfl, rfl⟩ : compress = compressed ∧ other = number := by simpa using hmem
      exact ⟨framed, hread⟩

/-- **No number is listed twice exactly if no block was closed under both settings.** -/
theorem strict_iff (h : d.Archives closed) :
    (BlockFile.list d).Pairwise (fun a b => a.1 < b.1) ↔
      ∀ number, number ∈ closed true → number ∉ closed false := by
  rw [BlockFile.pairwise_lt_iff h.distinct]
  constructor
  · intro hsame number hcompressed hplain
    have hfiles := hsame _ ((h.listed number _).mpr ⟨true, rfl, hcompressed⟩)
      _ ((h.listed number _).mpr ⟨false, rfl, hplain⟩) rfl
    have hsettings := congrArg (fun file => BlockFile.isCompressed file.2) hfiles
    simp at hsettings
  · rintro hdisjoint ⟨number, name⟩ ha ⟨other, name'⟩ hb hnumber
    obtain rfl : number = other := hnumber
    obtain ⟨compressed, rfl, hfirst⟩ := (h.listed _ _).mp ha
    obtain ⟨compressed', rfl, hsecond⟩ := (h.listed _ _).mp hb
    cases compressed <;> cases compressed'
    · rfl
    · exact absurd hfirst (hdisjoint number hsecond)
    · exact absurd hsecond (hdisjoint number hfirst)
    · rfl

end Directory.Archives

/-! ### Writers one after the other -/

/-- Where a writer stands that was started on a directory, after what is in its log. -/
structure FileStore.Tends [Compression] (d : Directory) (closed : Bool → List UInt64) (compress : Bool) (log : WriteLog)
    (t : FileStore) : Prop where
  compress_eq : t.compress = compress
  opened : openNumber log = t.opened.map Prod.fst
  archives : t.dir.Archives fun compressed =>
    closed compressed ++ if compress = compressed then numbersClosed log else []
  kept : ∀ file ∈ BlockFile.list d, file ∈ BlockFile.list t.dir ∧
    BlockFile.read t.dir file.2 = BlockFile.read d file.2

namespace FileStore.Tends

variable [Compression]

variable {d : Directory} {closed : Bool → List UInt64} {compress : Bool} {log : WriteLog} {s t : FileStore}

theorem new (h : d.Archives closed) : Tends d closed compress [] (.new d compress) where
  compress_eq := rfl
  opened := rfl
  archives := by
    have hnone : (fun compressed => closed compressed ++ if compress = compressed then numbersClosed [] else []) =
        closed := by
      funext compressed
      split <;> exact List.append_nil _
    rw [hnone]
    exact h
  kept _ hfile := ⟨hfile, rfl⟩

theorem kept_of_shows (h : Tends d closed compress log s) {added : List (UInt64 × String)}
    (hshows : Shows t.dir s.dir added) : ∀ file ∈ BlockFile.list d,
      file ∈ BlockFile.list t.dir ∧ BlockFile.read t.dir file.2 = BlockFile.read d file.2 := by
  intro file hfile
  obtain ⟨hlisted, hread⟩ := h.kept file hfile
  exact ⟨(hshows.files file).mpr (.inr hlisted), (hshows.contents file hlisted).trans hread⟩

/-- One answer. -/
theorem answer (h : Tends d closed compress log s) {call : WriteCall} {answer : Except WriteError Unit}
    (hanswer : Answers s call answer t) : Tends d closed compress (log ++ [(call, answer)]) t := by
  have hcompress := hanswer.compress_eq.trans h.compress_eq
  have hdistinct := hanswer.distinct h.archives.distinct
  have hopened := hanswer.openNumber h.opened
  by_cases hclose : (call, answer) = (.closeBlock, .ok ())
  · obtain ⟨rfl, rfl⟩ := Prod.mk.inj hclose
    obtain ⟨number, framed, hopen, -, hread, added, hadded, hshows⟩ := hanswer.closes
    rw [h.compress_eq] at hread hadded
    have hnumber : openNumber log = some number := by rw [h.opened, hopen]; rfl
    have harchives := h.archives.of_closes hdistinct hread hadded hshows
    refine ⟨hcompress, hopened, ?_, h.kept_of_shows hshows⟩
    rw [numbersClosed_concat_close hnumber]
    convert harchives using 2 with compressed
    split <;> simp
  · have hshows := hanswer.shows hclose
    refine ⟨hcompress, hopened, ?_, h.kept_of_shows hshows⟩
    rw [numbersClosed_concat log _ hclose]
    exact h.archives.of_shows hdistinct hshows

/-- A whole session. -/
theorem of_answered (h : d.Archives closed) (hlog : Answered Answers (.new d compress) log t) :
    Tends d closed compress log t := by
  generalize hs : FileStore.new d compress = s at hlog
  induction hlog with
  | nil => exact hs ▸ new h
  | concat _ hanswer ih => exact ih.answer hanswer

end FileStore.Tends

/-- The directory behind any sessions. -/
theorem Successive.archives [Compression] {sessions : List FileSession} {d : Directory} (h : Successive sessions d) :
    d.Archives fun compressed => closedUnder compressed sessions := by
  induction h with
  | none => exact .empty
  | next _ hlog ih =>
    simp only [closedUnder_concat]
    exact (FileStore.Tends.of_answered ih hlog).archives

/-- **A block is stored once per setting.** Writers work on a directory one after the other, each with a
setting of its own, whatever they are told, and whatever fails as long as the system finds out whether a file
is there. At any time, the directory lists, by ascending number and each once, the files of the blocks that
were closed, one for each setting under which they were. So the numbers are strictly increasing if and only if
no block was closed under both settings. What was there when the last writer was started is there with the same
content, and closing a block that was closed before under the same setting succeeds with the content that is
stored and is a conflict with any other. -/
theorem stored_once_per_setting [Compression] {before : List FileSession} {d : Directory}
    (hbefore : Successive before d) {compress : Bool} {log : WriteLog} {s : FileStore}
    (hlog : Answered FileStore.Answers (.new d compress) log s) :
    let sessions := before ++ [⟨compress, log⟩]
    ((BlockFile.list s.dir).Pairwise (fun a b => a.1 ≤ b.1) ∧ (BlockFile.list s.dir).Nodup ∧
      ∀ number name, (number, name) ∈ BlockFile.list s.dir ↔
        ∃ compressed, name = BlockFile.name number compressed ∧ number ∈ closedUnder compressed sessions) ∧
    ((BlockFile.list s.dir).Pairwise (fun a b => a.1 < b.1) ↔
      ∀ number, number ∈ closedUnder true sessions → number ∉ closedUnder false sessions) ∧
    (∀ file ∈ BlockFile.list d, file ∈ BlockFile.list s.dir ∧
      BlockFile.read s.dir file.2 = BlockFile.read d file.2) ∧
    ∀ number framed, s.opened = some (number, framed) → number ∈ closedUnder compress sessions →
      ∃ stored, BlockFile.read s.dir (BlockFile.name number compress) = .ok stored ∧
        s.close = if stored = framed then (.ok (), { s with opened := none })
          else (.error (.conflict number), s) := by
  intro sessions
  have htends := FileStore.Tends.of_answered hbefore.archives hlog
  have harchives : s.dir.Archives fun compressed => closedUnder compressed sessions :=
    (Successive.next hbefore hlog).archives
  refine ⟨⟨BlockFile.pairwise_list _, BlockFile.nodup_list harchives.distinct, harchives.listed⟩,
    harchives.strict_iff, htends.kept, fun number framed hopened hmem => ?_⟩
  obtain ⟨stored, hread⟩ := harchives.readable number compress hmem
  have hown : BlockFile.read s.dir (BlockFile.name number s.compress) = .ok stored := by
    rw [htends.compress_eq]
    exact hread
  exact ⟨stored, hread, FileStore.close_of_read hopened hown⟩

/-- The store behind calls that are all taken. -/
def FileStore.after [Compression] (s : FileStore) (calls : List WriteCall) : FileStore := (writer.performAll s calls).2

/-- A directory in which block 0 was stored in a plain file. -/
def plainDirectory [Compression] : Directory :=
  ((FileStore.new .empty false).after [.openBlock 0, .items [1], .closeBlock]).dir

theorem successive_plainDirectory [Compression] :
    Successive [⟨false, allOk [.openBlock 0, .items [1], .closeBlock]⟩] plainDirectory :=
  .next .none (FileStore.answered_of_performAll rfl)

/-- A block that is closed in a plain file again, with other content. -/
theorem stored_once_per_setting_refused :
    let s := (FileStore.new plainDirectory false).after [.openBlock 0, .items [2]]
    (BlockFile.list s.dir).Pairwise (fun a b => a.1 < b.1) ∧ s.close = (.error (.conflict 0), s) := by
  intro s
  have hlog : Answered FileStore.Answers (.new plainDirectory false) (allOk [.openBlock 0, .items [2]]) s :=
    FileStore.answered_of_performAll rfl
  obtain ⟨-, hstrict, -, hclose⟩ := stored_once_per_setting successive_plainDirectory hlog
  obtain ⟨stored, hread, hanswer⟩ := hclose 0 [2] rfl (by decide)
  have hcontent : stored = [1] := (Except.ok.inj hread).symm
  rw [hcontent] at hanswer
  exact ⟨hstrict.mpr fun number hmem => absurd hmem List.not_mem_nil, hanswer⟩

/-- A block that is closed in a plain file and then, with other content, in a compressed one: both closes succeed,
both files are there, and the number of the block is listed twice. -/
theorem stored_under_both_settings :
    let calls := [.openBlock 0, .items [2], .closeBlock]
    let s := (FileStore.new plainDirectory true).after calls
    (FileStore.writer.performAll (.new plainDirectory true) calls).1 = .ok () ∧
      BlockFile.read s.dir (BlockFile.name 0 false) = .ok [1] ∧
      BlockFile.read s.dir (BlockFile.name 0 true) = .ok [2] ∧
      ¬ (BlockFile.list s.dir).Pairwise (fun a b => a.1 < b.1) := by
  intro calls s
  have hlog : Answered FileStore.Answers (.new plainDirectory true) (allOk calls) s :=
    FileStore.answered_of_performAll rfl
  have hfile : s.dir.find? (BlockFile.name 0 true) = some (.file (BlockFile.fileContent true [2])) := rfl
  refine ⟨rfl, rfl, BlockFile.read_fileContent hfile, fun hstrict => ?_⟩
  have hdisjoint := (successive_plainDirectory.next hlog).archives.strict_iff.mp hstrict
  exact hdisjoint 0 (by decide) (by decide)

end RoundChain
