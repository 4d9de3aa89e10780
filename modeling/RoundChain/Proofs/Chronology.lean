import RoundChain.Proofs.NodeRuns
import RoundChain.Proofs.RoundTimes

/-!
# Time goes forward

Whatever the clocks say at the start of sessions, and wherever sessions are cut off, the
blocks of a chain follow one another in time: a block begins later than the one before
ended, `Node.chronology`. A node whose clock is behind goes on one interval after the end
of its chain, so no interval may be zero, which is what validated settings say.

## The model

`StoredFile.Spans` reads the time of a block off its file: that of its header, and that of
the last batch of state changes. It is what verification tells, `Dates.endTime`, so it is
what recovery hands to the next session, `Node.endOf_recovered`.
-/

namespace RoundChain

section

/-! ### Reading times -/

/-- Behind items that end with a batch a reader knows the time of this batch. -/
theorem Verification.readMiddle_concat {number : UInt64} {time endTime : Timestamp} {middle : List Bytes} {last : Bytes}
    {batch : ChangeBatch} (hbatch : decodeItem last = .ok (.stateChanges batch))
    (h : readMiddle number time (middle ++ [last]) = .ok endTime) : endTime = batch.time := by
  induction middle generalizing time with
  | nil =>
    obtain ⟨item, hitem, h⟩ := bind_eq_ok_iff.mp h
    cases hbatch.symm.trans hitem
    exact (Except.ok.inj h).symm
  | cons bs rest ih =>
    obtain ⟨item, -, h⟩ := bind_eq_ok_iff.mp h
    cases item with
    | blockHeader _ => cases h
    | blockProof _ => cases h
    | stateChanges other => exact ih h
    | _ => exact ih h

/-- What a reader makes of the times of a block: its header has the first, and wherever the block is accepted, it
ends with the last. -/
structure Dates (items : List Bytes) (span : Span) : Prop where
  first : ∃ header, Verification.readHeader items = .ok header ∧ header.time = span.first
  endTime : ∀ previous stored, verifyBlock items previous = .ok stored → stored.endTime = span.last

/-- The file of a block that spans this time. -/
def StoredFile.Spans (file : StoredFile) (span : Span) : Prop :=
  ∃ items, splitFrames file.framed = .ok items ∧ Dates items span

/-- A written block has the same span for every reader. -/
theorem StoredFile.spans_of_keeps {w : Written} {file : StoredFile} (hkeeps : FileStore.Keeps w file) {span : Span}
    (h : w.block.Spans span) : file.Spans span := by
  obtain ⟨header, middle, position, hfirst, hlast, hitems⟩ := h
  have hposition : decodeItem (Item.stateChanges position).encode = .ok (.stateChanges position) := by
    refine decodeItem_encode (length_lt_of_frameItems hkeeps _ ?_)
    rw [hitems]
    simp
  refine ⟨_, splitFrames_eq_ok_iff.mpr hkeeps, ⟨header, ?_, hfirst⟩, fun previous stored hstored => ?_⟩
  · have hheader : decodeItem (Item.blockHeader header).encode = .ok (.blockHeader header) :=
      decodeItem_of_countable trivial
    exact Verification.readHeader_eq_ok_iff.mpr ⟨_, _, congrArg (· ++ [w.proof]) hitems, hheader⟩
  · obtain ⟨_, _, _, _, -, -, hmiddle, -, -, -, rfl⟩ := verifyBlock_concat_eq_ok_iff.mp hstored
    rw [hitems, List.tail_cons] at hmiddle
    exact (Verification.readMiddle_concat hposition hmiddle).trans hlast

/-- The end times of accepted blocks are those of their spans. -/
theorem Accepted.endTimes {previous : BlockHash} {expected : Option UInt64} {contents : List (List Bytes)}
    {stored : List FinalizedBlock} (h : Accepted previous expected contents stored) {spans : List Span}
    (hdates : List.Forall₂ Dates contents spans) : stored.map (·.endTime) = spans.map (·.last) := by
  induction h generalizing spans with
  | nil =>
    cases hdates
    rfl
  | cons hverified _ _ _ ih =>
    cases hdates with
    | cons hfirst hrest => rw [List.map_cons, List.map_cons, hfirst.endTime _ _ hverified, ih hrest]

/-- Blocks with spans have headers, and the headers have their first times. -/
theorem exists_headers {contents : List (List Bytes)} {spans : List Span} (h : List.Forall₂ Dates contents spans) :
    ∃ headers, contents.mapM Verification.readHeader = .ok headers ∧ headers.map (·.time) = spans.map (·.first) := by
  simp only [mapM_eq_ok_iff]
  induction h with
  | nil => exact ⟨[], .nil, rfl⟩
  | cons hfirst _ ih =>
    obtain ⟨header, hheader, htime⟩ := hfirst.first
    obtain ⟨headers, hheaders, htimes⟩ := ih
    exact ⟨header :: headers, .cons hheader hheaders, by rw [List.map_cons, List.map_cons, htime, htimes]⟩

/-- Where two lists read alike, they go together. -/
theorem getElem?_of_map_eq {α β γ : Type} {xs : List α} {ys : List β} {f : α → γ} {g : β → γ}
    (h : xs.map f = ys.map g) {i : Nat} {x : α} (hx : xs[i]? = some x) : ∃ y, ys[i]? = some y ∧ f x = g y := by
  have hread := congrArg (·[i]?) h
  simp only [List.getElem?_map, hx, Option.map_some] at hread
  obtain ⟨y, hy, hsame⟩ := Option.map_eq_some_iff.mp hread.symm
  exact ⟨y, hy, hsame.symm⟩

/-! ### Directories -/

variable [Compression]

/-- What can be read in files has their spans. -/
theorem Reads.dates {d : Directory} {i : Nat} {files : List StoredFile} (hreads : Reads d i files)
    {contents : List (List Bytes)} (hopens : List.Forall₂ (Recovery.Opens d) (listing i files) contents)
    {spans : List Span} (hspans : List.Forall₂ StoredFile.Spans files spans) : List.Forall₂ Dates contents spans := by
  induction hspans generalizing i contents with
  | nil =>
    cases hopens
    exact .nil
  | cons hfile _ ih =>
    cases hopens with
    | cons hfirst hrest =>
      obtain ⟨framed, hread, hsplit⟩ := hfirst
      obtain ⟨items, hitems, hdates⟩ := hfile
      cases hread.symm.trans hreads.head
      cases hsplit.symm.trans hitems
      exact .cons hdates (ih hreads.tail hrest)

/-- A directory with the files of a chain whose blocks are one after the other in time. -/
structure Directory.Dated (d : Directory) (files : List StoredFile) (spans : List Span) : Prop where
  holds : d.Holds files
  chain : ∃ last, Chained 0 .zero files last
  dates : List.Forall₂ StoredFile.Spans files spans
  forward : Forward ⊥ spans

namespace Directory.Dated

variable {d : Directory} {files : List StoredFile} {spans : List Span}

theorem empty : Directory.empty.Dated [] [] := ⟨holds_empty, ⟨.zero, .nil⟩, .nil, trivial⟩

/-- The files are a verified chain with these spans. -/
theorem filed (h : d.Dated files spans) :
    ∃ contents stored, Recovery.Filed d (BlockFile.list d) .zero contents stored ∧
      List.Forall₂ Dates contents spans ∧ stored.map (·.endTime) = spans.map (·.last) := by
  obtain ⟨last, hchain⟩ := h.chain
  obtain ⟨contents, stored, hfiled, -⟩ := h.holds.filed hchain
  have hreads : Reads d 0 files := fun j file hj => (Nat.zero_add j).symm ▸ h.holds.read_eq hj
  have hdates := hreads.dates (h.holds.list_eq ▸ hfiled.opens) h.dates
  exact ⟨contents, stored, hfiled, hdates, (verifyChain_eq_ok_iff.mp hfiled.verified).endTimes hdates⟩

end Directory.Dated

end

/-! ### Sessions -/

namespace Node

section

/-- When the chain that a node has recovered ends. -/
def endOf (recovered : Option StreamInfo) : WithBot Timestamp := (recovered.bind (·.lastEndTime)).elim ⊥ (↑)

/-- **A node begins later than its chain ends**, whatever its clock says. -/
theorem endOf_lt_startTime {now time : Timestamp} {recovered : Option StreamInfo} {interval : UInt64}
    (hinterval : interval ≠ 0) (h : startTime now recovered interval = .ok time) : endOf recovered < time := by
  unfold startTime at h
  unfold endOf
  cases hlast : recovered.bind (·.lastEndTime) with
  | none => exact WithBot.bot_lt_coe time
  | some last =>
    simp only [hlast] at h
    refine WithBot.coe_lt_coe.mpr ?_
    split at h
    · rename_i hahead
      cases h
      exact Timestamp.compare_eq_lt.mp hahead
    · exact Timestamp.lt_plusMillis hinterval h

/-- A clock that is ten seconds behind makes no difference. -/
example : startTime ⟨-10, 0⟩
    (some { StreamInfo.anchored .zero ⟨0, 1, 0⟩ with lastEndTime := some ⟨0, 900000000⟩ }) 200 =
      .ok ⟨1, 100000000⟩ := by decide

variable {config : NodeConfig} {dir after : Directory} {files : List StoredFile} {spans : List Span}

theorem intervalMs_of_validate (h : config.validate = .ok ()) : config.rounds.intervalMs ≠ 0 := by
  intro hzero
  obtain ⟨-, -, h⟩ := bind_eq_ok_iff.mp h
  split at h
  · cases h
  split at h
  · cases h
  cases h

/-- The first files of a session have the spans of the first blocks that it closed. -/
theorem exists_spans {written : List Written} {more first : List StoredFile} {closed : List ClosedBlock}
    {spans : List Span} (hkeeps : List.Forall₂ FileStore.Keeps written more)
    (hblocks : written.map Written.block <+: closed) (hspans : List.Forall₂ ClosedBlock.Spans closed spans)
    (hfirst : first <+: more) : ∃ front, front <+: spans ∧ List.Forall₂ StoredFile.Spans first front := by
  induction hkeeps generalizing first closed spans with
  | nil =>
    obtain rfl := List.prefix_nil.mp hfirst
    exact ⟨[], List.nil_prefix, .nil⟩
  | cons hfile _ ih =>
    obtain ⟨blocks, rfl, hrest⟩ := List.cons_prefix_iff.mp hblocks
    cases hspans with
    | cons hspan hspans =>
      cases first with
      | nil => exact ⟨[], List.nil_prefix, .nil⟩
      | cons file first =>
        obtain ⟨rfl, hothers⟩ := List.cons_prefix_cons.mp hfirst
        obtain ⟨front, hfront, hdates⟩ := ih hrest hspans hothers
        exact ⟨_, List.cons_prefix_cons.mpr ⟨rfl, hfront⟩, .cons (StoredFile.spans_of_keeps hfile hspan) hdates⟩

variable [Compression]

/-- What is recovered is when the last block ended. -/
theorem endOf_recovered {d : Directory} {files : List StoredFile} {spans : List Span} (h : d.Dated files spans)
    {version : SoftwareVersion} {limit : Nat} {recovered : Option StreamInfo}
    (htold : Recovery.recover d version limit = .ok recovered) : endOf recovered = lastTime ⊥ spans := by
  obtain ⟨contents, stored, hfiled, -, hends⟩ := h.filed
  by_cases hlist : BlockFile.list d = []
  · have hnone : Recovery.recover d version limit = .ok none := Recovery.recover_eq_none_iff.mpr hlist
    cases hnone.symm.trans htold
    have hstored : stored = [] := by rw [← List.length_eq_zero_iff, hfiled.length_eq, hlist, List.length_nil]
    rw [hstored, List.map_nil, eq_comm, List.map_eq_nil_iff] at hends
    rw [hends]
    rfl
  · cases (hfiled.recover hlist version limit).symm.trans htold
    rcases List.eq_nil_or_concat' stored with rfl | ⟨before, block, rfl⟩
    · exact absurd (List.length_eq_zero_iff.mp hfiled.length_eq.symm) hlist
    rcases List.eq_nil_or_concat' spans with rfl | ⟨earlier, span, rfl⟩
    · simp at hends
    rw [StreamInfo.recordStored_concat, lastTime_concat]
    simp only [List.map_append, List.map_cons, List.map_nil] at hends
    have hlast := (List.append_inj' hends rfl).2
    exact congrArg _ (List.cons.inj hlast).1

variable [Ed25519.Library] [Bls12381.Library]

/-- **A session goes on later than the chain that it found ends**, and what it leaves, cut off or not, is one after
the other in time. -/
theorem LeavesUnder.dated (h : LeavesUnder config dir after) (hvalid : config.validate = .ok ())
    (hdated : dir.Dated files spans) : ∃ files spans, after.Dated files spans := by
  cases h with
  | refused _ => exact ⟨files, spans, hdated⟩
  | worked hstart hcalls halone hlimits hdone =>
    obtain ⟨last, hchain⟩ := hdated.chain
    obtain ⟨recovered, time, hstarts, htime, hsource⟩ := start_eq_ok_source hstart
    have hinterval := intervalMs_of_validate hvalid
    have hlater := endOf_lt_startTime hinterval htime
    rw [endOf_recovered hdated hstarts.told] at hlater
    obtain ⟨-, written, more, final, hblocks, hkeeps, hall, hcut⟩ :=
      hstarts.writes hlimits hcalls halone hdated.holds hchain
    obtain ⟨closed, hclosed, hfollow⟩ := hstarts.timed hlimits hcalls (by rw [hsource]; exact hinterval)
      (by rw [hsource]; exact hlater)
    obtain ⟨first, hfirst, hholds⟩ := hcut _ hdone
    obtain ⟨front, hfront, hdates⟩ := exists_spans hkeeps hblocks hclosed hfirst
    exact ⟨files ++ first, spans ++ front, hholds,
      hall.of_prefix ((List.prefix_append_right_inj files).mpr hfirst), List.rel_append hdated.dates hdates,
      forward_append_iff.mpr ⟨hdated.forward, hfollow.sublist hfront.sublist⟩⟩

/-- What a session of a node with validated settings can leave. -/
def ValidLeaves (dir after : Directory) : Prop := ∃ config, config.validate = .ok () ∧ LeavesUnder config dir after

/-- Sessions with validated settings, one after the other, keep a chain whose blocks are one after the other in
time. -/
theorem exists_dated (h : Relation.ReflTransGen ValidLeaves .empty after) : ∃ files spans, after.Dated files spans := by
  induction h with
  | refl => exact ⟨[], [], .empty⟩
  | tail _ hleaves ih =>
    obtain ⟨files, spans, hdated⟩ := ih
    obtain ⟨config, hvalid, hleaves⟩ := hleaves
    exact hleaves.dated hvalid hdated

/-- Whole runs of nodes with validated settings are among these sessions. -/
theorem validLeaves_runWith (hvalid : config.validate = .ok ()) (now : Timestamp) (rounds : Nat)
    (h : Relation.ReflTransGen ValidLeaves .empty dir) (hlimits : (runWith config now rounds dir).1.exceeds = false) :
    Relation.ReflTransGen ValidLeaves .empty (runWith config now rounds dir).2 := by
  obtain ⟨files, spans, hdated⟩ := exists_dated h
  obtain ⟨last, hchain⟩ := hdated.chain
  exact h.tail ⟨config, hvalid, leavesUnder_runWith config now rounds hdated.holds hchain hlimits⟩

/-- **Time goes forward in a chain, across all restarts.** Start with an empty directory, and let sessions of nodes
with validated settings follow one another over it, with any time on the clock when one begins and each of them
ending by itself or cut off at any step that it takes in the directory. Then the block files are a verified chain,
and each block has a header; no block ends earlier than its header says that it began, and the header of the next
block is later than its end. -/
theorem chronology (h : Relation.ReflTransGen ValidLeaves .empty after) :
    ∃ blocks headers chain,
      (BlockFile.list after).mapM (fun file => Recovery.readItems after file.2) = .ok blocks ∧
        blocks.mapM Verification.readHeader = .ok headers ∧ verifyChain blocks .zero = .ok chain ∧
        headers.length = chain.length ∧
        (∀ (i : Nat) header block, headers[i]? = some header → chain[i]? = some block →
          header.time ≤ block.endTime) ∧
        ∀ (i : Nat) block next, chain[i]? = some block → headers[i + 1]? = some next → block.endTime < next.time := by
  obtain ⟨files, spans, hdated⟩ := exists_dated h
  obtain ⟨contents, stored, hfiled, hdates, hends⟩ := hdated.filed
  obtain ⟨headers, hheaders, hbegins⟩ := exists_headers hdates
  have hread := mapM_eq_ok_iff.mpr (hfiled.opens.imp fun _ _ => Recovery.readItems_eq_ok_iff.mpr)
  refine ⟨contents, headers, stored, hread, hheaders, hfiled.verified, ?_, ?_, ?_⟩
  · rw [← List.length_map (·.time), hbegins, List.length_map, ← List.length_map (·.last), ← hends, List.length_map]
  · intro i header block hheader hblock
    obtain ⟨span, hspan, hbegin⟩ := getElem?_of_map_eq hbegins hheader
    obtain ⟨same, hsame, hend⟩ := getElem?_of_map_eq hends hblock
    cases hspan.symm.trans hsame
    rw [hbegin, hend]
    exact span.ordered
  · intro i block next hblock hnext
    obtain ⟨span, hspan, hend⟩ := getElem?_of_map_eq hends hblock
    obtain ⟨later, hlater, hbegin⟩ := getElem?_of_map_eq hbegins hnext
    rw [hend, hbegin]
    exact hdated.forward.last_lt_first hspan hlater

end

theorem chronology_three_sessions :
    Relation.ReflTransGen ValidLeaves .empty secondLeft ∧
      secondLeft.contains (BlockFile.name 0 false) = true ∧ secondLeft.contains (BlockFile.name 1 false) = true ∧
      ∃ blocks headers chain,
        (BlockFile.list secondLeft).mapM (fun file => Recovery.readItems secondLeft file.2) = .ok blocks ∧
          blocks.mapM Verification.readHeader = .ok headers ∧ verifyChain blocks .zero = .ok chain ∧
          ∀ (i : Nat) block next, chain[i]? = some block → headers[i + 1]? = some next → block.endTime < next.time := by
  have hleaves : Relation.ReflTransGen ValidLeaves .empty secondLeft :=
    Relation.ReflTransGen.mono (fun _ _ h => ⟨oneRoundConfig, rfl, h⟩) _ _ leavesUnder_secondLeft
  obtain ⟨blocks, headers, chain, hblocks, hheaders, hchain, -, -, hforward⟩ := chronology hleaves
  exact ⟨hleaves, secondLeft_spec.2.1, secondLeft_spec.2.2, blocks, headers, chain, hblocks, hheaders, hchain, hforward⟩

end Node

end RoundChain
