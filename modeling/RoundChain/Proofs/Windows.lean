import RoundChain.Libraries
import RoundChain.Proofs.BlockFiles
import RoundChain.Proofs.TrailingHashes
import RoundChain.Proofs.VerifiedChains
import RoundChain.Store.Recovery

/-!
# Recovery from a window

Recovery checks the newest files of a directory in a loop of its own. It accepts them exactly if a
reader accepts them as a chain behind the hash that the first of them names, with the numbers that
the files promise, and it tells the position behind them: `recover_window`. Older files are not
opened. Where they are part of the chain as well, the position is the one behind the whole chain,
since no more trailing hashes are kept than the window has files.

## The model

`StreamInfo.recordStored` records accepted blocks one after the other. `Opens d file items` says that
a file can be read and what whole frames it holds; `Filed d files anchor contents stored` says that
files are a chain, with the numbers that they promise.
-/

namespace RoundChain

/-! ### Recording blocks -/

namespace StreamInfo

/-- The position behind accepted blocks, recorded one after the other. -/
def recordStored (info : StreamInfo) (blocks : List FinalizedBlock) (limit : Nat) : StreamInfo :=
  blocks.foldl (fun info block => info.record block.number block.hash block.endTime limit) info

theorem rtake_concat_rtake {α : Type} (xs : List α) (x : α) (n : Nat) :
    (xs.rtake n ++ [x]).rtake n = (xs ++ [x]).rtake n := by
  rw [← List.rtake_concat_succ, rtake_rtake, Nat.min_eq_left (Nat.le_succ n)]

/-- **The position behind a chain tells its last block and its newest hashes.** -/
theorem recordStored_concat (anchor : BlockHash) (version : SoftwareVersion) (blocks : List FinalizedBlock)
    (block : FinalizedBlock) (limit : Nat) :
    (anchored anchor version).recordStored (blocks ++ [block]) limit =
      { lastNumber := some block.number, lastHash := block.hash, lastEndTime := some block.endTime
        trailing := ((blocks ++ [block]).map (·.hash)).rtake limit, createdBy := version } := by
  induction blocks using List.reverseRecOn generalizing block with
  | nil => rfl
  | append_singleton blocks before ih =>
    have hlast : (anchored anchor version).recordStored (blocks ++ [before] ++ [block]) limit =
        ((anchored anchor version).recordStored (blocks ++ [before]) limit).record block.number block.hash
          block.endTime limit := List.foldl_concat ..
    have hkept : (((blocks ++ [before]).map (·.hash)).rtake limit ++ [block.hash]).rtake limit =
        ((blocks ++ [before] ++ [block]).map (·.hash)).rtake limit := by
      rw [rtake_concat_rtake]
      simp only [List.map_append, List.map_cons, List.map_nil]
    rw [hlast, ih, ← hkept]
    rfl

/-- The position behind a chain is that behind its newest blocks, if no more hashes are kept than they have;
the hash that they continue does not count. -/
theorem recordStored_append (anchor other : BlockHash) (version : SoftwareVersion) {front back : List FinalizedBlock}
    {limit : Nat} (hback : back ≠ []) (hlimit : front ≠ [] → limit ≤ back.length) :
    (anchored anchor version).recordStored (front ++ back) limit =
      (anchored other version).recordStored back limit := by
  have hkept : ((front ++ back).map (·.hash)).rtake limit = (back.map (·.hash)).rtake limit := by
    by_cases hfront : front = []
    · rw [hfront, List.nil_append]
    · rw [List.map_append, List.rtake_eq_reverse_take_reverse, List.rtake_eq_reverse_take_reverse,
        List.reverse_append, List.take_append_of_le_length]
      rw [List.length_reverse, List.length_map]
      exact hlimit hfront
  rw [← List.dropLast_concat_getLast hback] at hkept ⊢
  rw [← List.append_assoc] at hkept ⊢
  rw [recordStored_concat, recordStored_concat, hkept]

end StreamInfo

namespace Recovery

section

variable [Compression] {d : Directory} {limit : Nat} {info after : StreamInfo}

/-! ### Files -/

/-- The file can be read, and these are the whole frames that it holds. -/
def Opens (d : Directory) (file : UInt64 × String) (items : List Bytes) : Prop :=
  ∃ framed, BlockFile.read d file.2 = .ok framed ∧ splitFrames framed = .ok items

theorem readItems_eq_ok_iff {file : UInt64 × String} {items : List Bytes} :
    readItems d file.2 = .ok items ↔ Opens d file items := by
  rw [readItems, bind_eq_ok_iff]
  refine exists_congr fun framed => and_congr_left fun _ => ?_
  cases BlockFile.read d file.2 <;> simp [reading, Except.mapError]

omit [Compression] in
theorem anchorOf_eq_ok_iff {number : UInt64} {items : List Bytes} {anchor : BlockHash} :
    anchorOf number items = .ok anchor ↔ Names items anchor := by
  unfold anchorOf Names
  cases items.getLast? with
  | none => simp [Verification.broken]
  | some last =>
    simp only [bind_eq_ok_iff, Option.some.injEq]
    constructor
    · rintro ⟨item, hitem, h⟩
      cases item with
      | blockProof proof => exact ⟨last, proof, rfl, hitem, Except.ok.inj h⟩
      | _ => cases h
    · rintro ⟨_, proof, rfl, hproof, rfl⟩
      exact ⟨_, hproof, rfl⟩

/-- Files, one after the other, are a chain that a reader accepts behind a hash, and each has the number of
its block. -/
structure Filed (d : Directory) (files : List (UInt64 × String)) (anchor : BlockHash) (contents : List (List Bytes))
    (stored : List FinalizedBlock) : Prop where
  opens : List.Forall₂ (Opens d) files contents
  verified : verifyChain contents anchor = .ok stored
  numbers : stored.map (·.number) = files.map (·.1)

theorem Filed.length_eq {files : List (UInt64 × String)} {anchor : BlockHash} {contents : List (List Bytes)}
    {stored : List FinalizedBlock} (h : Filed d files anchor contents stored) : stored.length = files.length := by
  have hnumbers := congrArg List.length h.numbers
  rwa [List.length_map, List.length_map] at hnumbers

/-! ### Recording files -/

omit [Compression] in
theorem recordFile_eq_ok_iff {expected number next : UInt64} {items : List Bytes} :
    recordFile limit info expected number items = .ok (after, next) ↔
      ∃ block, verifyBlock items info.lastHash = .ok block ∧ block.number = number ∧ block.number = expected ∧
        nextWord (ε := StreamError) block.number = .ok next ∧
        after = info.record block.number block.hash block.endTime limit := by
  rw [recordFile, bind_eq_ok_iff]
  refine exists_congr fun block => ?_
  rw [Checked.ofExcept_eq_ok_iff]
  refine and_congr_right fun _ => ?_
  by_cases hnumber : block.number ≠ number ∨ block.number ≠ expected
  · rw [if_pos hnumber]
    constructor
    · intro h
      cases h
    · rintro ⟨rfl, rfl, -⟩
      exact absurd hnumber (by simp)
  · rw [if_neg hnumber]
    obtain ⟨rfl, hexpected⟩ := not_or.mp hnumber |>.imp not_not.mp not_not.mp
    constructor
    · intro h
      obtain ⟨word, hword, h⟩ := bind_eq_ok_iff.mp h
      cases h
      exact ⟨rfl, hexpected, hword, rfl⟩
    · rintro ⟨-, -, hword, rfl⟩
      exact bind_eq_ok_iff.mpr ⟨next, hword, rfl⟩

/-- **Files are recorded if and only if they are a chain behind the newest hash**, the first of them with the
number that is expected. -/
theorem recordFiles_eq_ok_iff {expected : UInt64} {files : List (UInt64 × String)} :
    recordFiles d limit info expected files = .ok after ↔
      ∃ contents stored, List.Forall₂ (Opens d) files contents ∧
        Accepted info.lastHash (some expected) contents stored ∧ stored.map (·.number) = files.map (·.1) ∧
        after = info.recordStored stored limit := by
  induction files generalizing info expected with
  | nil =>
    constructor
    · rintro ⟨⟩
      exact ⟨[], [], .nil, .nil, rfl, rfl⟩
    · rintro ⟨_, _, ⟨⟩, ⟨⟩, -, rfl⟩
      rfl
  | cons file rest ih =>
    obtain ⟨number, name⟩ := file
    rw [recordFiles]
    constructor
    · intro h
      obtain ⟨items, hitems, h⟩ := bind_eq_ok_iff.mp h
      obtain ⟨⟨next, word⟩, hrecord, h⟩ := bind_eq_ok_iff.mp h
      have hopens : Opens d (number, name) items := readItems_eq_ok_iff.mp (Checked.ofExcept_eq_ok_iff.mp hitems)
      obtain ⟨block, hverified, hnumber, hexpected, hword, rfl⟩ := recordFile_eq_ok_iff.mp hrecord
      obtain ⟨contents, stored, hcontents, haccepted, hnumbers, rfl⟩ := ih.mp h
      refine ⟨items :: contents, block :: stored, .cons hopens hcontents, .cons hverified ?_ hword haccepted, ?_, rfl⟩
      · rintro _ ⟨⟩
        exact hexpected
      · rw [List.map_cons, List.map_cons, hnumber, hnumbers]
    · rintro ⟨_, stored, hcontents, haccepted, hnumbers, rfl⟩
      cases hcontents with
      | cons hopens hcontents =>
        obtain ⟨block, next, more, rfl, hverified, hexpected, hnext, haccepted⟩ := accepted_cons_iff.mp haccepted
        obtain ⟨hnumber, hnumbers⟩ := List.cons.inj hnumbers
        have hitems := Checked.ofExcept_eq_ok_iff.mpr (readItems_eq_ok_iff.mpr hopens)
        have hrecord : recordFile limit info expected number _ = .ok (_, next) :=
          recordFile_eq_ok_iff.mpr ⟨block, hverified, hnumber, hexpected _ rfl, hnext, rfl⟩
        exact bind_eq_ok_iff.mpr ⟨_, hitems, bind_eq_ok_iff.mpr ⟨_, hrecord,
          ih.mpr ⟨_, more, hcontents, haccepted, hnumbers, rfl⟩⟩⟩

/-! ### The window -/

omit [Compression] in
theorem length_window (files : List (UInt64 × String)) (limit : Nat) :
    (window files limit).length = min files.length (max limit 1) := by
  rw [window, List.length_drop]
  omega

omit [Compression] in
theorem window_eq_nil_iff {files : List (UInt64 × String)} (limit : Nat) : window files limit = [] ↔ files = [] := by
  rw [← List.length_eq_zero_iff, length_window, ← List.length_eq_zero_iff]
  omega

/-- The first file of the window is read for its anchor, and then it is recorded like the others. -/
theorem recover_eq {version : SoftwareVersion} {file : UInt64 × String} {rest : List (UInt64 × String)}
    (h : window (BlockFile.list d) limit = file :: rest) :
    recover d version limit = (do
      let items ← Checked.ofExcept (readItems d file.2)
      let anchor ← Checked.ofExcept (anchorOf file.1 items)
      return some (← recordFiles d limit (.anchored anchor version) file.1 (file :: rest))) := by
  obtain ⟨number, name⟩ := file
  rw [recover, h]
  simp only [recordFiles]
  cases hitems : readItems d name with
  | error e => rfl
  | ok items =>
    cases hanchor : anchorOf number items with
    | error e => simp only [Checked.ofExcept, refuse, bind, Except.bind, hanchor]
    | ok anchor =>
      simp only [Checked.ofExcept, bind, Except.bind, hanchor]
      cases recordFile limit (.anchored anchor version) number number items <;> rfl

/-- **A window is recovered if and only if its files are a chain** behind the hash that the first of them
names. -/
theorem recover_eq_some_iff {version : SoftwareVersion} :
    recover d version limit = .ok (some info) ↔
      window (BlockFile.list d) limit ≠ [] ∧ ∃ anchor contents stored,
        Filed d (window (BlockFile.list d) limit) anchor contents stored ∧
        (∀ items ∈ contents.head?, Names items anchor) ∧
        info = (StreamInfo.anchored anchor version).recordStored stored limit := by
  cases hwindow : window (BlockFile.list d) limit with
  | nil =>
    rw [recover, hwindow]
    simp
  | cons file rest =>
    rw [recover_eq hwindow]
    constructor
    · intro h
      obtain ⟨items, hitems, h⟩ := bind_eq_ok_iff.mp h
      obtain ⟨anchor, hanchor, h⟩ := bind_eq_ok_iff.mp h
      obtain ⟨told, htold, h⟩ := bind_eq_ok_iff.mp h
      cases h
      rw [Checked.ofExcept_eq_ok_iff] at hitems hanchor
      obtain ⟨contents, stored, hopens, haccepted, hnumbers, rfl⟩ := recordFiles_eq_ok_iff.mp htold
      refine ⟨nofun, anchor, contents, stored,
        ⟨hopens, verifyChain_eq_ok_iff.mpr (accepted_some_iff.mp haccepted).1, hnumbers⟩, ?_, rfl⟩
      cases hopens with
      | cons hfirst _ =>
        -- the file that named the anchor is the first one that is recorded
        rw [readItems_eq_ok_iff.mpr hfirst] at hitems
        rintro _ ⟨⟩
        cases hitems
        exact anchorOf_eq_ok_iff.mp hanchor
    · rintro ⟨-, anchor, contents, stored, ⟨hopens, hverified, hnumbers⟩, hnames, rfl⟩
      have haccepted := verifyChain_eq_ok_iff.mp hverified
      have hhead : ∀ block ∈ stored.head?, block.number = file.1 := by
        intro block hblock
        obtain ⟨more, rfl⟩ := List.head?_eq_some_iff.mp hblock
        exact (List.cons.inj hnumbers).1
      have hrecorded : recordFiles d limit (.anchored anchor version) file.1 (file :: rest) = .ok _ :=
        recordFiles_eq_ok_iff.mpr
          ⟨contents, stored, hopens, accepted_some_iff.mpr ⟨haccepted, hhead⟩, hnumbers, rfl⟩
      cases hopens with
      | cons hfirst _ =>
        have hitems := Checked.ofExcept_eq_ok_iff.mpr (readItems_eq_ok_iff.mpr hfirst)
        have hanchor : Checked.ofExcept (anchorOf file.1 _) = .ok anchor :=
          Checked.ofExcept_eq_ok_iff.mpr (anchorOf_eq_ok_iff.mpr (hnames _ rfl))
        exact bind_eq_ok_iff.mpr ⟨_, hitems, bind_eq_ok_iff.mpr ⟨_, hanchor,
          bind_eq_ok_iff.mpr ⟨_, hrecorded, rfl⟩⟩⟩

/-- Recovery tells nothing if and only if there is no block file. -/
theorem recover_eq_none_iff {version : SoftwareVersion} :
    recover d version limit = .ok none ↔ BlockFile.list d = [] := by
  rw [← window_eq_nil_iff limit]
  cases hwindow : window (BlockFile.list d) limit with
  | nil =>
    rw [recover, hwindow]
    simp
  | cons file rest =>
    rw [recover_eq hwindow]
    simp only [bind_eq_ok_iff, reduceCtorEq, iff_false]
    rintro ⟨items, -, anchor, -, told, -, h⟩
    cases h

/-! ### Older files -/

/-- A file with the same content opens alike. -/
theorem readItems_congr {d' : Directory} {name : String} (h : d'.contentOf name = d.contentOf name) :
    readItems d' name = readItems d name := by
  rw [readItems, readItems, BlockFile.read, BlockFile.read, h]

theorem recordFiles_congr {d' : Directory} {files : List (UInt64 × String)}
    (h : ∀ file ∈ files, d'.contentOf file.2 = d.contentOf file.2) (info : StreamInfo) (expected : UInt64) :
    recordFiles d' limit info expected files = recordFiles d limit info expected files := by
  induction files generalizing info expected with
  | nil => rfl
  | cons file rest ih =>
    have hrest := fun other hother => h other (List.mem_cons_of_mem _ hother)
    rw [recordFiles, recordFiles, readItems_congr (h file List.mem_cons_self)]
    simp only [ih hrest]

/-- **Older files are not opened.** -/
theorem recover_congr {d' : Directory} (hnames : d'.names = d.names)
    (hcontent : ∀ file ∈ window (BlockFile.list d) limit, d'.contentOf file.2 = d.contentOf file.2)
    (version : SoftwareVersion) : recover d' version limit = recover d version limit := by
  have hlist : BlockFile.list d' = BlockFile.list d := by rw [BlockFile.list, BlockFile.list, hnames]
  cases hwindow : window (BlockFile.list d) limit with
  | nil => rw [recover, recover, hlist, hwindow]
  | cons file rest =>
    rw [hwindow] at hcontent
    rw [recover_eq hwindow, recover_eq (hlist ▸ hwindow), readItems_congr (hcontent file List.mem_cons_self)]
    simp only [recordFiles_congr hcontent]

/-- The newest files of a chain are a chain, and the position behind them is the one behind all. -/
theorem Filed.newest {files : List (UInt64 × String)} {anchor : BlockHash} {contents : List (List Bytes)}
    {stored : List FinalizedBlock} (h : Filed d files anchor contents stored) (hfiles : files ≠ [])
    (version : SoftwareVersion) (limit : Nat) :
    ∃ middle behind newest, Filed d (window files limit) middle behind newest ∧
      (∀ items ∈ behind.head?, Names items middle) ∧
      (StreamInfo.anchored middle version).recordStored newest limit =
        (StreamInfo.anchored anchor version).recordStored stored limit := by
  generalize hk : files.length - max limit 1 = k
  obtain ⟨hopens, hverified, hnumbers⟩ := h
  have hfew : k ≤ contents.length := by
    rw [← hopens.length_eq]
    omega
  have haccepted := verifyChain_eq_ok_iff.mp hverified
  rw [← List.take_append_drop k contents] at haccepted
  obtain ⟨front, back, middle, rfl, hfront, hback⟩ := haccepted.split
  rw [List.length_take_of_le hfew] at hfront
  have hnewest : back.map (·.number) = (files.drop k).map (·.1) := by
    rw [List.map_drop, ← hnumbers, List.map_append, List.drop_left']
    rw [List.length_map, hfront]
  have hlength : back.length = files.length - k := by
    rw [← List.length_map (·.number), hnewest, List.length_map, List.length_drop]
  have hnonempty := List.length_pos_iff.mpr hfiles
  have hwindow : window files limit = files.drop k := by rw [window, hk]
  refine ⟨middle, contents.drop k, back, ?_, ?_, ?_⟩
  · rw [hwindow]
    exact ⟨List.forall₂_drop k hopens, verifyChain_eq_ok_iff.mpr hback, hnewest⟩
  · exact hback.names
  · refine (StreamInfo.recordStored_append _ _ version ?_ fun hsome => ?_).symm
    · rw [← List.length_pos_iff]
      omega
    · have := List.length_pos_iff.mpr hsome
      omega

/-- **Where all files are a chain, the position behind all of them is recovered**, whatever the window. -/
theorem Filed.recover {anchor : BlockHash} {contents : List (List Bytes)} {stored : List FinalizedBlock}
    (h : Filed d (BlockFile.list d) anchor contents stored) (hfiles : BlockFile.list d ≠ [])
    (version : SoftwareVersion) (limit : Nat) :
    Recovery.recover d version limit = .ok (some ((StreamInfo.anchored anchor version).recordStored stored limit)) := by
  obtain ⟨middle, behind, recent, hnewest, hnames, hsame⟩ := h.newest hfiles version limit
  have hwindow : window (BlockFile.list d) limit ≠ [] := (window_eq_nil_iff limit).not.mpr hfiles
  exact recover_eq_some_iff.mpr ⟨hwindow, middle, behind, recent, hnewest, hnames, hsame.symm⟩

/-- **Recovery agrees with the verification of chains, and it needs its window only.** A position is recovered if
and only if there are block files and the newest ones, as many as hashes are kept and at least one, are a chain that
a reader accepts behind the hash that the first of them names, each with the number of its file; it is the
position behind these blocks. What older files hold makes no difference. If the files are a chain from the first
to the last, the position is the one behind all of them. -/
theorem recover_window (d : Directory) (version : SoftwareVersion) (limit : Nat) :
    let files := BlockFile.list d
    let newest := files.rtake (max limit 1)
    (∀ info, recover d version limit = .ok (some info) ↔
      newest ≠ [] ∧ ∃ anchor contents stored, Filed d newest anchor contents stored ∧
        (∀ items ∈ contents.head?, Names items anchor) ∧
        info = (StreamInfo.anchored anchor version).recordStored stored limit) ∧
      (recover d version limit = .ok none ↔ files = []) ∧
      (∀ d' : Directory, d'.names = d.names → (∀ file ∈ newest, d'.contentOf file.2 = d.contentOf file.2) →
        recover d' version limit = recover d version limit) ∧
      (∀ anchor contents stored, Filed d files anchor contents stored → files ≠ [] →
        recover d version limit = .ok (some ((StreamInfo.anchored anchor version).recordStored stored limit))) := by
  intro files newest
  exact ⟨fun info => recover_eq_some_iff, recover_eq_none_iff,
    fun d' hnames hcontent => recover_congr hnames hcontent version,
    fun anchor contents stored hfiled hfiles => hfiled.recover hfiles version limit⟩

end

/-- A directory with two block files. -/
def shelf (first second : Bytes) : Directory :=
  ⟨[(BlockFile.name 1 false, .file second), (BlockFile.name 0 false, .file first)]⟩

theorem holds_shelf [Compression] (first second : Bytes) :
    (shelf first second).Holds [⟨false, first⟩, ⟨false, second⟩] := by
  have hne := BlockFile.name_ne_temporaryName 0 0 false false
  have hother : BlockFile.name 0 false ≠ BlockFile.name 1 false := fun h => nomatch BlockFile.name_inj h
  have hzero : (0 : UInt64).toNat = 0 := rfl
  have hone : (1 : UInt64).toNat = 1 := rfl
  have hboth := (Directory.holds_empty.rename hzero (0, false) ⟨false, first⟩).rename hone (0, false) ⟨false, second⟩
  simpa [Directory.set, Directory.remove, Directory.empty, hne, hother, StoredFile.entry, shelf,
    BlockFile.fileContent] using hboth

/-- The first of two files is damaged. It is not opened where one hash is kept, and the position is that of the
whole chain. -/
theorem recover_window_damaged :
    ∃ first second info, Recovery.recover (shelf first second) ⟨0, 1, 0⟩ 1 = .ok (some info) ∧
      Recovery.recover (shelf [] second) ⟨0, 1, 0⟩ 1 = .ok (some info) ∧ info.lastNumber = some 1 := by
  have hlist := fun a b => (holds_shelf a b).list_eq
  obtain ⟨zero, hzero, hnumber, hhash⟩ := verifyBlock_headerItems 0 .zero .zero
  obtain ⟨one, hone, hlast, -⟩ := verifyBlock_headerItems 1 zero.hash .zero
  have hfirst := frameItems_eq_ok_iff.mpr ⟨@length_lt_of_mem_headerItems 0 .zero .zero, rfl⟩
  have hsecond := frameItems_eq_ok_iff.mpr ⟨@length_lt_of_mem_headerItems 1 zero.hash .zero, rfl⟩
  generalize (headerItems 0 .zero .zero).flatMap frameBytes = first at hfirst
  generalize (headerItems 1 zero.hash .zero).flatMap frameBytes = second at hsecond
  have hfiled : Filed (shelf first second) (BlockFile.list (shelf first second)) .zero
      [headerItems 0 .zero .zero, headerItems 1 zero.hash .zero] [zero, one] := by
    refine ⟨?_, ?_, ?_⟩
    · rw [hlist]
      exact .cons ⟨first, (holds_shelf first second).read_eq rfl, splitFrames_eq_ok_iff.mpr hfirst⟩
        (.cons ⟨second, (holds_shelf first second).read_eq rfl, splitFrames_eq_ok_iff.mpr hsecond⟩ .nil)
    · have hnext : nextWord (ε := StreamError) zero.number = .ok 1 := by rw [hnumber]; rfl
      have hend : nextWord (ε := StreamError) one.number = .ok 2 := by rw [hlast]; rfl
      refine verifyChain_eq_ok_iff.mpr (.cons hzero nofun hnext (.cons hone ?_ hend .nil))
      rintro _ ⟨⟩
      exact hlast
    · rw [hlist, List.map_cons, List.map_cons, hnumber, hlast]
      rfl
  obtain ⟨-, -, hunopened, hwhole⟩ := recover_window (shelf first second) ⟨0, 1, 0⟩ 1
  have hrecovered := hwhole _ _ _ hfiled (by rw [hlist]; nofun)
  have hsame := hunopened (shelf [] second) rfl (by
    rw [hlist]
    intro file hfile
    obtain rfl := List.mem_singleton.mp hfile
    have hname : StoredFile.nameAt ⟨false, second⟩ (0 + 1) = BlockFile.name 1 false := rfl
    simp [Directory.contentOf, Directory.find?, shelf, hname])
  exact ⟨first, second, _, hrecovered, hsame.trans hrecovered, congrArg some hlast⟩

end Recovery

end RoundChain
