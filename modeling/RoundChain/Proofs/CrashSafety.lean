import RoundChain.Proofs.ChainProduction
import RoundChain.Proofs.FileWrites
import RoundChain.Proofs.NodeSessions
import Mathlib.Logic.Relation

/-!
# Sessions that are cut off

Node sessions follow one another over a directory that is empty at first. Each of them ends
by itself or is cut off at any step that it takes in the directory, within a write as well.
The directory always holds one verified chain from the zero hash, and the next session can
always recover it: `Node.crash_safety`.

## The model

`Node.Leaves` relates a directory to what one session over it can leave. Its stream takes
any course: the calls of its rounds as far as they come, signing and writing at any time,
and any change of the signer, which others bring to where it can sign.

What the proof carries from session to session is the list of files: a session leaves the
files that it found, and behind them the first of the blocks that it wrote,
`Node.Leaves.chain`. Blocks that were closed and not written leave no trace.
-/

namespace RoundChain

/-! ### Written blocks as files -/

section

variable [Bls12381.Library]

/-- A file that keeps a written block keeps it for every reader. -/
theorem keeps_of_written {w : Written} {file : StoredFile} (hkeeps : FileStore.Keeps w file)
    (hreadable : Readable w.block.number w.block.items)
    (hhash : blockHash w.block.previous w.block.items = .ok w.block.hash)
    (hsigned : ∃ state, (SchemeSigner.signer.sign state w.block.hash).1 = .ok w.signature)
    (hfew : w.block.number.toNat + 1 < UInt64.size) :
    file.Keeps w.block.number.toNat w.block.previous w.block.hash (w.block.items ++ [w.proof]) := by
  obtain ⟨state, hsigned⟩ := hsigned
  have hsignature := SchemeSigner.checkSignature_sign hsigned w.block.number
  obtain ⟨stored, hverified, hnumber, hsame⟩ :=
    ClosedBlock.verifyBlock_eq_ok hreadable hkeeps hhash hsignature
  refine ⟨splitFrames_eq_ok_iff.mpr hkeeps, ⟨stored, hverified, congrArg UInt64.toNat hnumber, hsame⟩, ?_, hfew⟩
  intro number
  have hdecoded : decodeItem w.proof = .ok (w.block.proofItem w.startState w.signature) :=
    decodeItem_encode (length_lt_of_frameItems hkeeps _ (List.mem_append_right _ (List.mem_singleton_self _)))
  rw [Recovery.anchorOf, List.getLast?_concat]
  simp only [hdecoded]
  rfl

/-- Files that keep linked blocks are a chain. -/
theorem chained_of_written {ws : List Written} {files : List StoredFile} {number : Nat} {previous : BlockHash}
    (hkeeps : List.Forall₂ FileStore.Keeps ws files)
    (hlinked : Linked number previous (ws.map Written.block))
    (hreadable : ∀ w ∈ ws, Readable w.block.number w.block.items)
    (hsigned : ∀ w ∈ ws, ∃ state, (SchemeSigner.signer.sign state w.block.hash).1 = .ok w.signature)
    (hfew : ∀ w ∈ ws, w.block.number.toNat + 1 < UInt64.size) : ∃ last, Chained number previous files last := by
  induction hkeeps generalizing number previous with
  | nil => exact ⟨previous, .nil⟩
  | @cons w file ws files hfirst _ ih =>
    rw [List.forall_mem_cons] at hreadable hsigned hfew
    obtain ⟨hnumber, hprevious, hhash, hrest⟩ := hlinked
    obtain ⟨last, hchain⟩ := ih hrest hreadable.2 hsigned.2 hfew.2
    have hfile := keeps_of_written hfirst hreadable.1 (hprevious ▸ hhash) hsigned.1 hfew.1
    rw [hnumber, hprevious] at hfile
    exact ⟨last, .cons hfile hchain⟩

end

namespace Node

section

variable [Compression] [Bls12381.Library]

/-! ### What a session writes -/

/-- The steps that a session has taken in its directory. -/
def stepsOf (node : Node) (hs : List (Happening SchemeSigner FileStore)) : List FileStep :=
  node.session.store.stepsAlong ((node.course hs).store.2.map Prod.fst)

variable {config : NodeConfig} {dir : Directory} {node : Node} {recovered : Option StreamInfo}
  {files : List StoredFile} {last : BlockHash} {hs : List (Happening SchemeSigner FileStore)}

theorem Starts.regular_course (h : Starts config dir node recovered) (hlimits : (node.course hs).WithinLimits) :
    (node.course hs).Regular config.stream .configured recovered :=
  Course.run_induction SchemeSigner.signer FileStore.writer (fun _ happening hr hl => hr.step happening hl)
    h.regular hlimits

/-- The blocks that a session closes continue the chain in its directory, and are on their way to it. -/
theorem Starts.chain (h : Starts config dir node recovered) (hlimits : (node.course hs).WithinLimits)
    (hholds : dir.Holds files) (hchain : Chained 0 .zero files last) :
    Linked files.length last (node.course hs).made.closed ∧
      ∃ base, (node.course hs).stream.Flow (node.course hs).made.closed (node.course hs).signer.2
        (node.course hs).store.2 base := by
  have hcontinues : (node.course hs).Continues recovered config.stream.version (position config recovered) :=
    h.continues.mono (Course.calls_run node.begun hs).subset
  obtain ⟨hheight, hlast⟩ := h.position_of_chain hholds hchain
  obtain ⟨hlinked, hflow⟩ := (h.regular_course hlimits).chain hcontinues
  rw [hheight, hlast] at hlinked
  exact ⟨hlinked, hflow⟩

/-- No block that a session closes has the greatest number. -/
theorem Starts.number_lt (h : Starts config dir node recovered) (hlimits : (node.course hs).WithinLimits)
    {block : ClosedBlock} (hblock : block ∈ (node.course hs).made.closed) :
    block.number.toNat + 1 < UInt64.size := by
  rcases (h.regular_course hlimits).progress with ⟨-, hmade, -⟩ | ⟨info, -, hgrown, -⟩
  · rw [hmade] at hblock
    cases hblock
  · obtain ⟨i, hi⟩ := List.getElem?_of_mem hblock
    have hnumber := hgrown.linked.number_eq hi
    have hindex := (List.getElem?_eq_some_iff.mp hi).1
    have hnext := hgrown.nextNumber
    have hsize := (node.course hs).stream.nextNumber.toNat_lt
    have hword : UInt64.size = 2 ^ 64 := rfl
    omega

/-- The rounds of a source bring no header, so all blocks of a session are readable. -/
theorem Starts.readable (h : Starts config dir node recovered) (hlimits : (node.course hs).WithinLimits)
    {rounds : Nat} (hcalls : Course.callsOf hs <+: node.source.script rounds) :
    ∀ block ∈ (node.course hs).made.closed, Readable block.number block.items := by
  have hplain : (node.course hs).Plain := by
    intro item answer hmem
    rcases Course.mem_calls_run hmem with hmem | hmem
    · exact node.plain_begun item answer hmem
    · exact RoundSource.isHeader_script (hcalls.subset hmem)
  exact (Course.legible_run h.legible hlimits hplain).closed

/-- **A session over a chain of files writes more files of this chain**, and cut off, the first of them. They keep
the first of the blocks that it closes. -/
theorem Starts.writes (h : Starts config dir node recovered) (hlimits : (node.course hs).WithinLimits)
    {rounds : Nat} (hcalls : Course.callsOf hs <+: node.source.script rounds) (halone : ∀ state, .store state ∉ hs)
    (hholds : dir.Holds files) (hchain : Chained 0 .zero files last) :
    (node.course hs).store.1.dir = (dir.steps (node.stepsOf hs)).2 ∧
      ∃ (written : List Written) (more : List StoredFile) (last : BlockHash),
        written.map Written.block <+: (node.course hs).made.closed ∧ List.Forall₂ FileStore.Keeps written more ∧
        Chained 0 .zero (files ++ more) last ∧
        ∀ done, FileStep.Cut done (node.stepsOf hs) →
          ∃ first, first <+: more ∧ (dir.steps done).2.Holds (files ++ first) := by
  obtain ⟨hlinked, base, hflow⟩ := h.chain hlimits hholds hchain
  obtain ⟨written, log, trying, hstored, hwrites, hsigned, hblocks, htried⟩ := hflow.written
  have hwritten := hlinked.of_prefix hblocks
  have hclosed : ∀ w ∈ written, w.block ∈ (node.course hs).made.closed :=
    fun w hw => hblocks.subset (List.mem_map_of_mem hw)
  -- the log is true, and its blocks are the next files
  have hgains : Gains FileStore.writer node.begun.store (node.course hs).store := node.begun.gains_run halone
  obtain ⟨gained, hgained, hreplays⟩ := hgains
  obtain rfl : gained = log ++ trying := hgained.symm.trans hwrites
  have hnext : trying = [] ∨ ∃ next : Written,
      next.Trying (node.course hs).stream.config.batchSize trying ∧
        next.block.number.toNat = files.length + written.length := by
    refine htried.imp_right fun ⟨next, hnext, htrying⟩ => ⟨next, htrying, ?_⟩
    refine (hlinked.of_prefix hnext).number_eq ?_
    simp
  have hstore : node.begun.store.1 = .new dir config.stream.storage.compress := h.store
  rw [hstore] at hreplays
  obtain ⟨more, hkeeps, hwhole, hcut⟩ := FileStore.cut_of_log hstored hnext hreplays rfl hholds
    fun i w hi => number_of_linked hwritten hi
  -- the files keep a chain, since the signatures are true as well
  have htrue : TrueSignatures SchemeSigner.signer (node.course hs).signer.2 :=
    Course.trueSignatures_run (c := node.begun) nofun hs
  obtain ⟨final, hmore⟩ := chained_of_written hkeeps hwritten
    (fun w hw => h.readable hlimits hcalls w.block (hclosed w hw))
    (fun w hw => htrue _ _ (hsigned w hw)) fun w hw => h.number_lt hlimits (hclosed w hw)
  rw [stepsOf, h.store, hwrites]
  exact ⟨hwhole, written, more, final, hblocks, hkeeps,
    chained_append_iff.mpr ⟨last, hchain, (Nat.zero_add files.length).symm ▸ hmore⟩, hcut⟩

/-! ### What a session leaves -/

variable [Ed25519.Library]

/-- What a session of a node over a directory can leave there. -/
inductive Leaves (dir : Directory) : Directory → Prop where
  /-- The node does not start. -/
  | refused {config : NodeConfig} {now : Timestamp} {e : Stop NodeError} :
      Node.start config now dir = .error e → Leaves dir dir
  /-- The node works, and ends or is cut off. -/
  | worked {config : NodeConfig} {now : Timestamp} {node : Node} {hs : List (Happening SchemeSigner FileStore)}
      {rounds : Nat} {done : List FileStep} : Node.start config now dir = .ok node →
      Course.callsOf hs <+: node.source.script rounds → (∀ state, .store state ∉ hs) →
      (node.course hs).WithinLimits → FileStep.Cut done (node.stepsOf hs) → Leaves dir (dir.steps done).2

/-- What a session of a node with these settings can leave. -/
inductive LeavesUnder (config : NodeConfig) (dir : Directory) : Directory → Prop where
  | refused {now : Timestamp} {e : Stop NodeError} : Node.start config now dir = .error e → LeavesUnder config dir dir
  | worked {now : Timestamp} {node : Node} {hs : List (Happening SchemeSigner FileStore)} {rounds : Nat}
      {done : List FileStep} : Node.start config now dir = .ok node →
      Course.callsOf hs <+: node.source.script rounds → (∀ state, .store state ∉ hs) →
      (node.course hs).WithinLimits → FileStep.Cut done (node.stepsOf hs) →
      LeavesUnder config dir (dir.steps done).2

theorem leaves_iff {dir after : Directory} : Leaves dir after ↔ ∃ config, LeavesUnder config dir after := by
  constructor
  · intro h
    cases h with
    | refused hstart => exact ⟨_, .refused hstart⟩
    | worked hstart hcalls halone hlimits hdone => exact ⟨_, .worked hstart hcalls halone hlimits hdone⟩
  · rintro ⟨config, h⟩
    cases h with
    | refused hstart => exact .refused hstart
    | worked hstart hcalls halone hlimits hdone => exact .worked hstart hcalls halone hlimits hdone

/-- **A session over a chain leaves this chain, and perhaps more of it.** -/
theorem Leaves.chain {after : Directory} (h : Leaves dir after) (hholds : dir.Holds files)
    (hchain : Chained 0 .zero files last) :
    ∃ more last, after.Holds (files ++ more) ∧ Chained 0 .zero (files ++ more) last := by
  cases h with
  | refused _ =>
    refine ⟨[], last, ?_⟩
    rw [List.append_nil]
    exact ⟨hholds, hchain⟩
  | worked hstart hcalls halone hlimits hdone =>
    obtain ⟨recovered, hstarts⟩ := start_eq_ok hstart
    obtain ⟨-, -, more, final, -, -, hall, hcut⟩ := hstarts.writes hlimits hcalls halone hholds hchain
    obtain ⟨first, hfirst, hafter⟩ := hcut _ hdone
    obtain ⟨middle, hmiddle⟩ := hall.of_prefix ((List.prefix_append_right_inj files).mpr hfirst)
    exact ⟨first, middle, hafter, hmiddle⟩

/-- Sessions, one after the other, keep a chain in a directory that was empty at first. -/
theorem exists_chain {after : Directory} (h : Relation.ReflTransGen Leaves .empty after) :
    ∃ files last, after.Holds files ∧ Chained 0 .zero files last := by
  induction h with
  | refl => exact ⟨[], .zero, Directory.holds_empty, .nil⟩
  | tail _ hleaves ih =>
    obtain ⟨files, last, hholds, hchain⟩ := ih
    obtain ⟨more, final, hmore⟩ := hleaves.chain hholds hchain
    exact ⟨files ++ more, final, hmore⟩

/-- **Whatever cuts sessions off, the directory holds a verified chain.** Start with an empty directory, and let
node sessions with any settings follow one another over it, each of them ending by itself or cut off at any step
that it takes in the directory. Then the position of the chain can be recovered with any window, the block files
are numbered from zero on, none missing and none twice, and what they keep is a verified chain from the zero
hash. -/
theorem crash_safety {after : Directory} (h : Relation.ReflTransGen Leaves .empty after) :
    (∀ version limit, ∃ told, Recovery.recover after version limit = .ok told) ∧
      (BlockFile.list after).map (fun file => file.1.toNat) = List.range (BlockFile.list after).length ∧
      ∃ blocks chain, (BlockFile.list after).mapM (fun file => Recovery.readItems after file.2) = .ok blocks ∧
        verifyChain blocks .zero = .ok chain := by
  obtain ⟨files, last, hholds, hchain⟩ := exists_chain h
  refine ⟨fun version limit => ?_, hholds.numbers_eq, verifyChain_eq_ok hholds hchain⟩
  obtain ⟨told, htold, -⟩ := recover_eq_ok hholds hchain version limit
  exact ⟨told, htold⟩

/-! ### Sessions of one round -/

/-- The settings of a node that feeds one round without events. -/
def oneRoundConfig : NodeConfig := { rounds := { eventsPerRound := 0, maxRounds := some 1 } }

/-- The round of such a node, and the work on its block, which has this number. -/
def oneRound (number : UInt64) (node : Node) : List (Happening SchemeSigner FileStore) :=
  (node.source.script 1).map .call ++ [.work .takeUp, .work (.sign number), .work .consider, .work .write]

/-- What the node leaves if it comes as far with its steps as `done` says. -/
def oneRoundLeft (done : List FileStep → List FileStep) (number : UInt64) (now : Timestamp) (dir : Directory) :
    Directory :=
  match start oneRoundConfig now dir with
  | .error _ => dir
  | .ok node => (dir.steps (done (node.stepsOf (oneRound number node)))).2

/-- Whether the node stays within limits. -/
def oneRoundWithin (number : UInt64) (now : Timestamp) (dir : Directory) : Bool :=
  match start oneRoundConfig now dir with
  | .error _ => true
  | .ok node => decide (node.course (oneRound number node)).WithinLimits

theorem leavesUnder_oneRoundLeft {done : List FileStep → List FileStep}
    (hdone : ∀ steps, FileStep.Cut (done steps) steps) {number : UInt64} {now : Timestamp}
    (hwithin : oneRoundWithin number now dir = true) :
    LeavesUnder oneRoundConfig dir (oneRoundLeft done number now dir) := by
  unfold oneRoundWithin at hwithin
  unfold oneRoundLeft
  cases hstart : start oneRoundConfig now dir with
  | error e => exact .refused hstart
  | ok node =>
    simp only [hstart, decide_eq_true_eq] at hwithin ⊢
    have hcalls : Course.callsOf (oneRound number node) = node.source.script 1 := by
      rw [oneRound, Course.callsOf_append, Course.callsOf_calls]
      exact List.append_nil _
    have hprefix : Course.callsOf (oneRound number node) <+: node.source.script 1 := hcalls.symm ▸ List.prefix_rfl
    exact .worked hstart hprefix (by simp [oneRound]) hwithin (hdone _)

end

/-- A session is cut off when a hundred bytes of its block are written. -/
def tornLeft : Directory := oneRoundLeft (FileStep.torn 100) 0 ⟨10, 0⟩ .empty

/-- The next one stores the block. -/
def firstLeft : Directory := oneRoundLeft id 0 ⟨10, 0⟩ tornLeft

/-- The clock of the one after that is ten seconds behind. -/
def secondLeft : Directory := oneRoundLeft id 1 ⟨0, 0⟩ firstLeft

set_option maxRecDepth 10000 in
/-- The last session stays within limits and stores the second block. -/
theorem secondLeft_spec : oneRoundWithin 1 ⟨0, 0⟩ firstLeft = true ∧
    secondLeft.contains (BlockFile.name 0 false) = true ∧ secondLeft.contains (BlockFile.name 1 false) = true := by
  decide +kernel

set_option maxRecDepth 10000 in
/-- The three sessions are among those of nodes with their settings. -/
theorem leavesUnder_secondLeft : Relation.ReflTransGen (LeavesUnder oneRoundConfig) .empty secondLeft := by
  have htorn : LeavesUnder oneRoundConfig .empty tornLeft :=
    leavesUnder_oneRoundLeft (FileStep.cut_torn 100) (by decide +kernel)
  have hfirst : LeavesUnder oneRoundConfig tornLeft firstLeft :=
    leavesUnder_oneRoundLeft FileStep.cut_refl (by decide +kernel)
  have hsecond : LeavesUnder oneRoundConfig firstLeft secondLeft :=
    leavesUnder_oneRoundLeft FileStep.cut_refl secondLeft_spec.1
  exact .tail (.tail (.single htorn) hfirst) hsecond

set_option maxRecDepth 10000 in
theorem crash_safety_three_sessions :
    Relation.ReflTransGen Leaves .empty secondLeft ∧
      (tornLeft.contentOf (BlockFile.temporaryName 0 false)).toOption.map List.length = some 100 ∧
      secondLeft.contains (BlockFile.name 0 false) = true ∧ secondLeft.contains (BlockFile.name 1 false) = true ∧
      ∃ blocks chain,
        (BlockFile.list secondLeft).mapM (fun file => Recovery.readItems secondLeft file.2) = .ok blocks ∧
          verifyChain blocks .zero = .ok chain := by
  have hleaves : Relation.ReflTransGen Leaves .empty secondLeft :=
    Relation.ReflTransGen.mono (fun _ _ h => leaves_iff.mpr ⟨oneRoundConfig, h⟩) _ _ leavesUnder_secondLeft
  obtain ⟨-, -, hchain⟩ := crash_safety hleaves
  exact ⟨hleaves, by decide +kernel, secondLeft_spec.2.1, secondLeft_spec.2.2, hchain⟩

end Node

end RoundChain
