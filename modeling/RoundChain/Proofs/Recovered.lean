import RoundChain.Proofs.Windows

/-!
# Chains in directories

A directory that holds a chain of blocks can always be recovered, whatever the window:
`recover_eq_ok`. The position that is told is that of the newest block. Read from the beginning,
the files are a verified chain, `verifyChain_eq_ok`. Both are read off one fact, that the files are
a chain which a reader accepts, `Chained.accepted`.

## The model

`Chained number previous files last` says of files that they keep verified blocks, which
continue a chain with the next number `number` and the newest hash `previous`, and that
the newest hash is `last` behind them.
-/

namespace RoundChain

/-- The file keeps block `number`, which continues `previous` and has the hash `hash`. -/
structure StoredFile.Keeps (file : StoredFile) (number : Nat) (previous hash : BlockHash)
    (items : List Bytes) : Prop where
  split : splitFrames file.framed = .ok items
  verified : ∃ stored, verifyBlock items previous = .ok stored ∧ stored.number.toNat = number ∧
    stored.hash = hash
  anchor : ∀ n, Recovery.anchorOf n items = .ok previous
  few : number + 1 < UInt64.size

/-- Files of blocks that continue one another. -/
inductive Chained : Nat → BlockHash → List StoredFile → BlockHash → Prop where
  | nil {number : Nat} {previous : BlockHash} : Chained number previous [] previous
  | cons {number : Nat} {previous hash last : BlockHash} {file : StoredFile} {items : List Bytes}
      {rest : List StoredFile} : file.Keeps number previous hash items →
      Chained (number + 1) hash rest last → Chained number previous (file :: rest) last

theorem chained_append_iff {number : Nat} {previous last : BlockHash} {xs ys : List StoredFile} :
    Chained number previous (xs ++ ys) last ↔
      ∃ middle, Chained number previous xs middle ∧ Chained (number + xs.length) middle ys last := by
  induction xs generalizing number previous with
  | nil =>
    constructor
    · exact fun h => ⟨previous, .nil, h⟩
    · rintro ⟨middle, hxs, hys⟩
      cases hxs
      exact hys
  | cons x xs ih =>
    have hlength : number + (x :: xs).length = number + 1 + xs.length := by
      rw [List.length_cons]
      omega
    rw [List.cons_append, hlength]
    constructor
    · intro h
      cases h with
      | cons hkeeps hrest =>
        obtain ⟨middle, hxs, hys⟩ := ih.mp hrest
        exact ⟨middle, .cons hkeeps hxs, hys⟩
    · rintro ⟨middle, hxs, hys⟩
      cases hxs with
      | cons hkeeps hrest => exact .cons hkeeps (ih.mpr ⟨middle, hrest, hys⟩)

/-- The first of the files of a chain are one. -/
theorem Chained.of_prefix {number : Nat} {previous last : BlockHash} {first files : List StoredFile}
    (h : Chained number previous files last) (hfirst : first <+: files) :
    ∃ middle, Chained number previous first middle := by
  obtain ⟨rest, rfl⟩ := hfirst
  obtain ⟨middle, hmiddle, -⟩ := chained_append_iff.mp h
  exact ⟨middle, hmiddle⟩

/-! ### Files -/

section

variable [Compression] {d : Directory} {i : Nat} {files : List StoredFile} {previous last : BlockHash}

/-- The files of the window can be read. -/
def Reads (d : Directory) (i : Nat) (files : List StoredFile) : Prop :=
  ∀ j (file : StoredFile), files[j]? = some file → BlockFile.read d (file.nameAt (i + j)) = .ok file.framed

theorem Reads.head {file : StoredFile} {rest : List StoredFile} (h : Reads d i (file :: rest)) :
    BlockFile.read d (file.nameAt i) = .ok file.framed := h 0 file rfl

theorem Reads.tail {file : StoredFile} {rest : List StoredFile} (h : Reads d i (file :: rest)) :
    Reads d (i + 1) rest := by
  intro j other hj
  rw [Nat.add_assoc, Nat.add_comm 1 j]
  exact h (j + 1) other hj

/-- **Files of blocks that continue one another are a chain that a reader accepts.** The position behind it is
that of the newest block. -/
theorem Chained.accepted (hchain : Chained i previous files last) (hreads : Reads d i files)
    {expected : Option UInt64} (hexpected : ∀ n ∈ expected, n.toNat = i) :
    ∃ contents stored, List.Forall₂ (Recovery.Opens d) (listing i files) contents ∧
      Accepted previous expected contents stored ∧ stored.map (·.number) = (listing i files).map (·.1) ∧
      ∀ (info : StreamInfo) (limit : Nat), info.height = i → info.lastHash = previous →
        (info.recordStored stored limit).height = i + files.length ∧
        (info.recordStored stored limit).lastHash = last := by
  induction hchain generalizing expected with
  | nil => exact ⟨[], [], .nil, .nil, rfl, fun info limit hheight hhash => ⟨hheight, hhash⟩⟩
  | @cons i previous hash last file items rest hkeeps _ ih =>
    obtain ⟨block, hverified, hnumber, rfl⟩ := hkeeps.verified
    have hfew : block.number.toNat + 1 < UInt64.size := hnumber ▸ hkeeps.few
    obtain ⟨next, hnext, hsucc⟩ := exists_nextWord (ε := StreamError) hfew
    have hafter : ∀ n ∈ some next, n.toNat = i + 1 := by
      rintro _ ⟨⟩
      rw [hsucc, hnumber]
    obtain ⟨contents, stored, hopens, haccepted, hnumbers, hbehind⟩ := ih hreads.tail hafter
    refine ⟨items :: contents, block :: stored, .cons ⟨file.framed, hreads.head, hkeeps.split⟩ hopens,
      .cons hverified ?_ hnext haccepted, ?_, fun info limit _ _ => ?_⟩
    · intro n hn
      exact UInt64.toNat_inj.mp (hnumber.trans (hexpected n hn).symm)
    · have hword : UInt64.ofNat i = block.number := by rw [← hnumber, UInt64.ofNat_toNat]
      rw [listing, List.map_cons, List.map_cons, hnumbers, hword]
    · have hheight : (info.record block.number block.hash block.endTime limit).height = i + 1 :=
        congrArg (· + 1) hnumber
      obtain ⟨hlength, hlast⟩ := hbehind _ limit hheight rfl
      refine ⟨?_, hlast⟩
      rw [List.length_cons, ← Nat.add_assoc, Nat.add_right_comm]
      exact hlength

/-- The files of a directory that holds a chain are one, and the position behind it is that of the newest
block. -/
theorem Directory.Holds.filed (hholds : d.Holds files) (hchain : Chained 0 .zero files last) :
    ∃ contents stored, Recovery.Filed d (BlockFile.list d) .zero contents stored ∧
      ∀ (version : SoftwareVersion) (limit : Nat),
        ((StreamInfo.anchored .zero version).recordStored stored limit).height = files.length ∧
        ((StreamInfo.anchored .zero version).recordStored stored limit).lastHash = last := by
  have hreads : Reads d 0 files := fun j file hj => (Nat.zero_add j).symm ▸ hholds.read_eq hj
  have hfirst : ∀ n ∈ (none : Option UInt64), n.toNat = 0 := nofun
  obtain ⟨contents, stored, hopens, haccepted, hnumbers, hbehind⟩ := hchain.accepted hreads hfirst
  refine ⟨contents, stored, ?_, fun version limit => ?_⟩
  · rw [hholds.list_eq]
    exact ⟨hopens, verifyChain_eq_ok_iff.mpr haccepted, hnumbers⟩
  · have hlength := hbehind (.anchored .zero version) limit rfl rfl
    rwa [Nat.zero_add] at hlength

/-! ### Recovery -/

/-- **A chain in a directory is recovered, whatever the window**: the position told is that of the newest
block. -/
theorem recover_eq_ok (hholds : d.Holds files) (hchain : Chained 0 .zero files last)
    (version : SoftwareVersion) (limit : Nat) :
    ∃ told, Recovery.recover d version limit = .ok told ∧
      (told = none ∧ files = [] ∨
        ∃ info, told = some info ∧ info.height = files.length ∧ info.lastHash = last) := by
  obtain ⟨contents, stored, hfiled, hbehind⟩ := hholds.filed hchain
  by_cases hfiles : files = []
  · have hlist : BlockFile.list d = [] := by rw [hholds.list_eq, hfiles, listing]
    exact ⟨none, Recovery.recover_eq_none_iff.mpr hlist, .inl ⟨rfl, hfiles⟩⟩
  · have hlist : BlockFile.list d ≠ [] := by
      rwa [hholds.list_eq, ← List.length_pos_iff, length_listing, List.length_pos_iff]
    exact ⟨_, hfiled.recover hlist version limit, .inr ⟨_, rfl, hbehind version limit⟩⟩

theorem recover_empty (version : SoftwareVersion) (limit : Nat) :
    Recovery.recover .empty version limit = .ok none :=
  Recovery.recover_eq_none_iff.mpr Directory.holds_empty.list_eq

/-! ### Verification -/

/-- **The files of a directory that holds a chain are a verified chain.** -/
theorem verifyChain_eq_ok (hholds : d.Holds files) (hchain : Chained 0 .zero files last) :
    ∃ blocks stored,
      (BlockFile.list d).mapM (fun entry => Recovery.readItems d entry.2) = .ok blocks ∧
        verifyChain blocks .zero = .ok stored := by
  obtain ⟨contents, stored, hfiled, -⟩ := hholds.filed hchain
  have hread := hfiled.opens.imp fun _ _ => Recovery.readItems_eq_ok_iff.mpr
  exact ⟨contents, stored, mapM_eq_ok_iff.mpr hread, hfiled.verified⟩

end

end RoundChain
