import RoundChain.Proofs.Directories
import RoundChain.Store.FileStore

/-!
# Directories of block files

A directory `Holds` some blocks if their files are there, numbered from zero on, and
nothing else but files that are being written. Such a directory lists its blocks in order,
`Holds.list_eq`, and each of them is read as it was written.

Closing one more block takes four steps. Cut off after any number of them, or within the
one that writes, they leave the blocks that the directory held before, or these and the new
one: `Holds.closeSteps`. Renaming is what decides.
-/

namespace RoundChain

/-! ### Numerals -/

namespace Numeral

theorem le_ofDigitChars (cs : List Char) (n : Nat) : n ≤ Nat.ofDigitChars 10 cs n := by
  induction cs generalizing n with
  | nil => rw [Nat.ofDigitChars_nil]
  | cons c rest ih =>
    rw [Nat.ofDigitChars_cons]
    exact Nat.le_trans (by omega) (ih _)

theorem readDigits_eq_ok {bound : Nat} {cs : List Char} {n : Nat} (hdigits : ∀ c ∈ cs, c.isDigit = true)
    (hbound : Nat.ofDigitChars 10 cs n < bound) :
    readDigits bound n cs = .ok (Nat.ofDigitChars 10 cs n) := by
  induction cs generalizing n with
  | nil => rw [Nat.ofDigitChars_nil, readDigits]
  | cons c rest ih =>
    have hzero : '0'.toNat = 48 := rfl
    rw [Nat.ofDigitChars_cons, hzero] at hbound ⊢
    have hfits := Nat.lt_of_le_of_lt (le_ofDigitChars rest _) hbound
    have hc := hdigits c List.mem_cons_self
    simp only [readDigits, hc, Bool.not_true, Bool.false_eq_true, if_false]
    rw [if_pos hfits]
    exact ih (fun d hd => hdigits d (List.mem_cons_of_mem _ hd)) hbound

theorem isDigit_of_mem_padded {width n : Nat} {c : Char} (h : c ∈ padded width n) : c.isDigit = true := by
  rcases List.mem_append.mp h with h | h
  · rw [List.eq_of_mem_replicate h]
    rfl
  · exact Nat.isDigit_of_mem_toDigits (by decide) (by decide) h

/-- A padded numeral is read as its number. -/
theorem read_padded (width : Nat) {bound n : Nat} (hn : n < bound) : read bound (padded width n) = .ok n := by
  have hvalue : Nat.ofDigitChars 10 (padded width n) 0 = n := by
    rw [padded, Nat.ofDigitChars_append, Nat.ofDigitChars_replicate_zero, Nat.mul_zero,
      Nat.ofDigitChars_ten_toDigits]
  have hdigits : ∀ c ∈ padded width n, c.isDigit = true := fun c hc => isDigit_of_mem_padded hc
  have hread := readDigits_eq_ok hdigits (n := 0) (by rw [hvalue]; exact hn)
  rw [hvalue] at hread
  generalize hcs : padded width n = cs at hread hdigits
  cases cs with
  | nil =>
    have hnil := congrArg List.length hcs
    have hpos := Nat.length_toDigits_pos (b := 10) (n := n)
    simp only [padded, List.length_append, List.length_nil] at hnil
    omega
  | cons c rest =>
    have hplus : c ≠ '+' := by
      rintro rfl
      exact absurd (hdigits '+' List.mem_cons_self) (by decide)
    unfold read
    split
    · rename_i h
      cases h
    · rename_i h
      cases h
      exact absurd rfl hplus
    · rename_i h
      cases h
      exact absurd rfl hplus
    · rename_i h
      cases h
      exact hread

end Numeral

/-! ### Names -/

namespace BlockFile

theorem dropEnding?_append (stem ending : List Char) : dropEnding? ending (stem ++ ending) = some stem := by
  have hsuffix : ending.isSuffixOf (stem ++ ending) = true :=
    List.isSuffixOf_iff_suffix.mpr (List.suffix_append ..)
  rw [dropEnding?, if_pos hsuffix, List.length_append, Nat.add_sub_cancel, List.take_left]

/-- An ending is not that of a name that ends in another character. -/
theorem isSuffixOf_eq_false {ending name : List Char} {c : Char} (hending : ending.getLast? = some c)
    (hname : name.getLast? ≠ some c) : ending.isSuffixOf name = false := by
  rw [← Bool.not_eq_true, List.isSuffixOf_iff_suffix]
  rintro ⟨front, rfl⟩
  rw [List.getLast?_append, hending] at hname
  exact hname rfl

theorem dropEnding?_eq_none (ending name : List Char) {c : Char} (hending : ending.getLast? = some c)
    (hname : name.getLast? ≠ some c) : dropEnding? ending name = none := by
  rw [dropEnding?, isSuffixOf_eq_false hending hname, if_neg Bool.false_ne_true]

theorem getLast?_append_plainEnding (stem : List Char) :
    (stem ++ plainEnding).getLast? = some 'k' := by simp [plainEnding]

theorem getLast?_temporaryName (number : UInt64) (compressed : Bool) :
    (temporaryName number compressed).toList.getLast? = some 'p' := by
  simp [temporaryName, temporaryEnding]

theorem read_stem (number : UInt64) :
    Numeral.read UInt64.size (stem number) = .ok number.toNat :=
  Numeral.read_padded 20 number.toNat_lt

/-- The name of a block's file tells its number. -/
@[simp] theorem number?_name (number : UInt64) (compressed : Bool) :
    number? (name number compressed) = some number := by
  have hword : UInt64.ofNat number.toNat = number := UInt64.ofNat_toNat
  unfold number? name
  rw [String.toList_ofList]
  cases compressed with
  | true =>
    simp only [if_true, dropEnding?_append]
    simp [read_stem, Except.map, Except.toOption, hword]
  | false =>
    have hother := dropEnding?_eq_none compressedEnding (stem number ++ plainEnding)
      rfl (by rw [getLast?_append_plainEnding]; decide)
    simp only [Bool.false_eq_true, if_false, hother, dropEnding?_append]
    simp [read_stem, Except.map, Except.toOption, hword]

/-- The name of a file that is being written tells none. -/
@[simp] theorem number?_temporaryName (number : UInt64) (compressed : Bool) :
    number? (temporaryName number compressed) = none := by
  have hlast := getLast?_temporaryName number compressed
  have hcompressed := dropEnding?_eq_none compressedEnding _ rfl
    (by rw [hlast]; decide : (temporaryName number compressed).toList.getLast? ≠ some 't')
  have hplain := dropEnding?_eq_none plainEnding _ rfl
    (by rw [hlast]; decide : (temporaryName number compressed).toList.getLast? ≠ some 'k')
  simp [number?, hcompressed, hplain]

@[simp] theorem isCompressed_name (number : UInt64) (compressed : Bool) :
    isCompressed (name number compressed) = compressed := by
  unfold isCompressed name
  rw [String.toList_ofList]
  cases compressed with
  | true =>
    have hsplit : stem number ++ compressedEnding = (stem number ++ ['.']) ++ compressedEnding.tail := by
      rw [List.append_assoc]
      rfl
    rw [if_pos rfl, hsplit]
    exact List.isSuffixOf_iff_suffix.mpr (List.suffix_append ..)
  | false =>
    refine isSuffixOf_eq_false (c := 't') rfl ?_
    rw [if_neg Bool.false_ne_true, getLast?_append_plainEnding]
    decide

theorem name_ne_temporaryName (number other : UInt64) (compressed compressed' : Bool) :
    name number compressed ≠ temporaryName other compressed' := by
  intro h
  have hnumber := congrArg number? h
  rw [number?_name, number?_temporaryName] at hnumber
  cases hnumber

theorem name_inj {number other : UInt64} {compressed compressed' : Bool}
    (h : name number compressed = name other compressed') : number = other := by
  have hnumber := congrArg number? h
  rw [number?_name, number?_name] at hnumber
  exact Option.some.inj hnumber

end BlockFile

/-! ### Block files -/

namespace BlockFile

variable {d d' : Directory} {name : String}

/-- The block files of a directory are its entries whose names tell a number. -/
theorem mem_list_iff {number : UInt64} :
    (number, name) ∈ list d ↔ (∃ entry, d.find? name = some entry) ∧ number? name = some number := by
  rw [list, List.mem_mergeSort, List.mem_filterMap]
  simp only [Option.map_eq_some_iff, Prod.mk.injEq, ← Directory.mem_names_iff]
  constructor
  · rintro ⟨other, hname, n, hn, rfl, rfl⟩
    exact ⟨hname, hn⟩
  · rintro ⟨hname, hnumber⟩
    exact ⟨name, hname, number, hnumber, rfl, rfl⟩

/-- Block files are listed by ascending number. -/
theorem pairwise_list (d : Directory) : (list d).Pairwise fun a b => a.1 ≤ b.1 := by
  refine (List.pairwise_mergeSort ?_ ?_ _).imp of_decide_eq_true
  · intro a b c hab hbc
    simp only [decide_eq_true_eq] at hab hbc ⊢
    exact UInt64.le_trans hab hbc
  · intro a b
    simp only [Bool.or_eq_true, decide_eq_true_eq]
    exact UInt64.le_total ..

theorem nodup_list (h : d.Distinct) : (list d).Nodup := by
  refine (List.mergeSort_perm _ _).nodup_iff.mpr (h.nodup_names.filterMap ?_)
  rintro a b ⟨n, name⟩ ha hb
  simp only [Option.mem_def, Option.map_eq_some_iff, Prod.mk.injEq] at ha hb
  obtain ⟨-, -, -, rfl⟩ := ha
  obtain ⟨-, -, -, rfl⟩ := hb
  rfl

/-- No number is listed twice just if files that are listed with one number are the same. -/
theorem pairwise_lt_iff (h : d.Distinct) :
    (list d).Pairwise (fun a b => a.1 < b.1) ↔ ∀ a ∈ list d, ∀ b ∈ list d, a.1 = b.1 → a = b := by
  constructor
  · intro hstrict a ha b hb hnumber
    have hnumbers : ((list d).map Prod.fst).Nodup := List.pairwise_map.mpr (hstrict.imp UInt64.ne_of_lt)
    exact List.inj_on_of_nodup_map hnumbers ha hb hnumber
  · intro hsame
    have hsorted := (pairwise_list d).and (nodup_list h)
    exact hsorted.imp_of_mem fun {a b} ha hb hab =>
      UInt64.lt_of_le_of_ne hab.1 fun hnumber => hab.2 (hsame a ha b hb hnumber)

/-- The block files of a directory, in the order of different numbers, are as they are listed. -/
theorem list_eq_of_mem_iff (h : d.Distinct) {files : List (UInt64 × String)}
    (hsorted : files.Pairwise fun a b => a.1 < b.1) (hmem : ∀ file, file ∈ list d ↔ file ∈ files) :
    list d = files := by
  have hnumbers : (files.map (·.1)).Nodup := List.pairwise_map.mpr (hsorted.imp UInt64.ne_of_lt)
  have hperm := (List.perm_ext_iff_of_nodup (nodup_list h) (List.Nodup.of_map _ hnumbers)).mpr hmem
  refine hperm.eq_of_pairwise ?_ (pairwise_list d) (hsorted.imp UInt64.le_of_lt)
  intro a b ha hb hle hle'
  exact List.inj_on_of_nodup_map hnumbers ((hmem a).mp ha) hb (UInt64.le_antisymm hle hle')

variable [Compression]

theorem read_congr (h : d'.find? name = d.find? name) : read d' name = read d name := by
  rw [read, read, Directory.contentOf, Directory.contentOf, h]

/-- A block is read as it was written. -/
theorem read_fileContent {number : UInt64} {compressed : Bool} {framed : Bytes}
    (h : d.find? (BlockFile.name number compressed) = some (.file (fileContent compressed framed))) :
    read d (BlockFile.name number compressed) = .ok framed := by
  have hcontent : d.contentOf (BlockFile.name number compressed) = .ok (fileContent compressed framed) := by
    rw [Directory.contentOf, h]
  rw [read, hcontent, isCompressed_name]
  simp only [bind, Except.bind, fileContent]
  split
  · rw [Compression.decompress_compress]
    rfl
  · rfl

end BlockFile

/-! ### Directories with blocks -/

/-- A block as its file has it: its framed content, compressed or not. -/
structure StoredFile where
  compressed : Bool
  framed : Bytes

namespace StoredFile

variable [Compression]

/-- The entry of the file in a directory. -/
def entry (file : StoredFile) : DirEntry := .file (BlockFile.fileContent file.compressed file.framed)

/-- The name of the file of block `i`. -/
def nameAt (file : StoredFile) (i : Nat) : String := BlockFile.name (UInt64.ofNat i) file.compressed

end StoredFile

/-- The files of blocks numbered from `i` on, as recovery finds them. -/
def listing (i : Nat) : List StoredFile → List (UInt64 × String)
  | [] => []
  | file :: rest => (UInt64.ofNat i, file.nameAt i) :: listing (i + 1) rest

theorem listing_eq (i : Nat) (files : List StoredFile) :
    listing i files = files.mapIdx fun j file => (UInt64.ofNat (i + j), file.nameAt (i + j)) := by
  induction files generalizing i with
  | nil => rfl
  | cons file rest ih =>
    rw [listing, ih, List.mapIdx_cons]
    refine congrArg₂ _ rfl (congrArg (List.mapIdx · rest) ?_)
    funext j other
    rw [Nat.add_assoc, Nat.add_comm 1 j]

theorem listing_zero (files : List StoredFile) :
    listing 0 files = files.mapIdx fun j file => (UInt64.ofNat j, file.nameAt j) := by
  simp only [listing_eq, Nat.zero_add]

theorem length_listing (i : Nat) (files : List StoredFile) : (listing i files).length = files.length := by
  rw [listing_eq, List.length_mapIdx]

theorem getElem?_concat_cases {files : List StoredFile} {file other : StoredFile} {i : Nat}
    (h : (files ++ [file])[i]? = some other) :
    files[i]? = some other ∨ i = files.length ∧ other = file := by
  by_cases hlt : i < files.length
  · rw [List.getElem?_append_left hlt] at h
    exact .inl h
  · rw [List.getElem?_append_right (by omega), List.getElem?_singleton] at h
    split at h
    · rename_i hzero
      exact .inr ⟨by omega, (Option.some.inj h).symm⟩
    · cases h

namespace Directory

variable [Compression]

/-- The directory has the files of blocks numbered from zero on; all other files are being written. -/
structure Holds (d : Directory) (files : List StoredFile) : Prop where
  distinct : d.Distinct
  few : files.length ≤ UInt64.size
  stored : ∀ i (file : StoredFile), files[i]? = some file → d.find? (file.nameAt i) = some file.entry
  only : ∀ name entry, d.find? name = some entry →
    (∃ number compressed content,
      name = BlockFile.temporaryName number compressed ∧ entry = .file content) ∨
    ∃ i, ∃ file : StoredFile, files[i]? = some file ∧ name = file.nameAt i ∧ entry = file.entry

variable {d : Directory} {files : List StoredFile}

theorem holds_empty : Directory.empty.Holds [] where
  distinct := List.nodup_nil
  few := Nat.zero_le _
  stored _ _ h := by cases h
  only _ _ h := by cases h

theorem Holds.toNat_index (h : d.Holds files) {i : Nat} (hi : i < files.length) :
    (UInt64.ofNat i).toNat = i :=
  UInt64.toNat_ofNat_of_lt' (Nat.lt_of_lt_of_le hi h.few)

theorem Holds.pairwise_listing (h : d.Holds files) :
    (listing 0 files).Pairwise fun a b => a.1.toNat < b.1.toNat := by
  rw [listing_zero, List.pairwise_iff_getElem]
  intro i j hi hj hij
  rw [List.length_mapIdx] at hi hj
  simp only [List.getElem_mapIdx, h.toNat_index hi, h.toNat_index hj]
  exact hij

theorem Holds.mem_listing_iff (h : d.Holds files) {number : UInt64} {name : String} :
    (number, name) ∈ listing 0 files ↔ name ∈ d.names ∧ BlockFile.number? name = some number := by
  rw [listing_zero, List.mem_mapIdx]
  constructor
  · rintro ⟨i, hi, heq⟩
    cases heq
    exact ⟨mem_names_iff.mpr ⟨_, h.stored i _ (List.getElem?_eq_getElem hi)⟩, BlockFile.number?_name ..⟩
  · rintro ⟨hname, hnumber⟩
    obtain ⟨entry, hentry⟩ := mem_names_iff.mp hname
    rcases h.only name entry hentry with ⟨other, compressed, content, rfl, -⟩ | ⟨i, file, hi, rfl, -⟩
    · rw [BlockFile.number?_temporaryName] at hnumber
      cases hnumber
    · obtain ⟨hlt, hfile⟩ := List.getElem?_eq_some_iff.mp hi
      rw [StoredFile.nameAt, BlockFile.number?_name] at hnumber
      cases hnumber
      exact ⟨i, hlt, by rw [hfile]⟩

/-- **A directory that holds blocks lists them in their order.** -/
theorem Holds.list_eq (h : d.Holds files) : BlockFile.list d = listing 0 files := by
  refine BlockFile.list_eq_of_mem_iff h.distinct (h.pairwise_listing.imp UInt64.lt_iff_toNat_lt.mpr) ?_
  rintro ⟨number, name⟩
  rw [h.mem_listing_iff, mem_names_iff, BlockFile.mem_list_iff]

/-- The blocks in a directory are numbered from zero on. -/
theorem Holds.numbers_eq (h : d.Holds files) :
    (BlockFile.list d).map (fun file => file.1.toNat) = List.range (BlockFile.list d).length := by
  rw [h.list_eq, listing_zero]
  refine List.ext_getElem (by rw [List.length_map, List.length_range]) fun i hi _ => ?_
  rw [List.length_map, List.length_mapIdx] at hi
  simp only [List.getElem_map, List.getElem_mapIdx, List.getElem_range, h.toNat_index hi]

/-- A block is read as it was written. -/
theorem Holds.read_eq (h : d.Holds files) {i : Nat} {file : StoredFile} (hi : files[i]? = some file) :
    BlockFile.read d (file.nameAt i) = .ok file.framed :=
  BlockFile.read_fileContent (h.stored i file hi)

/-! ### Closing a block -/

/-- Files that are being written do not count. -/
theorem Holds.set_temporary (h : d.Holds files) (number : UInt64) (compressed : Bool) (content : Bytes) :
    (d.set (BlockFile.temporaryName number compressed) (.file content)).Holds files where
  distinct := h.distinct.set _ _
  few := h.few
  stored i file hi := by
    have hne : file.nameAt i ≠ BlockFile.temporaryName number compressed :=
      BlockFile.name_ne_temporaryName _ _ _ _
    rw [find?_set_of_ne hne]
    exact h.stored i file hi
  only name entry hentry := by
    by_cases hname : name = BlockFile.temporaryName number compressed
    · rw [hname, find?_set_self] at hentry
      exact .inl ⟨number, compressed, content, hname, (Option.some.inj hentry).symm⟩
    · rw [find?_set_of_ne hname] at hentry
      exact h.only name entry hentry

/-- No file has the name of the block to come. -/
theorem Holds.find?_next (h : d.Holds files) {number : UInt64} (hnumber : number.toNat = files.length)
    (compressed : Bool) : d.find? (BlockFile.name number compressed) = none := by
  rw [Option.eq_none_iff_forall_ne_some]
  intro entry hentry
  rcases h.only _ entry hentry with ⟨other, compressed', content, hname, -⟩ | ⟨i, file, hi, hname, -⟩
  · exact BlockFile.name_ne_temporaryName _ _ _ _ hname
  · obtain ⟨hlt, -⟩ := List.getElem?_eq_some_iff.mp hi
    rw [BlockFile.name_inj hname, h.toNat_index hlt] at hnumber
    omega

/-- Renaming makes the block that was written the next of the directory. -/
theorem Holds.rename (h : d.Holds files) {number : UInt64} (hnumber : number.toNat = files.length)
    (temporary : UInt64 × Bool) (file : StoredFile) :
    ((d.remove (BlockFile.temporaryName temporary.1 temporary.2)).set
      (BlockFile.name number file.compressed) file.entry).Holds (files ++ [file]) := by
  have hword : UInt64.ofNat files.length = number := by
    rw [← hnumber, UInt64.ofNat_toNat]
  refine ⟨(h.distinct.remove _).set _ _, ?_, ?_, ?_⟩
  · have hsize := number.toNat_lt
    rw [List.length_append, List.length_singleton, ← hnumber]
    exact hsize
  · intro i other hi
    rcases getElem?_concat_cases hi with hi | ⟨rfl, rfl⟩
    · have hold := h.stored i other hi
      have hne : other.nameAt i ≠ BlockFile.name number file.compressed := by
        intro hname
        rw [hname, h.find?_next hnumber] at hold
        cases hold
      have hother : other.nameAt i ≠ BlockFile.temporaryName temporary.1 temporary.2 :=
        BlockFile.name_ne_temporaryName _ _ _ _
      rw [find?_set_of_ne hne, find?_remove_of_ne hother]
      exact hold
    · rw [StoredFile.nameAt, hword, find?_set_self]
  · intro name entry hentry
    by_cases hname : name = BlockFile.name number file.compressed
    · rw [hname, find?_set_self] at hentry
      refine .inr ⟨files.length, file, List.getElem?_concat_length .., ?_, (Option.some.inj hentry).symm⟩
      rw [hname, StoredFile.nameAt, hword]
    · rw [find?_set_of_ne hname] at hentry
      by_cases htemporary : name = BlockFile.temporaryName temporary.1 temporary.2
      · rw [htemporary, find?_remove_self] at hentry
        cases hentry
      · rw [find?_remove_of_ne htemporary] at hentry
        refine (h.only name entry hentry).imp_right ?_
        rintro ⟨i, other, hi, hother⟩
        obtain ⟨hlt, -⟩ := List.getElem?_eq_some_iff.mp hi
        exact ⟨i, other, (List.getElem?_append_left hlt).trans hi, hother⟩

/-- A step on a name that is no folder. -/
theorem Holds.step_create (h : d.Holds files) (name : String) :
    d.step (.create name) = .ok (d.set name (.file [])) := by
  rw [step]
  split
  · rename_i hfolder
    rcases h.only name .folder hfolder with ⟨_, _, _, -, hentry⟩ | ⟨_, _, -, -, hentry⟩
    · cases hentry
    · cases hentry
  · rfl

/-- **Closing a block, cut off anywhere, leaves the blocks as they were or adds the new one**; all of its
steps together do add it. -/
theorem Holds.closeSteps (h : d.Holds files) {number : UInt64} (hnumber : number.toNat = files.length)
    (file : StoredFile) :
    ((d.steps (FileStore.closeSteps number file.compressed file.framed)).1 = .ok () ∧
      (d.steps (FileStore.closeSteps number file.compressed file.framed)).2.Holds (files ++ [file])) ∧
    ∀ done, FileStep.Cut done (FileStore.closeSteps number file.compressed file.framed) →
      (d.steps done).2.Holds files ∨ (d.steps done).2.Holds (files ++ [file]) := by
  rw [FileStore.closeSteps]
  generalize htemporary : BlockFile.temporaryName number file.compressed = temporary
  have hcreate := h.step_create temporary
  have hcreated := h.set_temporary number file.compressed []
  have htorn := hcreated.set_temporary number file.compressed
  have hrenamed := (htorn (BlockFile.fileContent file.compressed file.framed)).rename hnumber
    (number, file.compressed) file
  rw [htemporary] at hcreated htorn hrenamed
  have hwrite := step_write (d := d.set temporary (.file [])) find?_set_self
  have habsent := (htorn (BlockFile.fileContent file.compressed file.framed)).find?_next hnumber file.compressed
  have hrename := step_rename find?_set_self (habsent.trans_ne (Option.some_ne_none _).symm)
  constructor
  · rw [steps_cons_of_ok hcreate, steps_cons_of_ok (hwrite _), steps_cons_of_ok rfl, steps_cons_of_ok hrename]
    exact ⟨rfl, hrenamed⟩
  · intro done hdone
    cases hdone with
    | off => exact .inl h
    | cons hafter =>
    rw [steps_cons_of_ok hcreate]
    cases hafter with
    | off => exact .inl hcreated
    | torn _ =>
      rw [steps_cons_of_ok (hwrite _)]
      exact .inl (htorn _)
    | cons hlater =>
    rw [steps_cons_of_ok (hwrite _)]
    cases hlater with
    | off => exact .inl (htorn _)
    | cons hlast =>
    rw [steps_cons_of_ok rfl]
    cases hlast with
    | off => exact .inl (htorn _)
    | cons hnil =>
    rw [steps_cons_of_ok hrename]
    cases hnil
    exact .inr hrenamed

end Directory

end RoundChain
