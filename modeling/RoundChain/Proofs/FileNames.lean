import Mathlib.Data.List.DropRight
import Mathlib.Data.List.Infix
import Mathlib.Data.String.Basic
import RoundChain.Proofs.BlockFiles

/-!
# Names of block files

The name of a block's file and the number of the block tell each other: the file name of
a block's path is read as the block's number, other numbers and the other setting have
other names, and under one setting the names have the order of the numbers. A block is
written under its own name with another extension, which is read as no number.

## The model

A path's file name, `fileName?`, and a file name with another extension,
`withExtension`, follow the rules of paths: parts without a name do not count, and an
extension begins at the last point.

Numerals of one length have the order of their numbers,
`Numeral.lt_iff_ofDigitChars_lt`, and twenty digits are enough for the numbers of all
words, so the zeros in front put all names in order.
-/

namespace RoundChain

/-! ### The order of numerals -/

namespace Numeral

theorem toNat_of_isDigit {c : Char} (h : c.isDigit = true) : 48 ≤ c.toNat ∧ c.toNat ≤ 57 :=
  Char.isDigit_iff_toNat.mp h

/-- The first digit counts as often as there are numerals of the rest. -/
theorem ofDigitChars_cons_zero (c : Char) (rest : List Char) :
    Nat.ofDigitChars 10 (c :: rest) 0 = 10 ^ rest.length * (c.toNat - 48) + Nat.ofDigitChars 10 rest 0 := by
  have hzero : '0'.toNat = 48 := rfl
  rw [Nat.ofDigitChars_cons, Nat.ofDigitChars_eq_ofDigitChars_zero, Nat.mul_zero, Nat.zero_add, hzero]

theorem ofDigitChars_lt {cs : List Char} (hdigits : ∀ c ∈ cs, c.isDigit = true) :
    Nat.ofDigitChars 10 cs 0 < 10 ^ cs.length := by
  induction cs with
  | nil => exact Nat.one_pos
  | cons c rest ih =>
    rw [List.forall_mem_cons] at hdigits
    have hrest := ih hdigits.2
    have hc : c.toNat - 48 ≤ 9 := Nat.sub_le_of_le_add (toNat_of_isDigit hdigits.1).2
    have hfirst := Nat.mul_le_mul_left (10 ^ rest.length) hc
    rw [ofDigitChars_cons_zero, List.length_cons, Nat.pow_succ]
    omega

/-- Of two numbers, the leading parts decide, and the rests where these are the same. -/
theorem mul_add_lt_mul_add_iff {b p q r s : Nat} (hr : r < b) (hs : s < b) :
    b * p + r < b * q + s ↔ p < q ∨ p = q ∧ r < s := by
  rcases Nat.lt_trichotomy p q with hlt | rfl | hgt
  · have hstep := Nat.mul_le_mul_left b (Nat.succ_le_of_lt hlt)
    rw [Nat.mul_succ] at hstep
    omega
  · omega
  · have hstep := Nat.mul_le_mul_left b (Nat.succ_le_of_lt hgt)
    rw [Nat.mul_succ] at hstep
    omega

/-- **Numerals of one length have the order of their numbers.** -/
theorem lt_iff_ofDigitChars_lt {xs ys : List Char} (hlength : xs.length = ys.length)
    (hxs : ∀ c ∈ xs, c.isDigit = true) (hys : ∀ c ∈ ys, c.isDigit = true) :
    xs < ys ↔ Nat.ofDigitChars 10 xs 0 < Nat.ofDigitChars 10 ys 0 := by
  induction xs generalizing ys with
  | nil =>
    obtain rfl := List.length_eq_zero_iff.mp hlength.symm
    exact iff_of_false (List.lt_irrefl _) (Nat.lt_irrefl _)
  | cons x xs ih =>
    obtain ⟨y, ys, rfl⟩ := List.exists_cons_of_length_eq_add_one hlength.symm
    rw [List.forall_mem_cons] at hxs hys
    have hrest : xs.length = ys.length := Nat.succ.inj hlength
    have hx := toNat_of_isDigit hxs.1
    have hy := toNat_of_isDigit hys.1
    have hlt : x < y ↔ x.toNat - 48 < y.toNat - 48 := by
      have hchars : x < y ↔ x.toNat < y.toNat := Iff.rfl
      rw [hchars]
      omega
    have heq : x = y ↔ x.toNat - 48 = y.toNat - 48 := by
      rw [← Char.toNat_inj]
      omega
    rw [List.cons_lt_cons_iff, ih hrest hxs.2 hys.2, hlt, heq, ofDigitChars_cons_zero, ofDigitChars_cons_zero,
      hrest, mul_add_lt_mul_add_iff (hrest ▸ ofDigitChars_lt hxs.2) (ofDigitChars_lt hys.2)]

theorem ofDigitChars_padded (width n : Nat) : Nat.ofDigitChars 10 (padded width n) 0 = n := by
  rw [padded, Nat.ofDigitChars_append, Nat.ofDigitChars_replicate_zero, Nat.mul_zero,
    Nat.ofDigitChars_ten_toDigits]

theorem length_padded {width n : Nat} (hwidth : 0 < width) (h : n < 10 ^ width) :
    (padded width n).length = width := by
  have hdigits := (Nat.length_toDigits_le_iff (by decide) hwidth).mpr h
  rw [padded, List.length_append, List.length_replicate]
  omega

/-- Padded to one width, numerals have the order of their numbers. -/
theorem padded_lt_iff {width a b : Nat} (hwidth : 0 < width) (ha : a < 10 ^ width) (hb : b < 10 ^ width) :
    padded width a < padded width b ↔ a < b := by
  have hlength : (padded width a).length = (padded width b).length := by
    rw [length_padded hwidth ha, length_padded hwidth hb]
  rw [lt_iff_ofDigitChars_lt hlength (fun _ => isDigit_of_mem_padded) (fun _ => isDigit_of_mem_padded),
    ofDigitChars_padded, ofDigitChars_padded]

end Numeral

/-! ### Paths -/

/-- The file name of a path: its last part, unless that leads up. Empty parts and points alone do not count. -/
def fileName? (path : String) : Option String :=
  let parts := (path.toList.splitOn '/').filter fun part => part ≠ [] ∧ part ≠ ['.']
  (parts.getLast?.filter (· ≠ ['.', '.'])).map String.ofList

/-- A file name with another extension in place of what stands behind its last point; a point that the name
begins with does not count. -/
def withExtension (name extension : String) : String :=
  let stem := name.toList.rdropWhile (· ≠ '.')
  if stem.length ≤ 1 then name ++ "." ++ extension else String.ofList (stem ++ extension.toList)

/-- A name of three characters or more is the file name of every path that it ends. -/
theorem fileName?_of_toList {path name : String}
    (hpath : path.toList = name.toList ∨ ∃ front, path.toList = front ++ '/' :: name.toList)
    (hslash : '/' ∉ name.toList) (hlong : 2 < name.toList.length) : fileName? path = some name := by
  have hwhole : name.toList.splitOn '/' = [name.toList] := by
    rw [List.splitOn_eq_splitOnP]
    refine List.splitOnP_eq_singleton fun c hc => beq_false_of_ne ?_
    rintro rfl
    exact hslash hc
  obtain ⟨hnamed, hpoint, hup⟩ : name.toList ≠ [] ∧ name.toList ≠ ['.'] ∧ name.toList ≠ ['.', '.'] := by
    refine ⟨fun h => ?_, fun h => ?_, fun h => ?_⟩ <;> · rw [h] at hlong; exact absurd hlong (by decide)
  have hkept : [name.toList].filter (fun part => part ≠ [] ∧ part ≠ ['.']) = [name.toList] := by
    simp [hnamed, hpoint]
  have hlast : ((path.toList.splitOn '/').filter fun part => part ≠ [] ∧ part ≠ ['.']).getLast? =
      some name.toList := by
    rcases hpath with hpath | ⟨front, hpath⟩
    · rw [hpath, hwhole, hkept]
      rfl
    · have hsplit : (front ++ '/' :: name.toList).splitOn '/' = front.splitOn '/' ++ [name.toList] := by
        rw [← hwhole]
        exact List.splitOnP_append_cons front name.toList (beq_self_eq_true '/')
      rw [hpath, hsplit, List.filter_append, hkept, List.getLast?_concat]
  rw [fileName?, hlast]
  simp [hup]

example : ["/data/blocks/", "data/.", "data/..", "/"].map fileName? = [some "blocks", some "data", none, none] := by
  decide

/-- An extension is what stands behind the last point. -/
theorem withExtension_ofList {stem old : List Char} (extension : String) (hstem : stem ≠ []) (hold : '.' ∉ old) :
    withExtension (String.ofList (stem ++ '.' :: old)) extension =
      String.ofList (stem ++ '.' :: extension.toList) := by
  have hdropped : (stem ++ '.' :: old).rdropWhile (· ≠ '.') = stem ++ ['.'] := by
    have hskipped : ∀ c ∈ old.reverse, decide (c ≠ '.') = true := by
      intro c hc
      refine decide_eq_true ?_
      rintro rfl
      exact hold (List.mem_reverse.mp hc)
    rw [List.rdropWhile, List.reverse_append, List.reverse_cons, List.append_assoc,
      List.dropWhile_append_of_pos hskipped, List.singleton_append, List.dropWhile_cons_of_neg (by decide),
      List.reverse_cons, List.reverse_reverse]
  have hpos : 0 < stem.length := List.length_pos_iff.mpr hstem
  have hlong : ¬ (stem ++ ['.']).length ≤ 1 := by
    rw [List.length_append, List.length_singleton]
    omega
  rw [withExtension, String.toList_ofList, hdropped, if_neg hlong, List.append_assoc]
  rfl

example : ["3.blk.zst", "3", ".blk"].map (withExtension · "tmp") = ["3.blk.tmp", "3.tmp", ".blk.tmp"] := by decide

namespace BlockFile

/-! ### Names and numbers -/

theorem length_stem (number : UInt64) : (stem number).length = 20 :=
  Numeral.length_padded (by decide) (Nat.lt_trans number.toNat_lt (by decide))

theorem slash_not_mem_name (number : UInt64) (compressed : Bool) : '/' ∉ (name number compressed).toList := by
  have hstem : '/' ∉ stem number := fun h => absurd (Numeral.isDigit_of_mem_padded h) (by decide)
  rw [name, String.toList_ofList, List.mem_append, not_or]
  exact ⟨hstem, by cases compressed <;> decide⟩

theorem length_name (number : UInt64) (compressed : Bool) : 2 < (name number compressed).toList.length := by
  rw [name, String.toList_ofList, List.length_append, length_stem]
  omega

/-- The path of a block's file ends in the file's name. -/
theorem toList_path (dir : String) (number : UInt64) (compressed : Bool) :
    (path dir number compressed).toList = (name number compressed).toList ∨
      ∃ front, (path dir number compressed).toList = front ++ '/' :: (name number compressed).toList := by
  rw [path]
  split
  · rename_i hdir
    rcases hdir with rfl | hdir
    · exact .inl (by rw [String.empty_append])
    · rw [← String.endsWith_toSlice, String.Slice.endsWith_string_iff, String.copy_toSlice] at hdir
      obtain ⟨front, hfront⟩ := hdir
      refine .inr ⟨front, ?_⟩
      rw [String.toList_append, ← hfront, List.append_assoc]
      rfl
  · refine .inr ⟨dir.toList, ?_⟩
    rw [String.toList_append, String.toList_append, List.append_assoc]
    rfl

theorem fileName?_path (dir : String) (number : UInt64) (compressed : Bool) :
    fileName? (path dir number compressed) = some (name number compressed) :=
  fileName?_of_toList (toList_path dir number compressed) (slash_not_mem_name number compressed)
    (length_name number compressed)

/-- A block is written under its name with another extension. -/
theorem temporaryName_eq (number : UInt64) (compressed : Bool) :
    temporaryName number compressed = withExtension (name number compressed) "tmp" := by
  have hstem : stem number ≠ [] := by
    intro h
    have hlength := length_stem number
    rw [h] at hlength
    cases hlength
  cases compressed with
  | true =>
    have hsplit : stem number ++ compressedEnding = (stem number ++ plainEnding) ++ '.' :: ['z', 's', 't'] := by
      rw [List.append_assoc]
      rfl
    rw [name, if_pos rfl, hsplit, withExtension_ofList _ (List.append_ne_nil_of_left_ne_nil hstem _) (by decide)]
    rfl
  | false =>
    have hending : stem number ++ plainEnding = stem number ++ '.' :: ['b', 'l', 'k'] := rfl
    rw [name, if_neg Bool.false_ne_true, hending, withExtension_ofList _ hstem (by decide), temporaryName,
      if_neg Bool.false_ne_true, List.append_nil]
    rfl

/-- Different blocks, and one block under different settings, have different names. -/
theorem name_eq_iff {number other : UInt64} {compressed compressed' : Bool} :
    name number compressed = name other compressed' ↔ number = other ∧ compressed = compressed' := by
  refine ⟨fun h => ⟨name_inj h, ?_⟩, fun ⟨hnumber, hsetting⟩ => by rw [hnumber, hsetting]⟩
  have hsetting := congrArg isCompressed h
  rwa [isCompressed_name, isCompressed_name] at hsetting

theorem name_injective : Function.Injective fun file : UInt64 × Bool => name file.1 file.2 := by
  rintro ⟨number, compressed⟩ ⟨other, compressed'⟩ h
  obtain ⟨rfl, rfl⟩ := name_eq_iff.mp h
  rfl

theorem append_lt_append_iff {xs ys : List Char} (ending : List Char) (h : xs.length = ys.length) :
    xs ++ ending < ys ++ ending ↔ xs < ys := by
  induction xs generalizing ys with
  | nil =>
    obtain rfl := List.length_eq_zero_iff.mp h.symm
    exact iff_of_false (List.lt_irrefl _) (List.lt_irrefl _)
  | cons x xs ih =>
    obtain ⟨y, ys, rfl⟩ := List.exists_cons_of_length_eq_add_one h.symm
    rw [List.cons_append, List.cons_append, List.cons_lt_cons_iff, List.cons_lt_cons_iff, ih (Nat.succ.inj h)]

/-- Under one setting, names have the order of the numbers of their blocks. -/
theorem name_lt_iff (number other : UInt64) (compressed : Bool) :
    name number compressed < name other compressed ↔ number < other := by
  have hbound : ∀ n : UInt64, n.toNat < 10 ^ 20 := fun n => Nat.lt_trans n.toNat_lt (by decide)
  rw [String.lt_iff_toList_lt, name, name, String.toList_ofList, String.toList_ofList,
    append_lt_append_iff _ (by rw [length_stem, length_stem]), UInt64.lt_iff_toNat_lt]
  exact Numeral.padded_lt_iff (by decide) (hbound number) (hbound other)

end BlockFile

end RoundChain
