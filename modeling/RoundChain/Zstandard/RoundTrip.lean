import RoundChain.Zstandard.Frames

/-!
# Compressed content is read back

`Zstandard.compress` writes one frame of stored blocks, and `Zstandard.decompress` finds
the content in it again: `decompress_compress`. The reader fills a buffer of the size of
the window and begins it anew where it has no room for another block, so what it needs on
the way is `Roomy`.
-/

namespace RoundChain.Zstandard

/-! ### Bytes at the front -/

theorem takeBytes_append (front rest : Bytes) :
    takeBytes front.length (front ++ rest) = .ok (front, rest) := by
  simp [takeBytes]

theorem takeNat_ofNatLE {width n : Nat} (hn : n < Nat.pow 256 width) (rest : Bytes) :
    takeNat width (Bytes.ofNatLE width n ++ rest) = .ok (n, rest) := by
  have hfront := takeBytes_append (Bytes.ofNatLE width n) rest
  rw [Bytes.length_ofNatLE] at hfront
  rw [takeNat, hfront]
  simp only [Except.map, Bytes.toNatLE_ofNatLE, Nat.mod_eq_of_lt hn]

/-! ### Stored blocks -/

theorem read_blockHeader (last : Bool) {size : Nat} (hsize : size ≤ maxBlock) (rest : Bytes) :
    BlockHeader.read (blockHeader last 0 size ++ rest) = .ok (⟨last, 0, size⟩, rest) := by
  have hbound : (if last then 1 else 0) + 2 * 0 + 8 * size < Nat.pow 256 3 := by
    have hpow : Nat.pow 256 3 = 16777216 := rfl
    simp only [maxBlock] at hsize
    split <;> omega
  rw [BlockHeader.read, blockHeader, takeNat_ofNatLE hbound]
  have hkind : ((if last then 1 else 0) + 2 * 0 + 8 * size) / 2 % 4 = 0 := by split <;> omega
  have hwidth : ((if last then 1 else 0) + 2 * 0 + 8 * size) / 8 = size := by split <;> omega
  have hlast : decide (((if last then 1 else 0) + 2 * 0 + 8 * size) % 2 = 1) = last := by
    cases last <;> simp <;> omega
  simp only [bind, Except.bind, hkind, hwidth, hlast]
  rfl

/-- What the header of a compressed frame says. -/
def storedHeader : FrameHeader := ⟨FrameHeader.windowOf 0x58, 0, none, false⟩

theorem blockLimit_storedHeader : storedHeader.blockLimit = maxBlock := by decide

theorem read_storedHeader (bs : Bytes) : FrameHeader.read (0 :: 0x58 :: bs) = .ok (storedHeader, bs) := by
  have hdescriptor : takeNat 1 (0 :: 0x58 :: bs) = .ok (0, 0x58 :: bs) := rfl
  have hfields : takeBytes 1 (0x58 :: bs) = .ok ([0x58], bs) := rfl
  unfold FrameHeader.read
  simp only [hdescriptor, bind, Except.bind, Nat.zero_div, Nat.zero_mod, Nat.zero_ne_one, if_false,
    List.getD_cons_zero, Nat.add_zero, hfields]
  rfl

/-- The buffer of a reader has room for a block. -/
def Way.Roomy (w : Way) : Prop := ∃ size place, w = .byBlocks size place ∧ place + maxBlock ≤ size

theorem Way.Roomy.after {w : Way} (h : w.Roomy) (block : Nat) : (w.after storedHeader block).Roomy := by
  obtain ⟨size, place, rfl, hroom⟩ := h
  have hunknown : storedHeader.contentSize.any (· ≤ size) = false := rfl
  simp only [Way.after, hunknown, blockLimit_storedHeader, Bool.not_false, Bool.true_and]
  split
  · exact ⟨size, 0, rfl, by omega⟩
  · rename_i hfits
    refine ⟨size, place + block, rfl, ?_⟩
    by_cases hblock : block = 0
    · omega
    · simp [hblock] at hfits
      omega

theorem readBlock_stored {s : FrameState} (hs : s.way.Roomy) (last : Bool) {front : Bytes}
    (hfront : front.length ≤ maxBlock) (rest : Bytes) :
    readBlock storedHeader ⟨last, 0, front.length⟩ s (front ++ rest) =
      .ok (⟨s.content ++ front, s.memory, s.way.after storedHeader front.length⟩, rest) := by
  obtain ⟨size, place, hway, hroom⟩ := hs
  have hwithin : (s.way.isByBlocks && decide (storedHeader.blockLimit < front.length)) = false := by
    rw [blockLimit_storedHeader, decide_eq_false (by omega), Bool.and_false]
  have hfits : decide (s.way.room s.content.size < min front.length (front ++ rest).length) = false := by
    have hmin := Nat.min_le_left front.length (front ++ rest).length
    refine decide_eq_false ?_
    rw [hway, Way.room]
    omega
  have hgrowth : (s.content ++ front).size - s.content.size = front.length := by
    have hlist : (s.content ++ front).toList = s.content.toList ++ front := Array.toList_appendList
    rw [← Array.length_toList, hlist, List.length_append, Array.length_toList, Nat.add_sub_cancel_left]
  unfold readBlock
  simp only [BlockHeader.width, Nat.zero_ne_one, if_false, hwithin, hfits, Bool.and_false, Bool.false_eq_true,
    takeBytes_append, bind, Except.bind, pure, Except.pure, hgrowth]

/-- One step of reading: a stored block at the front. -/
theorem readBlocks_cons {s : FrameState} (hs : s.way.Roomy) (last : Bool) {front : Bytes}
    (hfront : front.length ≤ maxBlock) (fuel : Nat) (rest : Bytes) :
    readBlocks storedHeader (fuel + 1) s (blockHeader last 0 front.length ++ (front ++ rest)) =
      if last then .ok (s.content.toList ++ front, rest)
      else
        readBlocks storedHeader fuel
          ⟨s.content ++ front, s.memory, s.way.after storedHeader front.length⟩ rest := by
  have hlist : (s.content ++ front).toList = s.content.toList ++ front := Array.toList_appendList
  have hunknown : storedHeader.contentSize.any (· ≠ (s.content ++ front).size) = false := rfl
  rw [readBlocks, read_blockHeader last hfront]
  simp only [bind, Except.bind, readBlock_stored hs last hfront, hunknown, Bool.and_false, Bool.false_eq_true,
    if_false, pure, Except.pure, hlist]

/-- **Stored blocks are read as the content that they were cut from.** -/
theorem readBlocks_storedBlocks (content : Bytes) {fuel : Nat} (hfuel : content.length < fuel)
    {s : FrameState} (hs : s.way.Roomy) :
    readBlocks storedHeader fuel s (storedBlocks content) = .ok (s.content.toList ++ content, []) := by
  obtain ⟨left, rfl⟩ : ∃ left, fuel = left + 1 := ⟨fuel - 1, by omega⟩
  fun_induction storedBlocks content generalizing left s with
  | case1 content front hlong =>
    rename_i ih
    have hfront : front.length ≤ maxBlock := List.length_take_le ..
    have hlist : (s.content ++ front).toList = s.content.toList ++ front := Array.toList_appendList
    have hmax : 0 < maxBlock := by decide
    rw [List.append_assoc, readBlocks_cons hs false hfront, if_neg Bool.false_ne_true]
    obtain ⟨fewer, rfl⟩ : ∃ fewer, left = fewer + 1 := ⟨left - 1, by omega⟩
    rw [ih (hs.after _) fewer (by rw [List.length_drop]; omega), hlist, List.append_assoc,
      List.take_append_drop]
  | case2 content front =>
    rename_i hshort
    have hfront : front.length ≤ maxBlock := List.length_take_le ..
    have hall : front = content := List.take_of_length_le (by omega)
    have hstep := readBlocks_cons hs true hfront left []
    rw [List.append_nil, if_pos rfl] at hstep
    rw [hstep, hall]

theorem length_le_storedBlocks (content : Bytes) : content.length ≤ (storedBlocks content).length := by
  fun_induction storedBlocks content with
  | case1 content front hlong =>
    rename_i ih
    have hcut : content.length = front.length + (content.drop maxBlock).length := by
      rw [← List.length_append, List.take_append_drop]
    simp only [List.length_append]
    omega
  | case2 content front hshort =>
    have hall : front = content := List.take_of_length_le (by omega)
    rw [hall, List.length_append]
    omega

/-! ### Frames -/

theorem readFrame_stored (room : Nat) (content : Bytes) :
    ∃ buffers, readFrame room {} (0 :: 0x58 :: storedBlocks content) = .ok (content, buffers, []) := by
  have hunknown : storedHeader.contentSize.any (· ≤ room) = false := rfl
  have hwindow : decide (maxWindow < storedHeader.window) = false := by decide
  have hroom : (Way.byBlocks (({} : Buffers).fit storedHeader).output 0).Roomy := ⟨_, 0, rfl, by decide⟩
  have hfuel : content.length < (storedBlocks content).length + 1 :=
    Nat.lt_succ_of_le (length_le_storedBlocks content)
  have hread := readBlocks_storedBlocks content hfuel
    (s := { way := .byBlocks (({} : Buffers).fit storedHeader).output 0 }) hroom
  refine ⟨({} : Buffers).fit storedHeader, ?_⟩
  unfold readFrame
  simp only [read_storedHeader, bind, Except.bind, hunknown, Bool.false_and, hwindow, Bool.and_false,
    Bool.false_eq_true, if_false, hread]
  rfl

theorem readNext_compress (content : Bytes) :
    ∃ buffers, readNext {} (compress content) = .ok (({} : Progress).add content buffers, []) := by
  obtain ⟨buffers, hframe⟩ := readFrame_stored ({} : Progress).sink.room content
  refine ⟨buffers, ?_⟩
  have hfront : (compress content).take 4 = magic := rfl
  have hrest : (compress content).drop 4 = 0 :: 0x58 :: storedBlocks content := rfl
  have hmagic : magic.isPrefixOf magic = true := by decide
  unfold readNext
  simp only [hfront, hrest, hmagic, if_true, List.isEmpty_cons, Bool.false_eq_true, if_false, bind, Except.bind]
  rw [hframe]
  rfl

/-- **Compressed content is read back.** -/
theorem decompress_compress (content : Bytes) : decompress (compress content) = .ok content := by
  obtain ⟨buffers, hnext⟩ := readNext_compress content
  rw [decompress, readAll, hnext]
  rfl

end RoundChain.Zstandard
