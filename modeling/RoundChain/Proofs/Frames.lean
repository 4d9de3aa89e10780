import RoundChain.Proofs.Outcome
import RoundChain.Stream.Pipeline

/-!
# Frames

A framed buffer and its items tell each other: `splitFrames` undoes `frameItems` and
refuses whatever `frameItems` does not give, `splitFrames_exact`. What `frameItems` gives
is the frames of its items, `frameItems_eq_ok_iff`. Batches change nothing of that; one
after the other they are the frame of all items.
-/

namespace RoundChain

/-! ### One frame -/

/-- The bytes of a frame: the item's length, cut to what the length field holds, and the item. -/
def frameBytes (item : Bytes) : Bytes := Bytes.ofNatLE framePrefixLength item.length ++ item

theorem frame_eq_ok_iff {item framed : Bytes} :
    frame item = .ok framed ↔
      item.length < UInt32.size ∧ framed = frameBytes item := by
  unfold frame
  split
  · rename_i h
    constructor
    · intro hf; cases hf; exact ⟨h, rfl⟩
    · rintro ⟨-, rfl⟩; rfl
  · rename_i h
    simp [h]

theorem frameItems_cons_eq_ok_iff {item : Bytes} {rest : List Bytes} {buffer : Bytes} :
    frameItems (item :: rest) = .ok buffer ↔
      ∃ framed more, frame item = .ok framed ∧ frameItems rest = .ok more ∧ buffer = framed ++ more := by
  rw [frameItems, bind_eq_ok_iff]
  constructor
  · rintro ⟨framed, hf, h⟩
    obtain ⟨more, hm, h⟩ := bind_eq_ok_iff.mp h
    cases h
    exact ⟨framed, more, hf, hm, rfl⟩
  · rintro ⟨framed, more, hf, hm, rfl⟩
    exact ⟨framed, hf, bind_eq_ok_iff.mpr ⟨more, hm, rfl⟩⟩

/-! ### Buffers -/

/-- A buffer is the frames of its items, and only an item too long for a frame keeps items from one. -/
theorem frameItems_eq_ok_iff {items : List Bytes} {buffer : Bytes} :
    frameItems items = .ok buffer ↔
      (∀ item ∈ items, item.length < UInt32.size) ∧ buffer = items.flatMap frameBytes := by
  induction items generalizing buffer with
  | nil => simp [frameItems, eq_comm]
  | cons item rest ih =>
    rw [frameItems_cons_eq_ok_iff, List.forall_mem_cons, List.flatMap_cons]
    constructor
    · rintro ⟨framed, more, hf, hm, rfl⟩
      obtain ⟨hlen, rfl⟩ := frame_eq_ok_iff.mp hf
      obtain ⟨hrest, rfl⟩ := ih.mp hm
      exact ⟨⟨hlen, hrest⟩, rfl⟩
    · rintro ⟨⟨hlen, hrest⟩, rfl⟩
      exact ⟨_, _, frame_eq_ok_iff.mpr ⟨hlen, rfl⟩, ih.mpr ⟨hrest, rfl⟩, rfl⟩

/-- What stands in a framed buffer is short enough to be framed. -/
theorem length_lt_of_frameItems {items : List Bytes} {buffer : Bytes} (h : frameItems items = .ok buffer) :
    ∀ item ∈ items, item.length < UInt32.size :=
  (frameItems_eq_ok_iff.mp h).1

/-- The frames of two lists stand one after the other; where both are refused, the first list tells why. -/
theorem frameItems_append_eq (xs ys : List Bytes) :
    frameItems (xs ++ ys) = do
      let front ← frameItems xs
      let back ← frameItems ys
      return front ++ back := by
  induction xs with
  | nil =>
    cases hy : frameItems ys with
    | error _ => rw [List.nil_append, hy]; rfl
    | ok back => rw [List.nil_append, hy]; rfl
  | cons x xs ih =>
    rw [List.cons_append, frameItems, frameItems, ih]
    -- the first refusal of all is the refusal of either side
    cases frame x with
    | error _ => rfl
    | ok framed =>
      cases frameItems xs with
      | error _ => rfl
      | ok front =>
        cases frameItems ys with
        | error _ => rfl
        | ok back => exact congrArg Except.ok (List.append_assoc framed front back).symm

theorem frameItems_append {xs ys : List Bytes} {front back : Bytes} (hx : frameItems xs = .ok front)
    (hy : frameItems ys = .ok back) : frameItems (xs ++ ys) = .ok (front ++ back) := by
  rw [frameItems_append_eq, hx, hy]
  rfl

theorem frameItems_singleton {item framed : Bytes} (h : frame item = .ok framed) :
    frameItems [item] = .ok framed :=
  frameItems_cons_eq_ok_iff.mpr ⟨framed, [], h, rfl, (List.append_nil framed).symm⟩

theorem splitFrames_append {item framed : Bytes} (h : frame item = .ok framed) (rest : Bytes) :
    splitFrames (framed ++ rest) = (splitFrames rest).map (item :: ·) := by
  obtain ⟨hlen, rfl⟩ := frame_eq_ok_iff.mp h
  have hnum : Bytes.toNatLE (Bytes.ofNatLE 4 item.length) = item.length := by
    rw [Bytes.toNatLE_ofNatLE, Nat.mod_eq_of_lt hlen]
  -- the length field, byte by byte, as `splitFrames` reads it
  obtain ⟨b₀, b₁, b₂, b₃, hbytes⟩ : ∃ b₀ b₁ b₂ b₃, Bytes.ofNatLE 4 item.length = [b₀, b₁, b₂, b₃] :=
    ⟨_, _, _, _, rfl⟩
  rw [hbytes] at hnum
  rw [frameBytes, framePrefixLength, hbytes, List.append_assoc]
  simp only [List.cons_append, List.nil_append]
  rw [splitFrames]
  simp only [hnum, List.take_left, List.drop_left, if_true]

theorem frameItems_of_splitFrames {buffer : Bytes} {items : List Bytes}
    (h : splitFrames buffer = .ok items) : frameItems items = .ok buffer := by
  fun_induction splitFrames buffer generalizing items with
  | case1 => cases h; rfl
  | case2 b₀ b₁ b₂ b₃ rest length item hitem =>
    rename_i ih
    obtain ⟨items, hs, rfl⟩ := map_eq_ok_iff.mp h
    have hlt : length < Nat.pow 256 4 := Bytes.toNatLE_lt [b₀, b₁, b₂, b₃]
    have hbytes : Bytes.ofNatLE 4 length = [b₀, b₁, b₂, b₃] := Bytes.ofNatLE_toNatLE [b₀, b₁, b₂, b₃]
    have hf : frame item = .ok ([b₀, b₁, b₂, b₃] ++ item) :=
      frame_eq_ok_iff.mpr ⟨hitem ▸ hlt, by rw [frameBytes, hitem, framePrefixLength, hbytes]⟩
    refine frameItems_cons_eq_ok_iff.mpr ⟨_, _, hf, ih hs, ?_⟩
    simp [item]
  | case3 => cases h
  | case4 => cases h

/-- A buffer splits into the items whose frames it consists of. -/
theorem splitFrames_eq_ok_iff {buffer : Bytes} {items : List Bytes} :
    splitFrames buffer = .ok items ↔ frameItems items = .ok buffer := by
  refine ⟨frameItems_of_splitFrames, ?_⟩
  intro h
  induction items generalizing buffer with
  | nil => cases h; rw [splitFrames]
  | cons item rest ih =>
    obtain ⟨framed, more, hf, hm, rfl⟩ := frameItems_cons_eq_ok_iff.mp h
    rw [splitFrames_append hf, ih hm]
    rfl

/-- A buffer that is not split is refused with a text about its bytes. -/
theorem splitFrames_eq_error {buffer : Bytes} {e : StreamError} (h : splitFrames buffer = .error e) :
    ∃ text, e = .serialization text := by
  fun_induction splitFrames buffer with
  | case1 => cases h
  | case2 b₀ b₁ b₂ b₃ rest length item hitem =>
    rename_i ih
    -- the front frame is whole, so the refusal is the one of the buffer behind it
    cases hrest : splitFrames (rest.drop length) with
    | ok items => rw [hrest] at h; cases h
    | error cause => rw [hrest] at h; cases h; exact ih hrest
  | case3 => cases h; exact ⟨_, rfl⟩
  | case4 => cases h; exact ⟨_, rfl⟩

/-- A buffer of whole frames: of items, each short enough for one. -/
def IsFramed (buffer : Bytes) : Prop :=
  ∃ items : List Bytes, (∀ item ∈ items, item.length < UInt32.size) ∧ buffer = items.flatMap frameBytes

theorem isFramed_iff {buffer : Bytes} : IsFramed buffer ↔ ∃ items, splitFrames buffer = .ok items := by
  simp only [IsFramed, splitFrames_eq_ok_iff, frameItems_eq_ok_iff]

/-- **Lists of items and framed buffers are the same.** A buffer splits into the items that frame to it, and
into no others. So a list of items that all fit a frame is read back as it is, different lists have different
buffers, and the buffer of two lists together is their buffers together. Every buffer is split or refused for its
bytes, and those refused are the ones that are not made of whole frames. -/
theorem splitFrames_exact :
    (∀ buffer items, splitFrames buffer = .ok items ↔ frameItems items = .ok buffer) ∧
      (∀ items : List Bytes, (∀ item ∈ items, item.length < UInt32.size) →
        ∃ buffer, frameItems items = .ok buffer ∧ splitFrames buffer = .ok items) ∧
      (∀ xs ys buffer, frameItems xs = .ok buffer → frameItems ys = .ok buffer → xs = ys) ∧
      (∀ xs ys, frameItems (xs ++ ys) = do
        let front ← frameItems xs
        let back ← frameItems ys
        return front ++ back) ∧
      (∀ buffer, (∃ items, splitFrames buffer = .ok items) ∨
        ∃ text, splitFrames buffer = .error (.serialization text)) ∧
      ∀ buffer, (∃ text, splitFrames buffer = .error (.serialization text)) ↔ ¬ IsFramed buffer := by
  refine ⟨fun _ _ => splitFrames_eq_ok_iff, ?readBack, ?distinct, frameItems_append_eq, ?ends, ?refused⟩
  case readBack =>
    intro items hshort
    have hframed : frameItems items = .ok (items.flatMap frameBytes) := frameItems_eq_ok_iff.mpr ⟨hshort, rfl⟩
    exact ⟨_, hframed, splitFrames_eq_ok_iff.mpr hframed⟩
  case distinct =>
    intro xs ys buffer hx hy
    have hsplit : splitFrames buffer = .ok xs := splitFrames_eq_ok_iff.mpr hx
    rw [splitFrames_eq_ok_iff.mpr hy] at hsplit
    exact (Except.ok.inj hsplit).symm
  case ends =>
    intro buffer
    cases h : splitFrames buffer with
    | ok items => exact .inl ⟨items, rfl⟩
    | error cause =>
      obtain ⟨text, rfl⟩ := splitFrames_eq_error h
      exact .inr ⟨text, rfl⟩
  case refused =>
    intro buffer
    rw [isFramed_iff]
    cases h : splitFrames buffer with
    | ok items => simp
    | error cause =>
      obtain ⟨text, rfl⟩ := splitFrames_eq_error h
      simp

/-! ### Batches -/

theorem flatten_chunks (size : Nat) (items : List Bytes) : (chunks size items).flatten = items := by
  fun_induction chunks size items with
  | case1 => rfl
  | case2 item rest ih =>
    rw [List.flatten_cons, ih, List.cons_append, List.take_append_drop]

theorem frameItems_flatten {groups : List (List Bytes)} {batches : List Bytes}
    (h : List.Forall₂ (fun group batch => frameItems group = .ok batch) groups batches) :
    frameItems groups.flatten = .ok batches.flatten := by
  induction h with
  | nil => rfl
  | cons hg _ ih => exact frameItems_append hg ih

/-- The batches of items are, one after the other, the frames of these items. -/
theorem frameItems_of_frameBatches {size : Nat} {items batches : List Bytes}
    (h : frameBatches size items = .ok batches) : frameItems items = .ok batches.flatten := by
  have := frameItems_flatten (mapM_eq_ok_iff.mp h)
  rwa [flatten_chunks] at this

end RoundChain
