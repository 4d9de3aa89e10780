import RoundChain.StreamInfo
import Mathlib.Data.List.DropRight

/-!
# Trailing hashes

A stream's position keeps the hashes of its newest blocks in a queue and answers
for a block by counting back from the newest one. The queue says nothing of
numbers, so an answer is right only if the queue holds the newest hashes without
a gap, whatever limits it was cut to on the way.

## The model

A `Recording` is a block that is recorded and the limit that holds then, which may
change from block to block: `kept` counts the hashes that the limits leave, and
`Shows` is the invariant that one recording preserves, that the queue is the hashes
of so many of the newest blocks. `trailing_window` reads the answers for all numbers
off it.
-/

namespace RoundChain

namespace StreamInfo

/-! ### Recordings -/

/-- A block that is recorded, and how many trailing hashes may be kept then. -/
structure Recording where
  number : UInt64
  hash : BlockHash
  endTime : Timestamp
  limit : Nat
  deriving DecidableEq, Repr

/-- The position after recordings, one after the other. -/
def recordEach (info : StreamInfo) (recordings : List Recording) : StreamInfo :=
  recordings.foldl (fun info r => info.record r.number r.hash r.endTime r.limit) info

/-- How many hashes are left: each recording adds one, and its limit cuts them off. -/
def kept (recordings : List Recording) : Nat :=
  recordings.foldl (fun count r => min (count + 1) r.limit) 0

/-- The recorded blocks have consecutive numbers, from a first one on. -/
def Consecutive (first : Nat) (recordings : List Recording) : Prop :=
  recordings.map (·.number.toNat) = List.range' first recordings.length

instance (first : Nat) (recordings : List Recording) : Decidable (Consecutive first recordings) :=
  inferInstanceAs (Decidable (_ = _))

theorem recordEach_concat (info : StreamInfo) (recordings : List Recording) (r : Recording) :
    info.recordEach (recordings ++ [r]) =
      (info.recordEach recordings).record r.number r.hash r.endTime r.limit :=
  List.foldl_concat ..

theorem kept_concat (recordings : List Recording) (r : Recording) :
    kept (recordings ++ [r]) = min (kept recordings + 1) r.limit :=
  List.foldl_concat ..

/-- No more hashes are left than blocks were recorded. -/
theorem kept_le_length (recordings : List Recording) : kept recordings ≤ recordings.length := by
  induction recordings using List.reverseRecOn with
  | nil => exact Nat.le_refl 0
  | append_singleton recordings r ih =>
    rw [kept_concat, List.length_append, List.length_singleton]
    omega

/-! ### The queue -/

theorem rtake_rtake {α : Type} (xs : List α) (m n : Nat) : (xs.rtake m).rtake n = xs.rtake (min n m) := by
  simp only [List.rtake_eq_reverse_take_reverse, List.reverse_reverse, List.take_take]

theorem map_rtake {α β : Type} (f : α → β) (xs : List α) (n : Nat) : (xs.rtake n).map f = (xs.map f).rtake n := by
  rw [List.rtake, List.rtake, List.map_drop, List.length_map]

variable {info : StreamInfo} {recordings : List Recording}

/-- The position shows the newest of the recorded blocks: the last one's number, and the hashes of
as many as the limits leave, oldest first. -/
structure Shows (info : StreamInfo) (recordings : List Recording) : Prop where
  last : info.lastNumber = recordings.getLast?.map (·.number)
  trailing : info.trailing = (recordings.rtake (kept recordings)).map (·.hash)

/-- One recording keeps the queue right: the limit leaves the newest of the hashes that were left
before and the new one. -/
theorem Shows.record (h : info.Shows recordings) (r : Recording) :
    (info.record r.number r.hash r.endTime r.limit).Shows (recordings ++ [r]) where
  last := by rw [List.getLast?_concat]; rfl
  trailing := by
    calc (info.record r.number r.hash r.endTime r.limit).trailing
        = (info.trailing ++ [r.hash]).rtake r.limit := rfl
      _ = ((recordings.rtake (kept recordings) ++ [r]).map (·.hash)).rtake r.limit := by
        rw [h.trailing, List.map_append, List.map_singleton]
      _ = (((recordings ++ [r]).rtake (kept recordings + 1)).rtake r.limit).map (·.hash) := by
        rw [List.rtake_concat_succ, map_rtake]
      _ = ((recordings ++ [r]).rtake (kept (recordings ++ [r]))).map (·.hash) := by
        rw [rtake_rtake, kept_concat, Nat.min_comm]

/-- The position of a chain shows the newest of its blocks, whatever limits there were. -/
theorem shows_recordEach (anchor : BlockHash) (version : SoftwareVersion) (recordings : List Recording) :
    ((anchored anchor version).recordEach recordings).Shows recordings := by
  induction recordings using List.reverseRecOn with
  | nil => exact ⟨rfl, rfl⟩
  | append_singleton recordings r ih =>
    rw [recordEach_concat]
    exact ih.record r

/-! ### Answers by number -/

theorem Consecutive.number_eq {first : Nat} (h : Consecutive first recordings) {r : Recording} {i : Nat}
    (hr : recordings[i]? = some r) : r.number.toNat = first + i := by
  have hnumber : (recordings.map (·.number.toNat))[i]? = some r.number.toNat := by
    rw [List.getElem?_map, hr]
    rfl
  obtain ⟨hlt, heq⟩ := List.getElem?_eq_some_iff.mp (h ▸ hnumber)
  rw [← heq, List.getElem_range', Nat.one_mul]

/-- Counting back from the last of consecutive blocks meets each at its number's distance. -/
theorem Consecutive.number_add {first : Nat} (h : Consecutive first recordings) {r last : Recording} {back : Nat}
    (hr : recordings.reverse[back]? = some r) (hlast : recordings.getLast? = some last) :
    r.number.toNat + back = last.number.toNat := by
  have hback : back < recordings.length := by
    rw [← List.length_reverse]
    exact (List.getElem?_eq_some_iff.mp hr).1
  rw [List.getElem?_reverse hback] at hr
  rw [List.getLast?_eq_getElem?] at hlast
  rw [h.number_eq hr, h.number_eq hlast]
  omega

/-- The hash that the position tells of a number is the recorded one of a block that it shows. -/
theorem Shows.trailingHash?_eq_some_iff {first : Nat} (h : info.Shows recordings)
    (hnumbers : Consecutive first recordings) {n : UInt64} {hash : BlockHash} :
    info.trailingHash? n = some hash ↔
      ∃ r ∈ recordings.rtake (kept recordings), r.number = n ∧ r.hash = hash := by
  have hreverse : info.trailing.reverse = (recordings.reverse.take (kept recordings)).map (·.hash) := by
    rw [h.trailing, ← List.map_reverse, List.rtake_eq_reverse_take_reverse, List.reverse_reverse]
  have hmem : ∀ r, r ∈ recordings.rtake (kept recordings) ↔ r ∈ recordings.reverse.take (kept recordings) := by
    intro r
    rw [List.rtake_eq_reverse_take_reverse, List.mem_reverse]
  rw [trailingHash?, h.last]
  cases hlast : recordings.getLast? with
  | none =>
    rw [List.getLast?_eq_none_iff.mp hlast]
    simp
  | some last =>
    -- A block shown lies as far back as its number says.
    have hback : ∀ {back : Nat} {r : Recording}, (recordings.reverse.take (kept recordings))[back]? = some r →
        r.number.toNat + back = last.number.toNat := by
      intro back r hr
      refine hnumbers.number_add ?_ hlast
      rw [List.getElem?_take] at hr
      split at hr
      · exact hr
      · cases hr
    simp only [Option.map_some, hreverse, List.getElem?_map, hmem]
    constructor
    · intro hfound
      split at hfound
      · rename_i hle
        obtain ⟨r, hr, rfl⟩ := Option.map_eq_some_iff.mp hfound
        refine ⟨r, List.mem_of_getElem? hr, ?_, rfl⟩
        have hdistance := hback hr
        rw [UInt64.le_iff_toNat_le] at hle
        exact UInt64.toNat_inj.mp (by omega)
      · cases hfound
    · rintro ⟨r, hr, rfl, rfl⟩
      obtain ⟨back, hr⟩ := List.mem_iff_getElem?.mp hr
      have hdistance := hback hr
      have hle : r.number ≤ last.number := by
        rw [UInt64.le_iff_toNat_le]
        omega
      have hsub : last.number.toNat - r.number.toNat = back := by omega
      rw [if_pos hle, hsub, hr]
      rfl

/-- **The trailing hashes are the newest blocks' hashes.** Blocks of consecutive numbers that are recorded behind an
anchor, under limits that may change, leave the hashes of the newest ones, oldest first: as many as were left
before and one, or what the limit allows. A number is answered with the hash recorded for it if its block is one of
them, and any other number with none. -/
theorem trailing_window (anchor : BlockHash) (version : SoftwareVersion) {first : Nat} (recordings : List Recording)
    (hnumbers : Consecutive first recordings) :
    let info := (anchored anchor version).recordEach recordings
    let newest := recordings.rtake (kept recordings)
    newest.length = kept recordings ∧
      info.trailing = newest.map (·.hash) ∧
      (∀ r ∈ newest, info.trailingHash? r.number = some r.hash) ∧
      ∀ n, (∀ r ∈ newest, r.number ≠ n) → info.trailingHash? n = none := by
  intro info newest
  have hshows : info.Shows recordings := shows_recordEach anchor version recordings
  refine ⟨?_, hshows.trailing, ?_, ?_⟩
  · have hle := kept_le_length recordings
    simp only [newest, List.rtake, List.length_drop]
    omega
  · intro r hr
    exact (hshows.trailingHash?_eq_some_iff hnumbers).mpr ⟨r, hr, rfl, rfl⟩
  · intro n hn
    refine Option.eq_none_iff_forall_ne_some.mpr fun hash hfound => ?_
    obtain ⟨r, hr, hnumber, -⟩ := (hshows.trailingHash?_eq_some_iff hnumbers).mp hfound
    exact hn r hr hnumber

/-- Three blocks from number 7 on, the limit falling to two at the last of them. -/
def threeRecordings : List Recording :=
  [⟨7, .filled 1, ⟨0, 0⟩, 3⟩, ⟨8, .filled 2, ⟨1, 0⟩, 3⟩, ⟨9, .filled 3, ⟨2, 0⟩, 2⟩]

theorem trailing_window_falling_limit :
    Consecutive 7 threeRecordings ∧
      let info := (anchored .zero ⟨0, 1, 0⟩).recordEach threeRecordings
      info.trailing = [.filled 2, .filled 3] ∧ info.trailingHash? 8 = some (.filled 2) ∧
        info.trailingHash? 7 = none ∧ info.trailingHash? 10 = none := by
  have hnumbers : Consecutive 7 threeRecordings := by decide
  obtain ⟨-, htrailing, hfound, hmissing⟩ := trailing_window .zero ⟨0, 1, 0⟩ threeRecordings hnumbers
  refine ⟨hnumbers, htrailing, ?_, hmissing 7 (by decide), hmissing 10 (by decide)⟩
  exact hfound ⟨8, .filled 2, ⟨1, 0⟩, 3⟩ (by decide)

end StreamInfo

end RoundChain
