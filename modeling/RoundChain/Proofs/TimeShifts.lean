import Mathlib.Data.Prod.Lex
import RoundChain.Proofs.ElapsedTime

/-!
# Shifted times

A time is shifted by milliseconds in words of three kinds: the nanoseconds are
summed in a word of 64 bits, the seconds in a signed one, and what is left of the
nanoseconds is cut to a word of 32 bits. `plusMillis_exact` says that the shifted
time is the exact one, that only the seconds can leave their word, and that they do
so just if the exact seconds are too many.

## The model

`Timestamp.plusMillis` checks its limit once, at its end. `Timestamp.plusMillisByWords`
takes every step in the word it is taken in and checks each; the two are equal, since
the nanoseconds always fit and a sum of seconds that is too great is not made smaller
by the carry. Both are described by `Timestamp.nanosSum` and `Timestamp.secondsSum`,
the exact sums, from which everything else follows.

Times are ordered by their seconds and then by their nanoseconds, also where these are
a second or more: `Timestamp.lt_plusMillis` holds in this order, in which a time of
one second and no nanoseconds is later than one of no seconds and two seconds of
nanoseconds.
-/

namespace RoundChain

/-! ### Words -/

/-- The product of two words, if it is one. -/
def mulWords {ε : Type} (a b : UInt64) : Checked ε UInt64 :=
  if a.toNat * b.toNat < UInt64.size then .ok (a * b) else .error (.exceeded .word)

/-- The sum of two signed words, if it is one. -/
def addSigned {ε : Type} (a b : Int64) : Checked ε Int64 :=
  if Int64.minValue.toInt ≤ a.toInt + b.toInt ∧ a.toInt + b.toInt ≤ Int64.maxValue.toInt then
    .ok (a + b)
  else
    .error (.exceeded .word)

theorem mulWords_eq_ofNat {ε : Type} {a b : UInt64} (h : a.toNat * b.toNat < UInt64.size) :
    mulWords (ε := ε) a b = .ok (.ofNat (a.toNat * b.toNat)) := by
  rw [mulWords, if_pos h, UInt64.ofNat_mul, UInt64.ofNat_toNat, UInt64.ofNat_toNat]

theorem addWords_eq_ofNat {ε : Type} {a b : UInt64} (h : a.toNat + b.toNat < UInt64.size) :
    addWords (ε := ε) a b = .ok (.ofNat (a.toNat + b.toNat)) := by
  rw [addWords, if_pos h, UInt64.ofNat_add, UInt64.ofNat_toNat, UInt64.ofNat_toNat]

/-- A number below the end of the signed words is the same number signed. -/
theorem toInt_toInt64 {n : UInt64} (h : n.toNat < 0x8000000000000000) : n.toInt64.toInt = n.toNat := by
  rw [← Int64.toInt_ofNat_of_lt (by omega), ← UInt64.toInt64_ofNat', UInt64.ofNat_toNat]

/-- Adding no less than nothing, a sum can only be too great. -/
theorem addSigned_of_nonneg {ε : Type} {a b : Int64} (hb : 0 ≤ b.toInt) :
    addSigned (ε := ε) a b =
      if a.toInt + b.toInt < 0x8000000000000000 then .ok (.ofInt (a.toInt + b.toInt))
      else .error (.exceeded .word) := by
  have hfirst := a.minValue_le_toInt
  have hmax : Int64.maxValue.toInt = 0x7fffffffffffffff := rfl
  rw [addSigned, Int64.ofInt_add, Int64.ofInt_toInt, Int64.ofInt_toInt]
  exact if_congr (by omega) rfl rfl

/-- Adding two numbers no less than nothing, the first sum is too great only if the second is. -/
theorem addSigned_addSigned {ε : Type} {a b c : Int64} (hb : 0 ≤ b.toInt) (hc : 0 ≤ c.toInt) :
    (addSigned (ε := ε) a b >>= fun sum => addSigned sum c) =
      if a.toInt + b.toInt + c.toInt < 0x8000000000000000 then
        .ok (.ofInt (a.toInt + b.toInt + c.toInt))
      else .error (.exceeded .word) := by
  have hfirst := a.minValue_le_toInt
  have hmin : Int64.minValue.toInt = -0x8000000000000000 := rfl
  rw [addSigned_of_nonneg hb]
  split
  · have hsum : (Int64.ofInt (a.toInt + b.toInt)).toInt = a.toInt + b.toInt :=
      Int64.toInt_ofInt_of_le (by omega) (by omega)
    change addSigned (Int64.ofInt (a.toInt + b.toInt)) c = _
    rw [addSigned_of_nonneg hc, hsum]
  · exact (if_neg (by omega)).symm

namespace Timestamp

variable {ε : Type} (t : Timestamp) (ms : UInt64)

/-! ### The shift in words -/

/-- The nanoseconds of a shift, in words: what the time is into its second, and what the
milliseconds are more than whole seconds. -/
def nanosByWords : Checked ε UInt64 := do
  addWords t.nanos.toUInt64 (← mulWords (ms % 1000) 1000000)

/-- The shifted time with every step checked in its word. -/
def plusMillisByWords : Checked ε Timestamp := do
  let nanos ← t.nanosByWords ms
  let whole ← addSigned t.seconds (ms / 1000).toInt64
  let seconds ← addSigned whole (nanos / 1000000000).toInt64
  .ok ⟨seconds, (nanos % 1000000000).toUInt32⟩

/-- The nanoseconds of a shift. -/
def nanosSum : Nat := t.nanos.toNat + ms.toNat % 1000 * 1000000

/-- The seconds of the shifted time. -/
def secondsSum : Int := t.seconds.toInt + (ms.toNat / 1000 : Nat) + (t.nanosSum ms / 1000000000 : Nat)

/-- The nanoseconds of a shift are few. -/
theorem nanosSum_lt : t.nanosSum ms < 5294000000 := by
  have hnanos := t.nanos.toNat_lt
  have hrest := Nat.mod_lt ms.toNat (by decide : 0 < 1000)
  rw [nanosSum]
  omega

theorem nanosByWords_eq : t.nanosByWords (ε := ε) ms = .ok (.ofNat (t.nanosSum ms)) := by
  have hsum := t.nanosSum_lt ms
  rw [nanosSum] at hsum ⊢
  have hrest : (ms % 1000).toNat = ms.toNat % 1000 := UInt64.toNat_mod ..
  have hmillion : (1000000 : UInt64).toNat = 1000000 := rfl
  have hmul := mulWords_eq_ofNat (ε := ε) (a := ms % 1000) (b := 1000000)
    (by rw [hrest, hmillion, size_word]; omega)
  rw [hrest, hmillion] at hmul
  have hpart : (UInt64.ofNat (ms.toNat % 1000 * 1000000)).toNat = ms.toNat % 1000 * 1000000 :=
    UInt64.toNat_ofNat_of_lt' (by rw [size_word]; omega)
  have hadd := addWords_eq_ofNat (ε := ε) (a := t.nanos.toUInt64) (b := .ofNat (ms.toNat % 1000 * 1000000))
    (by rw [hpart, UInt32.toNat_toUInt64, size_word]; omega)
  rw [hpart, UInt32.toNat_toUInt64] at hadd
  exact bind_eq_ok_iff.mpr ⟨_, hmul, hadd⟩

theorem plusMillis_def :
    t.plusMillis (ε := ε) ms =
      if t.secondsSum ms < 0x8000000000000000 then
        .ok ⟨.ofInt (t.secondsSum ms), .ofNat (t.nanosSum ms % 1000000000)⟩
      else .error (.exceeded .word) := rfl

/-- **The shift fits its words.** Taken in words, the shift gives the same time, or stops at the same
limit: the nanoseconds never leave their word, and the seconds leave theirs on the way only if they
do in the end. -/
theorem plusMillisByWords_eq : t.plusMillisByWords (ε := ε) ms = t.plusMillis ms := by
  have hsum := t.nanosSum_lt ms
  have hms := ms.toNat_lt
  have hnanos : (UInt64.ofNat (t.nanosSum ms)).toNat = t.nanosSum ms :=
    UInt64.toNat_ofNat_of_lt' (by rw [size_word]; omega)
  have hsecond : (1000000000 : UInt64).toNat = 1000000000 := rfl
  have hwhole : (ms / 1000).toInt64.toInt = (ms.toNat / 1000 : Nat) := by
    have hdiv : (ms / 1000).toNat = ms.toNat / 1000 := UInt64.toNat_div ..
    rw [toInt_toInt64 (by omega), hdiv]
  have hcarry : (UInt64.ofNat (t.nanosSum ms) / 1000000000).toInt64.toInt =
      (t.nanosSum ms / 1000000000 : Nat) := by
    have hdiv : (UInt64.ofNat (t.nanosSum ms) / 1000000000).toNat = t.nanosSum ms / 1000000000 := by
      rw [UInt64.toNat_div, hnanos, hsecond]
    rw [toInt_toInt64 (by omega), hdiv]
  have hrest : (UInt64.ofNat (t.nanosSum ms) % 1000000000).toUInt32 =
      UInt32.ofNat (t.nanosSum ms % 1000000000) := by
    rw [← UInt32.toNat_inj, UInt64.toNat_toUInt32, UInt64.toNat_mod, hnanos, hsecond, UInt32.toNat_ofNat']
  have hseconds := addSigned_addSigned (ε := ε) (a := t.seconds) (b := (ms / 1000).toInt64)
    (c := (UInt64.ofNat (t.nanosSum ms) / 1000000000).toInt64) (by omega) (by omega)
  rw [hwhole, hcarry] at hseconds
  rw [plusMillisByWords, nanosByWords_eq, plusMillis_def]
  change (addSigned t.seconds (ms / 1000).toInt64 >>= fun whole =>
    addSigned whole (UInt64.ofNat (t.nanosSum ms) / 1000000000).toInt64 >>= fun seconds =>
      Except.ok (Timestamp.mk seconds (UInt64.ofNat (t.nanosSum ms) % 1000000000).toUInt32)) = _
  rw [← bind_assoc, hseconds, hrest, secondsSum]
  split <;> rfl

/-! ### The exact time -/

/-- The seconds of the shifted time are those of the exact one. -/
theorem secondsSum_eq : t.secondsSum ms = (t.totalNanos + ms.toNat * 1000000) / 1000000000 := by
  rw [secondsSum, nanosSum, totalNanos]
  omega

/-- What is left of the nanoseconds is what the exact time is into its second. -/
theorem secondsSum_nanosSum :
    t.secondsSum ms * 1000000000 + (t.nanosSum ms % 1000000000 : Nat) =
      t.totalNanos + ms.toNat * 1000000 := by
  rw [secondsSum, nanosSum, totalNanos]
  omega

variable {t ms}

/-- A time is the shifted one if it has the seconds and the rest of the nanoseconds of the sums. -/
theorem plusMillis_eq_ok_iff {later : Timestamp} :
    t.plusMillis (ε := ε) ms = .ok later ↔
      later.seconds.toInt = t.secondsSum ms ∧ later.nanos.toNat = t.nanosSum ms % 1000000000 := by
  have hfirst := t.seconds.minValue_le_toInt
  have hmin : Int64.minValue.toInt = -0x8000000000000000 := rfl
  have hlast := later.seconds.toInt_lt
  have hnanos : (UInt32.ofNat (t.nanosSum ms % 1000000000)).toNat = t.nanosSum ms % 1000000000 :=
    UInt32.toNat_ofNat_of_lt' (by simp only [UInt32.size]; omega)
  rw [plusMillis_def]
  constructor
  · intro hshifted
    split at hshifted
    · rename_i hfits
      cases hshifted
      exact ⟨Int64.toInt_ofInt_of_le (by rw [secondsSum]; omega) hfits, hnanos⟩
    · cases hshifted
  · rintro ⟨hseconds, hrest⟩
    rw [if_pos (by omega), ← hseconds, Int64.ofInt_toInt, ← hrest, UInt32.ofNat_toNat]

/-- No shift stops but for seconds that are too many. -/
theorem plusMillis_eq_error_iff {stop : Stop ε} :
    t.plusMillis ms = .error stop ↔
      stop = .exceeded .word ∧ 0x8000000000000000 ≤ t.secondsSum ms := by
  rw [plusMillis_def]
  split
  · rename_i hfits
    simp only [reduceCtorEq, false_iff, not_and]
    omega
  · rename_i hover
    rw [Except.error.injEq, eq_comm, iff_self_and]
    omega

section Shifted

variable {later : Timestamp} (h : t.plusMillis (ε := ε) ms = .ok later)
include h

/-- A shifted time is into its second by less than one. -/
theorem nanos_plusMillis : later.nanos.toNat < 1000000000 := by
  rw [(plusMillis_eq_ok_iff.mp h).2]
  exact Nat.mod_lt _ (by decide)

theorem totalNanos_plusMillis : later.totalNanos = t.totalNanos + ms.toNat * 1000000 := by
  obtain ⟨hseconds, hnanos⟩ := plusMillis_eq_ok_iff.mp h
  rw [← secondsSum_nanosSum, totalNanos, hseconds, hnanos]

/-- Shifting a time leaves what it is into its millisecond. -/
theorem millis_plusMillis : later.millis = t.millis + ms.toNat := by
  have htotal := totalNanos_plusMillis h
  have hlater := later.totalNanos_eq
  have hearlier := t.totalNanos_eq
  have hlaterLt := later.subMillis_lt
  have hearlierLt := t.subMillis_lt
  omega

theorem millisSince_plusMillis : later.millisSince t = ms := by
  have hms := ms.toNat_lt_size
  have hpassed : (later.millis - t.millis).toNat = ms.toNat := by
    rw [millis_plusMillis h]
    omega
  rw [millisSince, hpassed, Nat.min_eq_left (by omega), UInt64.ofNat_toNat]

end Shifted

/-! ### One shift after another -/

section Twice

variable {more sum : UInt64} (hsum : sum.toNat = ms.toNat + more.toNat)
include hsum

/-- Shifting on, the nanoseconds that are left are those of the whole shift. -/
theorem nanosSum_twice {later : Timestamp} (hlater : later.nanos.toNat = t.nanosSum ms % 1000000000) :
    later.nanosSum more % 1000000000 = t.nanosSum sum % 1000000000 := by
  simp only [nanosSum] at hlater ⊢
  rw [hlater, hsum]
  omega

/-- Shifting on, the seconds are those of the whole shift. -/
theorem secondsSum_twice {later : Timestamp} (h : t.plusMillis (ε := ε) ms = .ok later) :
    later.secondsSum more = t.secondsSum sum := by
  rw [secondsSum_eq, secondsSum_eq, totalNanos_plusMillis h, hsum]
  congr 1
  omega

/-- A shift and another are one, whichever of them leaves the word. -/
theorem plusMillis_twice :
    (t.plusMillis (ε := ε) ms >>= fun later => later.plusMillis more) = t.plusMillis sum := by
  cases hshifted : t.plusMillis (ε := ε) ms with
  | error stop =>
    obtain ⟨rfl, hover⟩ := plusMillis_eq_error_iff.mp hshifted
    have hmono : t.secondsSum ms ≤ t.secondsSum sum := by
      rw [secondsSum_eq, secondsSum_eq, hsum]
      omega
    exact (plusMillis_eq_error_iff.mpr ⟨rfl, by omega⟩).symm
  | ok later =>
    change later.plusMillis more = _
    rw [plusMillis_def, plusMillis_def, secondsSum_twice hsum hshifted,
      nanosSum_twice hsum (plusMillis_eq_ok_iff.mp hshifted).2]

end Twice

end Timestamp

/-- **Shifting is exact.** The nanoseconds are summed within their word, and taken word by word the
shift comes to the same. It stops just if the exact seconds are more than a signed word holds; else
the shifted time is normal and later by exactly that many milliseconds, in nanoseconds, in
milliseconds since the epoch and in milliseconds elapsed. Shifting twice is shifting by the sum. -/
theorem plusMillis_exact {ε : Type} (t : Timestamp) (ms : UInt64) :
    let seconds : Int := (t.totalNanos + ms.toNat * 1000000) / 1000000000
    (∃ nanos, t.nanosByWords (ε := ε) ms = .ok nanos ∧
        nanos.toNat = t.nanos.toNat + ms.toNat % 1000 * 1000000) ∧
      t.plusMillisByWords (ε := ε) ms = t.plusMillis ms ∧
      (t.plusMillis (ε := ε) ms = .error (.exceeded .word) ↔ Int64.maxValue.toInt < seconds) ∧
      (seconds ≤ Int64.maxValue.toInt →
        ∃ later, t.plusMillis (ε := ε) ms = .ok later ∧
          later.nanos.toNat < 1000000000 ∧
          later.totalNanos = t.totalNanos + ms.toNat * 1000000 ∧
          later.millis = t.millis + ms.toNat ∧
          later.millisSince t = ms) ∧
      ∀ more : UInt64, ms.toNat + more.toNat < UInt64.size →
        (t.plusMillis (ε := ε) ms >>= fun later => later.plusMillis more) =
          t.plusMillis (ms + more) := by
  intro seconds
  have hseconds : t.secondsSum ms = seconds := t.secondsSum_eq ms
  have hmax : Int64.maxValue.toInt = 0x7fffffffffffffff := rfl
  refine ⟨⟨_, t.nanosByWords_eq ms, ?nanos⟩, t.plusMillisByWords_eq ms, ?overflow, ?fits, ?twice⟩
  case nanos =>
    have hsum := t.nanosSum_lt ms
    exact UInt64.toNat_ofNat_of_lt' (by rw [size_word]; omega)
  case overflow =>
    rw [Timestamp.plusMillis_eq_error_iff, ← hseconds]
    simp only [true_and]
    omega
  case fits =>
    intro hfits
    cases hshifted : t.plusMillis (ε := ε) ms with
    | error stop =>
      have hover := (Timestamp.plusMillis_eq_error_iff.mp hshifted).2
      omega
    | ok later =>
      exact ⟨later, rfl, Timestamp.nanos_plusMillis hshifted, Timestamp.totalNanos_plusMillis hshifted,
        Timestamp.millis_plusMillis hshifted, Timestamp.millisSince_plusMillis hshifted⟩
  case twice =>
    intro more hsum
    refine Timestamp.plusMillis_twice ?_
    rw [UInt64.toNat_add]
    exact Nat.mod_eq_of_lt hsum

/-- A time before the epoch with more than four seconds of nanoseconds, shifted by less than a second
and then by two. -/
theorem plusMillis_exact_carry :
    let t : Timestamp := ⟨-1, 4294967295⟩
    (∃ later, t.plusMillis (ε := Empty) 999 = .ok later ∧ later.nanos.toNat < 1000000000 ∧
        later.totalNanos = t.totalNanos + 999 * 1000000 ∧ later.millis = t.millis + 999 ∧
        later.millisSince t = 999) ∧
      (t.plusMillis (ε := Empty) 999 >>= fun later => later.plusMillis 2000) = t.plusMillis 2999 ∧
      t.plusMillis (ε := Empty) 2999 = .ok ⟨6, 293967295⟩ := by
  intro t
  obtain ⟨-, -, -, hfits, htwice⟩ := plusMillis_exact (ε := Empty) t 999
  exact ⟨hfits (by decide), htwice 2000 (by decide), by decide⟩

/-! ### Order -/

namespace Timestamp

/-- What times are ordered by: the seconds, and then the nanoseconds. -/
def key (t : Timestamp) : Int ×ₗ Nat := toLex (t.seconds.toInt, t.nanos.toNat)

theorem key_injective : Function.Injective key := by
  rintro ⟨s, n⟩ ⟨s', n'⟩ h
  obtain ⟨hs, hn⟩ := Prod.mk.inj (toLex.injective h)
  cases Int64.toInt_inj.mp hs
  cases UInt32.toNat_inj.mp hn
  rfl

/-- Comparing times is comparing their keys. -/
theorem compare_eq_key (a b : Timestamp) :
    a.compare b = if a.key < b.key then .lt else if a.key = b.key then .eq else .gt :=
  LinearOrder.compare_eq_compareOfLessAndEq a.key b.key

instance : LinearOrder Timestamp :=
  { LinearOrder.lift' key key_injective with
    toDecidableEq := inferInstance
    compare := Timestamp.compare
    compare_eq_compareOfLessAndEq := fun a b => by
      simp only [compare_eq_key, compareOfLessAndEq, key_injective.eq_iff]
      exact if_congr Iff.rfl rfl rfl }

variable {a b : Timestamp}

/-- The order of times is the one they are compared by. -/
theorem compare_eq_lt : a.compare b = .lt ↔ a < b :=
  compare_lt_iff_lt (α := Timestamp)

theorem lt_iff :
    a < b ↔ a.seconds.toInt < b.seconds.toInt ∨
      a.seconds.toInt = b.seconds.toInt ∧ a.nanos.toNat < b.nanos.toNat :=
  Prod.Lex.lt_iff

/-- A shift takes a time forward: the seconds grow, or they stay and the nanoseconds do. -/
theorem lt_plusMillis {ε : Type} {ms : UInt64} (hms : ms ≠ 0) (h : a.plusMillis (ε := ε) ms = .ok b) :
    a < b := by
  obtain ⟨hseconds, hnanos⟩ := plusMillis_eq_ok_iff.mp h
  have hpos : 0 < ms.toNat := Nat.pos_of_ne_zero fun hzero => hms (UInt64.toNat_inj.mp hzero)
  rw [secondsSum, nanosSum] at hseconds
  rw [nanosSum] at hnanos
  rw [lt_iff]
  omega

end Timestamp

end RoundChain
