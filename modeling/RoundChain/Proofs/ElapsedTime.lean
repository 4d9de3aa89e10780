import RoundChain.Block.Policy
import RoundChain.Proofs.Blocks

/-!
# Elapsed time

The rule of a period closes a block once the milliseconds from the block's first
round to its last reach the period. Both times are cut to milliseconds before they
are subtracted, and what is cut off the two does not cancel: where the later time
is less far into its millisecond than the earlier one is, the milliseconds counted
are one more than the whole milliseconds that passed.

## The model

`Timestamp.nanosSince` is the exact time that passed and `Timestamp.subMillis` what
a time loses when it is cut. `Timestamp.Overcounts` says which pairs of times are
counted a millisecond too far; `period_closes_iff` turns this into what the rule
decides, for every block and every period, and `period_closes_early` is a block
that closes before its period has passed.
-/

namespace RoundChain

namespace Timestamp

variable (t earlier : Timestamp)

/-! ### The exact measure -/

/-- The exact nanoseconds from `earlier` to `t`: none if `t` is not later. -/
def nanosSince : Nat := (t.totalNanos - earlier.totalNanos).toNat

/-- The nanoseconds a time is into its millisecond. -/
def subMillis : Nat := t.nanos.toNat % 1000000

/-- The milliseconds counted from `earlier` to `t` are one more than the whole ones that passed. -/
def Overcounts : Prop := 0 < t.nanosSince earlier ∧ t.subMillis < earlier.subMillis

instance : Decidable (t.Overcounts earlier) := inferInstanceAs (Decidable (_ ∧ _))

/-- Cutting a time to milliseconds takes off what it is into its millisecond, on both sides of the
epoch. -/
theorem totalNanos_eq : t.totalNanos = t.millis * 1000000 + t.subMillis := by
  have hcut := Nat.div_add_mod t.nanos.toNat 1000000
  simp only [totalNanos, millis, subMillis]
  omega

theorem subMillis_lt : t.subMillis < 1000000 := Nat.mod_lt _ (by decide)

/-! ### Milliseconds counted -/

/-- The milliseconds between two times, before they are put into a word. -/
theorem toNat_millis_sub :
    (t.millis - earlier.millis).toNat =
      t.nanosSince earlier / 1000000 + if t.Overcounts earlier then 1 else 0 := by
  have ht := t.totalNanos_eq
  have he := earlier.totalNanos_eq
  have htlt := t.subMillis_lt
  have helt := earlier.subMillis_lt
  -- The exact difference is the one of the cut times and the one of what was cut off; only where
  -- the second is negative does it take a millisecond off the first.
  by_cases hover : t.Overcounts earlier
  · rw [if_pos hover]
    obtain ⟨hlater, hsub⟩ := hover
    rw [nanosSince] at hlater ⊢
    omega
  · rw [if_neg hover]
    rw [Overcounts, nanosSince, not_and, Nat.not_lt] at hover
    rw [nanosSince]
    omega

/-- The milliseconds that `millisSince` counts: the whole ones that passed, and one more where the
two times are counted too far, up to the last number of a word. -/
theorem toNat_millisSince :
    (t.millisSince earlier).toNat =
      min (t.nanosSince earlier / 1000000 + if t.Overcounts earlier then 1 else 0)
        (UInt64.size - 1) := by
  have hword : min (t.millis - earlier.millis).toNat (UInt64.size - 1) < UInt64.size := by
    simp only [UInt64.size]
    omega
  rw [millisSince, UInt64.toNat_ofNat_of_lt' hword, toNat_millis_sub]

/-- A period has passed by the milliseconds counted if it has passed, or if it ends in the one
millisecond counted too far. The end of the numbers of a word decides nothing, since no period is
longer. -/
theorem le_millisSince_iff (ms : UInt64) :
    ms ≤ t.millisSince earlier ↔
      ms.toNat * 1000000 ≤ t.nanosSince earlier ∨
        t.Overcounts earlier ∧ t.nanosSince earlier / 1000000 + 1 = ms.toNat := by
  have hms : ms.toNat ≤ UInt64.size - 1 := Nat.le_sub_one_of_lt ms.toNat_lt_size
  rw [UInt64.le_iff_toNat_le, toNat_millisSince, Nat.le_min, and_iff_left hms,
    ← Nat.le_div_iff_mul_le (by decide)]
  split <;> rename_i hover
  · simp only [hover, true_and]
    omega
  · simp only [hover, false_and, or_false, Nat.add_zero]

end Timestamp

/-! ### The rule of a period -/

/-- **What a period measures.** The rule of a period closes a block just if that many milliseconds
have passed from its first round to its last, to the nanosecond, or all but less than one of them
have and the last round's time is less far into its millisecond than the first one's is. -/
theorem period_closes_iff (block : PendingBlock) (config : StreamConfig) (ms : UInt64) :
    (BoundaryPolicy.configured block { config with boundary := .period ms } = true ↔
      ms.toNat * 1000000 ≤ block.lastTime.nanosSince block.firstTime ∨
        block.lastTime.Overcounts block.firstTime ∧
          block.lastTime.nanosSince block.firstTime / 1000000 + 1 = ms.toNat) ∧
      (block.lastTime.millisSince block.firstTime).toNat =
        min (block.lastTime.nanosSince block.firstTime / 1000000 +
            if block.lastTime.Overcounts block.firstTime then 1 else 0) (UInt64.size - 1) := by
  refine ⟨?_, block.lastTime.toNat_millisSince block.firstTime⟩
  rw [← block.lastTime.le_millisSince_iff block.firstTime]
  exact decide_eq_true_iff

/-- A block whose two rounds are a nanosecond apart, the second at the start of a millisecond, closes
under the rule of one millisecond: one millisecond is counted where no whole one passed. -/
theorem period_closes_early :
    ∃ opened : PendingBlock,
      PendingBlock.start 0 BlockHash.zero 1 ⟨0, 999999⟩ ⟨0, 1, 0⟩ .supplied = .ok opened ∧
        let block := opened.beginRound 2 ⟨0, 1000000⟩
        block.firstTime = ⟨0, 999999⟩ ∧ block.lastTime = ⟨0, 1000000⟩ ∧
          BoundaryPolicy.configured block { boundary := .period 1 } = true ∧
          block.lastTime.totalNanos - block.firstTime.totalNanos = 1 ∧
          block.lastTime.millisSince block.firstTime = 1 := by
  obtain ⟨opened, hopened⟩ := PendingBlock.exists_start 0 BlockHash.zero 1 ⟨0, 999999⟩ ⟨0, 1, 0⟩ .supplied
  obtain ⟨framed, -, hpushed⟩ := PendingBlock.push_eq_ok_iff.mp (PendingBlock.append_eq_ok_iff.mp hopened).2
  have hfirst : opened.firstTime = ⟨0, 999999⟩ := by rw [hpushed]; rfl
  refine ⟨opened, hopened, hfirst, rfl, ?_⟩
  simp only [BoundaryPolicy.configured, BoundaryRule.closes, PendingBlock.beginRound, hfirst]
  decide

end RoundChain
