import Mathlib.Data.UInt
import RoundChain.Config.Basic

/-!
# Waits between attempts

The wait after a failed attempt is computed in words: the doublings are a shift, the
product stops at the greatest word, and the cap comes last. `backoff_exact` says that
the wait is the capped exponential all the same, without bounds on the way to it, and
what follows for its order and its limits.

## The model

`RetryPolicy.backoffByWords` takes every step in the word it is taken in; it is equal
to `RetryPolicy.backoff`. The words are exact for two reasons: the shift is by sixteen
at most, and a product that had to stop at the greatest word has passed the cap.
-/

namespace RoundChain

namespace RetryPolicy

variable (policy : RetryPolicy)

/-! ### The wait in words -/

/-- A difference of words: zero where it would be below. -/
def subSaturating (a b : UInt32) : UInt32 := if b ≤ a then a - b else 0

/-- A product of words: the greatest word where it would be above. -/
def mulSaturating (a b : UInt64) : UInt64 :=
  if a.toNat * b.toNat < UInt64.size then a * b else .ofNat (UInt64.size - 1)

/-- The wait with every step taken in its word. -/
def backoffByWords (attempt : UInt32) : UInt64 :=
  let shift := min (subSaturating attempt 1) 16
  min (mulSaturating policy.initialBackoffMs (1 <<< shift.toUInt64)) policy.maxBackoffMs

theorem toNat_subSaturating (a b : UInt32) : (subSaturating a b).toNat = a.toNat - b.toNat := by
  rw [subSaturating]
  split
  · exact UInt32.toNat_sub_of_le _ _ ‹_›
  · rename_i hbelow
    have hless : a.toNat < b.toNat := Nat.lt_of_not_le hbelow
    rw [Nat.sub_eq_zero_of_le (Nat.le_of_lt hless)]
    rfl

theorem toNat_mulSaturating (a b : UInt64) :
    (mulSaturating a b).toNat = saturating (a.toNat * b.toNat) := by
  rw [mulSaturating, saturating]
  split
  · rename_i hfits
    rw [UInt64.toNat_mul, Nat.mod_eq_of_lt hfits, Nat.min_eq_left (Nat.le_sub_one_of_lt hfits)]
  · rename_i habove
    rw [Nat.min_eq_right (Nat.le_trans (Nat.sub_le _ _) (Nat.not_lt.mp habove))]
    rfl

/-- A shift by sixteen at most stays within the word. -/
theorem toNat_one_shiftLeft {n : UInt64} (h : n.toNat ≤ 16) : ((1 : UInt64) <<< n).toNat = 2 ^ n.toNat := by
  have hpow : 2 ^ n.toNat ≤ 2 ^ 16 := Nat.pow_le_pow_right (by decide) h
  have hone : (1 : UInt64).toNat = 1 := rfl
  rw [UInt64.toNat_shiftLeft, hone, Nat.mod_eq_of_lt (by omega : n.toNat < 64), Nat.shiftLeft_eq, Nat.one_mul]
  exact Nat.mod_eq_of_lt (by omega)

/-- Stopping at the greatest word does not show below a cap. -/
theorem min_saturating (n : Nat) (cap : UInt64) : min (saturating n) cap.toNat = min cap.toNat n := by
  have hcap : cap.toNat ≤ UInt64.size - 1 := Nat.le_sub_one_of_lt cap.toNat_lt_size
  rw [saturating]
  omega

/-! ### The capped exponential -/

/-- The wait, exactly. -/
theorem toNat_backoff (attempt : UInt32) :
    (policy.backoff attempt).toNat =
      min policy.maxBackoffMs.toNat
        (policy.initialBackoffMs.toNat * 2 ^ min (max attempt.toNat 1 - 1) 16) := by
  have hdoublings : attempt.toNat - 1 = max attempt.toNat 1 - 1 := by omega
  have hword : ∀ n, min policy.maxBackoffMs.toNat n < UInt64.size := fun n =>
    Nat.lt_of_le_of_lt (Nat.min_le_left _ n) policy.maxBackoffMs.toNat_lt_size
  rw [backoff, min_saturating, Nat.shiftLeft_eq, hdoublings, UInt64.toNat_ofNat_of_lt' (hword _)]

example : [1, 2, 3, 4, 40].map (backoff ⟨10, 100, 500⟩) = [100, 200, 400, 500, 500] := by decide

/-- **The words are exact.** Taken in words, the wait is the same. -/
theorem backoffByWords_eq (attempt : UInt32) : policy.backoffByWords attempt = policy.backoff attempt := by
  have hshift : (min (subSaturating attempt 1) 16).toUInt64.toNat = min (max attempt.toNat 1 - 1) 16 := by
    have hone : (1 : UInt32).toNat = 1 := rfl
    have hsixteen : (16 : UInt32).toNat = 16 := rfl
    rw [UInt32.toNat_toUInt64, UInt32.toNat_min, toNat_subSaturating, hone, hsixteen]
    omega
  have hpower := toNat_one_shiftLeft (hshift ▸ Nat.min_le_right _ 16)
  apply UInt64.toNat_inj.mp
  rw [backoffByWords, UInt64.toNat_min, toNat_mulSaturating, hpower, hshift, min_saturating, toNat_backoff]

/-- More failed attempts, no shorter wait. -/
theorem backoff_mono {attempt later : UInt32} (h : attempt ≤ later) :
    policy.backoff attempt ≤ policy.backoff later := by
  have hattempts := UInt32.le_iff_toNat_le.mp h
  have hdoublings : min (max attempt.toNat 1 - 1) 16 ≤ min (max later.toNat 1 - 1) 16 := by omega
  have hpowers := Nat.pow_le_pow_right (n := 2) (by decide) hdoublings
  rw [UInt64.le_iff_toNat_le, toNat_backoff, toNat_backoff]
  exact Nat.le_min_of_le_of_le (Nat.min_le_left _ _)
    (Nat.le_trans (Nat.min_le_right _ _) (Nat.mul_le_mul_left _ hpowers))

theorem backoff_le (attempt : UInt32) : policy.backoff attempt ≤ policy.maxBackoffMs := by
  rw [UInt64.le_iff_toNat_le, toNat_backoff]
  exact Nat.min_le_left ..

/-- No wait is shorter than the first, which is the initial one under the cap. -/
theorem le_backoff (attempt : UInt32) :
    min policy.initialBackoffMs policy.maxBackoffMs ≤ policy.backoff attempt := by
  have hpower : 1 ≤ 2 ^ min (max attempt.toNat 1 - 1) 16 := Nat.one_le_two_pow
  rw [UInt64.le_iff_toNat_le, UInt64.toNat_min, toNat_backoff]
  exact Nat.le_min_of_le_of_le (Nat.min_le_right _ _)
    (Nat.le_trans (Nat.min_le_left _ _) (Nat.le_mul_of_pos_right _ hpower))

/-! ### All waits of a step -/

theorem totalBackoff_succ (failures : Nat) :
    policy.totalBackoff (failures + 1) =
      policy.totalBackoff failures + (policy.backoff (.ofNat (failures + 1))).toNat := by
  rw [totalBackoff, List.range_succ, List.foldl_append]
  rfl

/-- The waits of a step that failed this many times, one for each failure. -/
theorem totalBackoff_eq {failures : Nat} (h : failures < UInt32.size) :
    policy.totalBackoff failures =
      ((List.range failures).map fun i =>
        min policy.maxBackoffMs.toNat (policy.initialBackoffMs.toNat * 2 ^ min i 16)).sum := by
  induction failures with
  | zero => rfl
  | succ n ih =>
    have hattempt : (UInt32.ofNat (n + 1)).toNat = n + 1 := UInt32.toNat_ofNat_of_lt' h
    have hdoublings : max (n + 1) 1 - 1 = n := by omega
    rw [totalBackoff_succ, ih (Nat.lt_of_succ_lt h), toNat_backoff, hattempt, hdoublings, List.range_succ,
      List.map_append, List.sum_append, List.map_singleton, List.sum_singleton]

end RetryPolicy

/-- **A wait is the exact capped exponential.** For all settings and any number of failed attempts, the wait is the
initial one, doubled with each attempt after the first and sixteen times at most, or the cap if that is less;
computed in words it is the same, so neither the shift nor stopping at the greatest word changes it. The waits do
not fall from attempt to attempt, and lie between the initial wait under the cap and the cap. The waits of a step
add up to the sum of these numbers, one for each failure. -/
theorem backoff_exact (policy : RetryPolicy) :
    (∀ attempt, (policy.backoff attempt).toNat =
        min policy.maxBackoffMs.toNat
          (policy.initialBackoffMs.toNat * 2 ^ min (max attempt.toNat 1 - 1) 16) ∧
      policy.backoffByWords attempt = policy.backoff attempt) ∧
    (∀ attempt later, attempt ≤ later → policy.backoff attempt ≤ policy.backoff later) ∧
    (∀ attempt, policy.backoff attempt ≤ policy.maxBackoffMs ∧
      min policy.initialBackoffMs policy.maxBackoffMs ≤ policy.backoff attempt) ∧
    ∀ failures, failures < UInt32.size → policy.totalBackoff failures =
      ((List.range failures).map fun i =>
        min policy.maxBackoffMs.toNat (policy.initialBackoffMs.toNat * 2 ^ min i 16)).sum :=
  ⟨fun attempt => ⟨policy.toNat_backoff attempt, policy.backoffByWords_eq attempt⟩,
    fun _ _ h => policy.backoff_mono h,
    fun attempt => ⟨policy.backoff_le attempt, policy.le_backoff attempt⟩,
    fun _ h => policy.totalBackoff_eq h⟩

/-- Waits near the end of the words: fifteen doublings fit, and behind the sixteenth, which leaves the word, the wait
is the cap. -/
theorem backoff_exact_greatest :
    let policy : RetryPolicy := ⟨5, 281474976710656, 18446744073709551615⟩
    (policy.backoff 16 = 9223372036854775808 ∧ policy.backoff 17 = 18446744073709551615) ∧
      policy.backoff 16 ≤ policy.backoff 17 ∧ policy.backoff 17 ≤ policy.backoff 4294967295 ∧
      policy.totalBackoff 2 = 281474976710656 + 562949953421312 := by
  intro policy
  obtain ⟨-, hmono, -, htotal⟩ := backoff_exact policy
  exact ⟨by decide, hmono 16 17 (by decide), hmono 17 4294967295 (by decide),
    (htotal 2 (by decide)).trans (by decide)⟩

end RoundChain
