import RoundChain.Stop
import Mathlib.Data.List.Forall2

/-!
# Outcomes

How a series of calls succeeds: each of them does, one after the other. The lemmas
here take such a series apart, for calls that are refused with a cause and for calls
that check their limits as well.
-/

namespace RoundChain

variable {ε δ α β : Type}

theorem ok_bind (a : α) (f : α → Except ε β) : (Except.ok a >>= f) = f a := rfl

theorem bind_eq_ok_iff {x : Except ε α} {f : α → Except ε β} {b : β} :
    x >>= f = .ok b ↔ ∃ a, x = .ok a ∧ f a = .ok b := by
  cases x <;> simp [bind, Except.bind]

theorem bind_eq_error_iff {x : Except ε α} {f : α → Except ε β} {e : ε} :
    x >>= f = .error e ↔ x = .error e ∨ ∃ a, x = .ok a ∧ f a = .error e := by
  cases x <;> simp [bind, Except.bind]

theorem map_eq_ok_iff {x : Except ε α} {f : α → β} {b : β} :
    x.map f = .ok b ↔ ∃ a, x = .ok a ∧ f a = b := by
  cases x <;> simp [Except.map]

theorem eq_ok_of_isOk {x : Except ε Unit} (h : x.isOk = true) : x = .ok () := by
  cases x with
  | error e => cases h
  | ok => rfl

theorem return_eq_ok (a : α) : (pure a : Except ε α) = .ok a := rfl

/-- A call made for one argument after the other succeeds if it does for each of them. -/
theorem mapM_eq_ok_iff {f : α → Except ε β} {xs : List α} {ys : List β} :
    xs.mapM f = .ok ys ↔ List.Forall₂ (fun x y => f x = .ok y) xs ys := by
  induction xs generalizing ys with
  | nil => cases ys <;> simp [return_eq_ok]
  | cons x xs ih =>
    rw [List.mapM_cons, bind_eq_ok_iff]
    constructor
    · rintro ⟨y, hy, h⟩
      obtain ⟨ys', hys, h⟩ := bind_eq_ok_iff.mp h
      cases h
      exact .cons hy (ih.mp hys)
    · rintro (_ | ⟨hy, hys⟩)
      exact ⟨_, hy, bind_eq_ok_iff.mpr ⟨_, ih.mpr hys, rfl⟩⟩

/-- A word has no next one only because it is the greatest. -/
theorem nextWord_eq_error {n : UInt64} {e : Stop ε} (h : nextWord n = .error e) :
    ∃ limit, e = .exceeded limit := by
  unfold nextWord at h
  split at h
  · cases h
  · cases h
    exact ⟨_, rfl⟩

/-- Any other word has one. -/
theorem exists_nextWord {n : UInt64} (h : n.toNat + 1 < UInt64.size) :
    ∃ m, nextWord (ε := ε) n = .ok m ∧ m.toNat = n.toNat + 1 := by
  have hnext : nextWord (ε := ε) n = .ok (n + 1) := if_pos h
  exact ⟨n + 1, hnext, nextWord_eq_ok_iff.mp hnext⟩

theorem nextWord_eq_succ {n m : UInt64} (h : nextWord (ε := ε) n = .ok m) : m = n + 1 := by
  unfold nextWord at h
  split at h
  · cases h
    rfl
  · cases h

namespace Checked

theorem ofExcept_eq_ok_iff {x : Except ε α} {a : α} : ofExcept x = .ok a ↔ x = .ok a := by
  cases x <;> simp [ofExcept, refuse]

theorem mapCause_eq_ok_iff {f : ε → δ} {x : Checked ε α} {a : α} :
    x.mapCause f = .ok a ↔ x = .ok a := by
  rcases x with (e | limit) | a <;> simp [mapCause, refuse]

end Checked

end RoundChain
