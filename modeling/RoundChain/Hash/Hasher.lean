import RoundChain.Hash.Sha512

/-!
# Hashing in pieces

A hasher takes a message in any number of pieces. `Hasher.Holds.finish_eq_sha384` says
that what it gives out depends only on the concatenation of the pieces: it is the
SHA-384 of everything taken since the hasher was new. Giving out a digest does
not change the hasher, so it can go on afterwards.
-/

namespace RoundChain

open Sha512

/-- A running SHA-384: the state after the whole blocks, the bytes of the block not yet full, and
how many bytes were taken. -/
structure Hasher where
  state : State
  pending : Bytes
  taken : Nat
  deriving DecidableEq, Repr

namespace Hasher

/-- A hasher that has taken nothing. -/
def new : Hasher := ⟨initial384, [], 0⟩

/-- Takes another piece. -/
def update (h : Hasher) (piece : Bytes) : Hasher :=
  let r := absorb h.state (h.pending ++ piece)
  ⟨r.1, r.2, h.taken + piece.length⟩

/-- Drops what was taken: the hasher is as new. -/
def reset (_ : Hasher) : Hasher := new

/-- The digest of what was taken so far. -/
def finish (h : Hasher) : Bytes := (absorb h.state (h.pending ++ padding h.taken)).1.bytes48

@[simp] theorem length_finish (h : Hasher) : h.finish.length = 48 := rfl

/-- The hasher stands where taking `message` leads from a new one. -/
def Holds (h : Hasher) (message : Bytes) : Prop :=
  absorb initial384 message = (h.state, h.pending) ∧ h.taken = message.length

theorem holds_new : new.Holds [] := ⟨by rw [absorb_of_length_lt (by simp)]; rfl, rfl⟩

theorem Holds.update {h : Hasher} {message : Bytes} (hm : h.Holds message) (piece : Bytes) :
    (h.update piece).Holds (message ++ piece) := by
  obtain ⟨hs, ht⟩ := hm
  refine ⟨?_, ?_⟩
  · rw [absorb_append, hs]; rfl
  · simp [Hasher.update, ht]

theorem Holds.updateAll {h : Hasher} {message : Bytes} (hm : h.Holds message) (parts : List Bytes) :
    (parts.foldl Hasher.update h).Holds (message ++ parts.flatten) := by
  induction parts generalizing h message with
  | nil => simpa using hm
  | cons piece rest ih =>
    rw [List.foldl_cons, List.flatten_cons, ← List.append_assoc]
    exact ih (hm.update piece)

/-- **The digest of a hasher is that of the bytes it took**, however they were cut. -/
theorem Holds.finish_eq_sha384 {h : Hasher} {message : Bytes} (hm : h.Holds message) :
    h.finish = sha384 message := by
  obtain ⟨hs, ht⟩ := hm
  rw [finish, sha384, run, absorb_append initial384, hs, ht]

end Hasher

/-- SHA-384 of several byte strings taken one after the other. -/
def sha384Many (parts : List Bytes) : Bytes := (parts.foldl Hasher.update Hasher.new).finish

/-- The digest of several byte strings is that of their concatenation. -/
theorem sha384Many_eq (parts : List Bytes) : sha384Many parts = sha384 parts.flatten :=
  (Hasher.holds_new.updateAll parts).finish_eq_sha384

end RoundChain
