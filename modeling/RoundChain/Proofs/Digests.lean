import RoundChain.Hash.Hasher

/-!
# Digests of histories

A program keeps several hashers at once: it makes them, feeds them, copies one to put it back
later, resets them, and asks for digests in between. Each digest is the SHA-384 of the history of
the hasher that gave it, and asking leaves every hasher as it was.

## The model

`HasherKind` is what the calls need to know of hashers. The same calls run on `Hasher.kind`, which
works block by block, and on `historyKind`, which keeps the pieces taken and hashes their
concatenation in one go. A copy starts with the history of its source.
-/

namespace RoundChain

open Sha512

/-- A call on a bench of hashers, which are counted in the order they were put there. -/
inductive HasherCall
  | create
  | clone (source : Nat)
  | restore (place source : Nat)
  | update (place : Nat) (piece : Bytes)
  | reset (place : Nat)
  | finish (place : Nat)
  deriving DecidableEq, Repr

/-- What the calls do to one hasher, kept as a value of `α`. -/
structure HasherKind (α : Type) where
  new : α
  update : α → Bytes → α
  reset : α → α
  finish : α → Bytes

/-- The hashers that run. -/
def Hasher.kind : HasherKind Hasher := ⟨new, update, reset, finish⟩

/-- Histories: the pieces taken since the hasher was new or was reset. -/
def historyKind : HasherKind (List Bytes) where
  new := []
  update pieces piece := pieces ++ [piece]
  reset _ := []
  finish pieces := sha384 pieces.flatten

namespace HasherKind

variable {α β : Type}

/-- One call on a bench; only `finish` answers. A place with no hasher is left alone. -/
def step (kind : HasherKind α) (bench : List α) : HasherCall → Option Bytes × List α
  | .create => (none, bench ++ [kind.new])
  | .clone source => (none, bench ++ bench[source]?.toList)
  | .restore place source => (none, bench[source]?.elim bench (bench.set place))
  | .update place piece => (none, bench.modify place (kind.update · piece))
  | .reset place => (none, bench.modify place kind.reset)
  | .finish place => (bench[place]?.map kind.finish, bench)

/-- The answers to calls made one after the other, and the bench they leave. -/
def run (kind : HasherKind α) : List α → List HasherCall → List (Option Bytes) × List α
  | bench, [] => ([], bench)
  | bench, call :: rest =>
    let (answer, bench) := kind.step bench call
    let (answers, bench) := kind.run bench rest
    (answer :: answers, bench)

/-! ### Kinds that answer the same -/

/-- `f` takes the hashers of one kind to those of another that answer the same. -/
structure Hom (kind : HasherKind α) (other : HasherKind β) (f : α → β) : Prop where
  new : f kind.new = other.new
  update : ∀ h piece, f (kind.update h piece) = other.update (f h) piece
  reset : ∀ h, f (kind.reset h) = other.reset (f h)
  finish : ∀ h, kind.finish h = other.finish (f h)

private theorem map_modify (f : α → β) (change : α → α) (change' : β → β)
    (comm : ∀ a, f (change a) = change' (f a)) (place : Nat) (bench : List α) :
    (bench.map f).modify place change' = (bench.modify place change).map f := by
  refine List.ext_getElem? fun i => ?_
  rw [List.getElem?_modify, List.getElem?_map, List.getElem?_map, List.getElem?_modify]
  cases bench[i]? with
  | none => rfl
  | some a => by_cases hi : place = i <;> simp [hi, comm]

variable {kind : HasherKind α} {other : HasherKind β} {f : α → β}

/-- One call on hashers of two kinds. -/
theorem Hom.step (hf : Hom kind other f) (bench : List α) (call : HasherCall) :
    other.step (bench.map f) call =
      ((kind.step bench call).1, (kind.step bench call).2.map f) := by
  cases call with
  | create => simp [HasherKind.step, hf.new]
  | clone source => cases h : bench[source]? <;> simp [HasherKind.step, h]
  | restore place source => cases h : bench[source]? <;> simp [HasherKind.step, h, List.map_set]
  | update place piece =>
    exact congrArg (none, ·) (map_modify f (kind.update · piece) _ (hf.update · piece) place bench)
  | reset place => exact congrArg (none, ·) (map_modify f kind.reset _ hf.reset place bench)
  | finish place => cases h : bench[place]? <;> simp [HasherKind.step, h, hf.finish]

/-- Any calls on hashers of two kinds. -/
theorem Hom.run (hf : Hom kind other f) (bench : List α) (calls : List HasherCall) :
    other.run (bench.map f) calls =
      ((kind.run bench calls).1, (kind.run bench calls).2.map f) := by
  induction calls generalizing bench with
  | nil => rfl
  | cons call rest ih => simp only [HasherKind.run, hf.step, ih]

/-! ### Calls that are left out -/

theorem length_run (kind : HasherKind α) (bench : List α) (calls : List HasherCall) :
    (kind.run bench calls).1.length = calls.length := by
  induction calls generalizing bench with
  | nil => rfl
  | cons call rest ih => simp only [HasherKind.run, List.length_cons, ih]

theorem run_append (kind : HasherKind α) (bench : List α) (calls more : List HasherCall) :
    kind.run bench (calls ++ more) =
      ((kind.run bench calls).1 ++ (kind.run (kind.run bench calls).2 more).1,
        (kind.run (kind.run bench calls).2 more).2) := by
  induction calls generalizing bench with
  | nil => rfl
  | cons call rest ih => simp only [List.cons_append, HasherKind.run, ih]

/-- Without one request for a digest every other call answers the same, and the same bench is left. -/
theorem run_without_finish (kind : HasherKind α) (bench : List α) (calls more : List HasherCall)
    (place : Nat) :
    kind.run bench (calls ++ more) =
      ((kind.run bench (calls ++ .finish place :: more)).1.eraseIdx calls.length,
        (kind.run bench (calls ++ .finish place :: more)).2) := by
  rw [run_append, run_append, List.eraseIdx_append_of_length_le (Nat.le_of_eq (length_run ..)), length_run,
    Nat.sub_self]
  rfl

end HasherKind

/-! ### Hashers and their histories -/

/-- The hasher that a history leads to, from the same pieces taken one by one. -/
def hasherOf (pieces : List Bytes) : Hasher := pieces.foldl Hasher.update Hasher.new

theorem hom_hasherOf : HasherKind.Hom historyKind Hasher.kind hasherOf where
  new := rfl
  update pieces piece := by simp [hasherOf, historyKind, Hasher.kind]
  reset _ := rfl
  finish pieces := (sha384Many_eq pieces).symm

/-- **Digests of histories**: whatever calls a program makes on its hashers, each digest is that of
the bytes its hasher took since it was new or was last reset; a request for a digest changes nothing
for the other calls; and the digest of many pieces is that of their concatenation, however the bytes
are cut. -/
theorem digests_of_histories (calls : List HasherCall) :
    (Hasher.kind.run [] calls).1 = (historyKind.run [] calls).1 ∧
      (∀ more place, Hasher.kind.run [] (calls ++ more) =
        ((Hasher.kind.run [] (calls ++ .finish place :: more)).1.eraseIdx calls.length,
          (Hasher.kind.run [] (calls ++ .finish place :: more)).2)) ∧
      (∀ parts, sha384Many parts = sha384 parts.flatten) ∧
      ∀ parts others : List Bytes, parts.flatten = others.flatten →
        sha384Many parts = sha384Many others := by
  refine ⟨?_, Hasher.kind.run_without_finish [] calls, sha384Many_eq, fun parts others same => ?_⟩
  · have run := hom_hasherOf.run [] calls
    rw [List.map_nil] at run
    rw [run]
  · rw [sha384Many_eq, sha384Many_eq, same]

/-- Three bytes cut in two ways. -/
theorem digests_of_histories_recut :
    [[1], [], [2, 3]].flatten = [[1, 2], [3]].flatten ∧
      sha384Many [[1], [], [2, 3]] = sha384Many [[1, 2], [3]] :=
  ⟨rfl, (digests_of_histories []).2.2.2 _ _ rfl⟩

end RoundChain
