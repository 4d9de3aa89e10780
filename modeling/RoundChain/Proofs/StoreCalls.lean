import RoundChain.Proofs.Directories
import RoundChain.Proofs.Frames
import RoundChain.Store.FileStore
import RoundChain.Store.Memory

/-!
# What a call to a store does

Blocks in files and blocks in memory are opened and filled alike: a call that is no close is answered
from the open block alone, and the open block is all that it changes. `OpenBuffer.fill` is what the
two have in common. What a close does is said case by case, `MemoryStore.Closed` and
`FileStore.Closed`.
-/

namespace RoundChain

/-- What a call brings into the open block if it is taken: an item in its frame, a buffer as it is. -/
def WriteCall.payload : WriteCall → Bytes
  | .item bytes => frameBytes bytes
  | .items framed => framed
  | _ => []

namespace OpenBuffer

variable {buffer after : OpenBuffer} {call : WriteCall}

/-- The open block after a call that opens or fills it. -/
def fill (buffer : OpenBuffer) : WriteCall → Except WriteError OpenBuffer
  | .openBlock number => buffer.start number
  | .item bytes => buffer.addItem bytes
  | .items framed => buffer.add framed
  | .closeBlock => .error .noOpenBlock

theorem start_eq_ok {number : UInt64} (h : buffer.start number = .ok after) : after = some (number, []) := by
  unfold start at h
  split at h
  · split at h
    · cases h
      rfl
    · cases h
  · cases h
    rfl

theorem add_eq_ok {framed : Bytes} (h : buffer.add framed = .ok after) :
    ∃ number content, buffer = some (number, content) ∧ after = some (number, content ++ framed) := by
  cases buffer with
  | none => cases h
  | some opened =>
    cases h
    exact ⟨_, _, rfl, rfl⟩

theorem addItem_eq_ok {item : Bytes} (h : buffer.addItem item = .ok after) :
    ∃ number content, buffer = some (number, content) ∧ after = some (number, content ++ frameBytes item) := by
  cases buffer with
  | none => cases h
  | some opened =>
    unfold addItem at h
    cases hframe : frame item with
    | error e =>
      rw [hframe] at h
      cases h
    | ok framed =>
      obtain ⟨-, rfl⟩ := frame_eq_ok_iff.mp hframe
      rw [hframe] at h
      exact add_eq_ok h

/-- **A call that is taken opens a block afresh, or adds what it brings to the one that is open.** -/
theorem fill_eq_ok (h : buffer.fill call = .ok after) :
    (∃ number, call = .openBlock number ∧ after = some (number, [])) ∨
      (∀ number, call ≠ .openBlock number) ∧ ∃ number content, buffer = some (number, content) ∧
        after = some (number, content ++ call.payload) := by
  cases call with
  | openBlock number => exact .inl ⟨number, rfl, start_eq_ok h⟩
  | item bytes => exact .inr ⟨nofun, addItem_eq_ok h⟩
  | items framed => exact .inr ⟨nofun, add_eq_ok h⟩
  | closeBlock => cases h

/-- The open block after a call; a refused call changes nothing. -/
def filled (buffer : OpenBuffer) (call : WriteCall) : OpenBuffer := (buffer.fill call).toOption.getD buffer

theorem filled_of_ok (h : buffer.fill call = .ok after) : buffer.filled call = after := by
  rw [filled, h]
  rfl

theorem filled_of_error {e : WriteError} (h : buffer.fill call = .error e) : buffer.filled call = buffer := by
  rw [filled, h]
  rfl

end OpenBuffer

/-! ### Blocks in memory -/

namespace MemoryStore

theorem perform_eq_fill (s : MemoryStore) {call : WriteCall} (h : call ≠ .closeBlock) :
    ∃ log openings, s.perform call =
      ((s.opened.fill call).map fun _ => (), { s with opened := s.opened.filled call, log, openings }) := by
  cases call with
  | closeBlock => exact absurd rfl h
  | openBlock number =>
    simp only [perform, note, OpenBuffer.filled, OpenBuffer.fill]
    cases s.opened.start number <;> exact ⟨_, _, rfl⟩
  | item bytes =>
    simp only [perform, note, OpenBuffer.filled, OpenBuffer.fill]
    cases s.opened.addItem bytes <;> exact ⟨_, _, rfl⟩
  | items framed =>
    simp only [perform, note, OpenBuffer.filled, OpenBuffer.fill]
    cases s.opened.add framed <;> exact ⟨_, _, rfl⟩

/-- What closing the open block answers, and what it leaves. -/
inductive Closed (s : MemoryStore) : Except WriteError Unit × MemoryStore → Prop where
  /-- No block is open. -/
  | idle : s.opened = none → Closed s (.error .noOpenBlock, s)
  /-- The close is to fail; the block stays open. -/
  | failed {number : UInt64} {framed : Bytes} {text : String} {log : List LoggedCall} {failingCloses : Nat} :
      s.opened = some (number, framed) → s.failing = true ∨ 0 < s.failingCloses →
      Closed s (.error (.injected text), { s with log, failingCloses })
  /-- The block is new. -/
  | stored {number : UInt64} {framed : Bytes} {log : List LoggedCall} :
      s.opened = some (number, framed) → s.closed.find? number = none →
      Closed s (.ok (), { s with log, opened := none, closed := s.closed.insert number framed })
  /-- The block is stored already. -/
  | repeated {number : UInt64} {framed : Bytes} {log : List LoggedCall} :
      s.opened = some (number, framed) → s.closed.find? number = some framed →
      Closed s (.ok (), { s with log, opened := none })
  /-- Other content is stored; the block is open no more. -/
  | conflict {number : UInt64} {framed other : Bytes} {log : List LoggedCall} :
      s.opened = some (number, framed) → s.closed.find? number = some other → other ≠ framed →
      Closed s (.error (.conflict number), { s with log, opened := none })

theorem closed_close (s : MemoryStore) : s.Closed s.close := by
  unfold close
  split
  · rename_i hopened
    exact .idle hopened
  · rename_i number framed hopened
    dsimp only [note]
    split
    · rename_i hfailing
      exact .failed hopened (.inl hfailing)
    · split
      · rename_i hcloses
        exact .failed hopened (.inr hcloses)
      · split
        · rename_i other hstored
          split
          · rename_i hsame
            exact .repeated hopened (hsame ▸ hstored)
          · rename_i hother
            exact .conflict hopened hstored hother
        · rename_i hnew
          exact .stored hopened hnew

end MemoryStore

/-! ### Blocks in files -/

namespace FileStore

variable [Compression]

theorem perform_eq_fill (s : FileStore) {call : WriteCall} (h : call ≠ .closeBlock) :
    s.perform call = ((s.opened.fill call).map fun _ => (), { s with opened := s.opened.filled call }) := by
  cases call with
  | closeBlock => exact absurd rfl h
  | openBlock number =>
    simp only [perform, OpenBuffer.filled, OpenBuffer.fill]
    cases s.opened.start number <;> rfl
  | item bytes =>
    simp only [perform, OpenBuffer.filled, OpenBuffer.fill]
    cases s.opened.addItem bytes <;> rfl
  | items framed =>
    simp only [perform, OpenBuffer.filled, OpenBuffer.fill]
    cases s.opened.add framed <;> rfl

/-- What closing the open block answers, and what it leaves. -/
inductive Closed (s : FileStore) : Except WriteError Unit × FileStore → Prop where
  /-- No block is open. -/
  | idle : s.opened = none → Closed s (.error .noOpenBlock, s)
  /-- The block's file is there and cannot be read. -/
  | unread {number : UInt64} {framed : Bytes} {e : WriteError} :
      s.opened = some (number, framed) → s.dir.contains (BlockFile.name number s.compress) = true →
      BlockFile.read s.dir (BlockFile.name number s.compress) = .error e → Closed s (.error e, s)
  /-- The block is stored already. -/
  | repeated {number : UInt64} {framed : Bytes} :
      s.opened = some (number, framed) → s.dir.contains (BlockFile.name number s.compress) = true →
      BlockFile.read s.dir (BlockFile.name number s.compress) = .ok framed →
      Closed s (.ok (), { s with opened := none })
  /-- Other content is stored; the block stays open. -/
  | conflict {number : UInt64} {framed other : Bytes} :
      s.opened = some (number, framed) → s.dir.contains (BlockFile.name number s.compress) = true →
      BlockFile.read s.dir (BlockFile.name number s.compress) = .ok other → other ≠ framed →
      Closed s (.error (.conflict number), s)
  /-- The block's file cannot be written. -/
  | refused {number : UInt64} {framed : Bytes} {e : WriteError} {dir : Directory} :
      s.opened = some (number, framed) → s.dir.contains (BlockFile.name number s.compress) = false →
      s.dir.steps (closeSteps number s.compress framed) = (.error e, dir) → Closed s (.error e, { s with dir })
  /-- The block is new. -/
  | stored {number : UInt64} {framed : Bytes} {dir : Directory} :
      s.opened = some (number, framed) → s.dir.contains (BlockFile.name number s.compress) = false →
      s.dir.steps (closeSteps number s.compress framed) = (.ok (), dir) →
      Closed s (.ok (), { s with dir, opened := none })

theorem closed_close (s : FileStore) : s.Closed s.close := by
  unfold close
  split
  · rename_i hopened
    exact .idle hopened
  · rename_i number framed hopened
    dsimp only
    split
    · rename_i hthere
      split
      · rename_i hread
        exact .unread hopened hthere hread
      · rename_i other hread
        split
        · rename_i hsame
          exact .repeated hopened hthere (hsame ▸ hread)
        · rename_i hother
          exact .conflict hopened hthere hread hother
    · rename_i habsent
      have hnew : s.dir.contains (BlockFile.name number s.compress) = false := Bool.eq_false_iff.mpr habsent
      rw [writeFile]
      split
      · rename_i hsteps
        exact .stored hopened hnew hsteps
      · rename_i hsteps
        exact .refused hopened hnew hsteps

/-- A block that is stored is compared with what is stored. -/
theorem close_of_read {s : FileStore} {number : UInt64} {framed stored : Bytes}
    (hopened : s.opened = some (number, framed))
    (hread : BlockFile.read s.dir (BlockFile.name number s.compress) = .ok stored) :
    s.close = if stored = framed then (.ok (), { s with opened := none }) else (.error (.conflict number), s) := by
  have hthere : s.dir.contains (BlockFile.name number s.compress) = true := by
    by_contra habsent
    have hnone := Directory.find?_of_contains (Bool.eq_false_iff.mpr habsent)
    rw [BlockFile.read, Directory.contentOf, hnone] at hread
    cases hread
  simp only [close, hopened, hthere, if_true, hread]

/-- A block that is new is written. -/
theorem close_of_steps {s : FileStore} {number : UInt64} {framed : Bytes} {dir : Directory}
    (hopened : s.opened = some (number, framed))
    (habsent : s.dir.find? (BlockFile.name number s.compress) = none)
    (hsteps : s.dir.steps (closeSteps number s.compress framed) = (.ok (), dir)) :
    s.close = (.ok (), { s with dir, opened := none }) := by
  have hnew : s.dir.contains (BlockFile.name number s.compress) = false := by
    rw [Directory.contains, habsent]
    rfl
  simp only [close, hopened, hnew, Bool.false_eq_true, if_false, writeFile, hsteps]

end FileStore

end RoundChain
