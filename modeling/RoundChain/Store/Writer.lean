import RoundChain.Frame

/-!
# Writing blocks

A store takes a block in a series of calls: the block is opened, its items arrive
one by one or as framed buffers, and closing it makes it durable. Opening the block
that is open already begins it afresh, which is how a failed write is repeated.

A `Writer` is any state together with its answer to each call. A refused call may
still change the state, so the answer and the new state come side by side.
-/

namespace RoundChain

/-- A call to a store. -/
inductive WriteCall where
  | openBlock (number : UInt64)
  /-- One item, to be framed by the store. -/
  | item (bytes : Bytes)
  /-- Items that are framed already. -/
  | items (framed : Bytes)
  | closeBlock
  deriving DecidableEq, Repr

/-- What answers the calls of a store, on states of a type. -/
structure Writer (σ : Type) where
  perform : σ → WriteCall → Except WriteError Unit × σ

namespace Writer

/-- A writer on a part of a larger state. -/
def on {σ τ : Type} (w : Writer σ) (get : τ → σ) (set : τ → σ → τ) : Writer τ :=
  ⟨fun t call => let r := w.perform (get t) call; (r.1, set t r.2)⟩

/-- The answers to calls made one after the other, up to and with the first refusal. -/
def performAll {σ : Type} (w : Writer σ) : σ → List WriteCall → Except WriteError Unit × σ
  | s, [] => (.ok (), s)
  | s, call :: rest =>
    match w.perform s call with
    | (.ok (), s) => w.performAll s rest
    | (.error e, s) => (.error e, s)

/-- The writer that takes everything and keeps nothing. -/
def discarding {σ : Type} : Writer σ := ⟨fun s _ => (.ok (), s)⟩

end Writer

/-! ### The block being written -/

/-- The open block's number and its framed content so far, if a block is open. -/
abbrev OpenBuffer := Option (UInt64 × Bytes)

namespace OpenBuffer

/-- Opens a block, afresh if it is the one that is open. -/
def start (buffer : OpenBuffer) (number : UInt64) : Except WriteError OpenBuffer :=
  match buffer with
  | some (opened, _) =>
    if opened = number then .ok (some (number, [])) else .error (.blockAlreadyOpen opened number)
  | none => .ok (some (number, []))

/-- Adds a framed buffer. -/
def add (buffer : OpenBuffer) (framed : Bytes) : Except WriteError OpenBuffer :=
  match buffer with
  | some (number, content) => .ok (some (number, content ++ framed))
  | none => .error .noOpenBlock

/-- Adds one item in a frame. -/
def addItem (buffer : OpenBuffer) (item : Bytes) : Except WriteError OpenBuffer := do
  match buffer with
  | none => .error .noOpenBlock
  | some _ =>
    match frame item with
    | .ok framed => buffer.add framed
    | .error e => .error (.malformed e.message)

end OpenBuffer

end RoundChain
