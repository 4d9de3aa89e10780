import RoundChain.Block.Verification
import RoundChain.Store.Writer
import RoundChain.WordMap

/-!
# Blocks in memory

A store that keeps the framed content of closed blocks, with a log of the calls it
received. It can be told to fail closes, so that repeated writes and halts can be
rehearsed. A block that is stored keeps its content: closing it again with the same
content is fine, with other content is a conflict.
-/

namespace RoundChain

/-- A call as the log keeps it. -/
inductive LoggedCall where
  | openBlock (number : UInt64)
  | item (length : Nat)
  | items (length : Nat)
  | closeBlock (number : UInt64)
  deriving DecidableEq, Repr

/-- Blocks in memory. -/
structure MemoryStore where
  opened : OpenBuffer
  closed : WordMap Bytes
  log : List LoggedCall
  /-- The numbers of blocks opened, latest first. -/
  openings : List UInt64
  /-- How many closes are still to fail. -/
  failingCloses : Nat
  /-- Whether every close fails. -/
  failing : Bool
  deriving DecidableEq, Repr

namespace MemoryStore

/-- A store without blocks. -/
def new : MemoryStore := ⟨none, .empty, [], [], 0, false⟩

instance : Inhabited MemoryStore := ⟨new⟩

/-- The store with one more call in its log. -/
def note (s : MemoryStore) (call : LoggedCall) : MemoryStore := { s with log := s.log ++ [call] }

/-- Closes the open block. -/
def close (s : MemoryStore) : Except WriteError Unit × MemoryStore :=
  match s.opened with
  | none => (.error .noOpenBlock, s)
  | some (number, content) =>
    let s := s.note (.closeBlock number)
    if s.failing then (.error (.injected s!"close of block {number}"), s)
    else if 0 < s.failingCloses then
      (.error (.injected s!"close of block {number}"),
        { s with failingCloses := s.failingCloses - 1 })
    else
      let s := { s with opened := none }
      match s.closed.find? number with
      | some stored => if stored = content then (.ok (), s) else (.error (.conflict number), s)
      | none => (.ok (), { s with closed := s.closed.insert number content })

/-- The answer to a call. -/
def perform (s : MemoryStore) : WriteCall → Except WriteError Unit × MemoryStore
  | .openBlock number =>
    let s := s.note (.openBlock number)
    match s.opened.start number with
    | .ok buffer => (.ok (), { s with opened := buffer, openings := number :: s.openings })
    | .error e => (.error e, s)
  | .item bytes =>
    let s := s.note (.item bytes.length)
    match s.opened.addItem bytes with
    | .ok buffer => (.ok (), { s with opened := buffer })
    | .error e => (.error e, s)
  | .items framed =>
    let s := s.note (.items framed.length)
    match s.opened.add framed with
    | .ok buffer => (.ok (), { s with opened := buffer })
    | .error e => (.error e, s)
  | .closeBlock => s.close

/-- Blocks in memory as a store to write to. -/
def writer : Writer MemoryStore := ⟨perform⟩

/-! ### Looking at the store -/

/-- The framed content of a stored block. -/
def content? (s : MemoryStore) (number : UInt64) : Option Bytes := s.closed.find? number

/-- The items of a stored block, if its content is whole frames. -/
def items? (s : MemoryStore) (number : UInt64) : Option (List Bytes) :=
  (s.content? number).bind fun content => (splitFrames content).toOption

/-- All stored blocks decoded, by ascending number. -/
def blocks (s : MemoryStore) : Except StreamError (List (UInt64 × List Item)) :=
  s.closed.entries.mapM fun (number, content) => (decodeBlock content).map fun items => (number, items)

/-- Checks the stored blocks as a chain that continues from `anchor`. -/
def verify (s : MemoryStore) (anchor : BlockHash) : Checked StreamError (List FinalizedBlock) := do
  let blocks ← Checked.ofExcept (s.closed.entries.mapM fun (_, content) => splitFrames content)
  verifyChain blocks anchor

/-- Opens a block, adds its items one by one and, if wanted, closes it. -/
def writeItems (s : MemoryStore) (number : UInt64) (items : List Bytes) (close : Bool) :
    Except WriteError Unit × MemoryStore :=
  writer.performAll s
    (.openBlock number :: items.map .item ++ if close then [.closeBlock] else [])

/-- How often a block was opened. -/
def openCount (s : MemoryStore) (number : UInt64) : Nat := s.openings.count number

end MemoryStore

end RoundChain
