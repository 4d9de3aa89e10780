import RoundChain.Store.FileStore
import RoundChain.Store.Memory

/-!
# Where blocks go

A stream writes to block files, to memory, or to nowhere. `BlockStores` has both
stores and says which of them takes the calls. The sessions that write to files one
after another share the directory, yet each has its own writer, with the block that
it has open.
-/

namespace RoundChain

/-- Which store takes the calls. -/
inductive StoreTarget where
  | memory
  | files
  | nowhere
  deriving DecidableEq, Repr, Inhabited

/-- What a session's writer of block files has for itself. -/
structure FileDesk where
  compress : Bool
  opened : OpenBuffer
  deriving DecidableEq, Repr, Inhabited

/-- A directory of block files, a store in memory, and which of them takes the calls. -/
structure BlockStores where
  target : StoreTarget
  memory : MemoryStore
  dir : Directory
  /-- The desks of the sessions so far, the newest first. -/
  desks : List FileDesk
  deriving DecidableEq, Repr

namespace BlockStores

variable [Compression]

/-- Empty stores, without a session that writes to them. -/
def new (target : StoreTarget) : BlockStores := ⟨target, .new, .empty, []⟩

/-- The stores with a desk for a new session. -/
def addDesk (s : BlockStores) (compress : Bool) : BlockStores :=
  { s with desks := ⟨compress, none⟩ :: s.desks }

/-- The block files as the session at a place writes to them. -/
def fileStore (s : BlockStores) (place : Nat) : FileStore :=
  let desk := s.desks.getD place default
  ⟨s.dir, desk.compress, desk.opened⟩

/-- The stores after the session at a place wrote to the block files. -/
def setFileStore (s : BlockStores) (place : Nat) (files : FileStore) : BlockStores :=
  { s with dir := files.dir, desks := s.desks.set place ⟨files.compress, files.opened⟩ }

/-- The answer to a call of the session at a place, from the store that takes it. -/
def perform (place : Nat) (s : BlockStores) (call : WriteCall) :
    Except WriteError Unit × BlockStores :=
  match s.target with
  | .memory => let r := s.memory.perform call; (r.1, { s with memory := r.2 })
  | .files => let r := (s.fileStore place).perform call; (r.1, s.setFileStore place r.2)
  | .nowhere => (.ok (), s)

/-- The stores as the session at a place writes to them. -/
def writer (place : Nat) : Writer BlockStores := ⟨perform place⟩

end BlockStores

end RoundChain
