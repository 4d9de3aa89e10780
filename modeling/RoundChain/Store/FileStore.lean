import RoundChain.Store.Writer
import RoundChain.Store.BlockFile

/-!
# Blocks in files

A store that keeps one file per block. Items are held back until the block closes;
then its file is written under a temporary name and renamed. A block whose file is
there already is compared with it: the same content is fine, other content is a
conflict, and the block stays open.
-/

namespace RoundChain

/-- A writer of block files and the directory it writes to. -/
structure FileStore where
  dir : Directory
  compress : Bool
  opened : OpenBuffer
  deriving DecidableEq, Repr, Inhabited

namespace FileStore

variable [Compression]

/-- A writer at work on a directory. -/
def new (dir : Directory) (compress : Bool) : FileStore := ⟨dir, compress, none⟩

/-- What closing a block does to the directory. -/
def closeSteps (number : UInt64) (compress : Bool) (framed : Bytes) : List FileStep :=
  let temporary := BlockFile.temporaryName number compress
  [.create temporary, .write temporary (BlockFile.fileContent compress framed), .sync temporary,
    .rename temporary (BlockFile.name number compress)]

/-- Writes the file of the open block, in place of a file of that name. -/
def writeFile (s : FileStore) (number : UInt64) (framed : Bytes) : Except WriteError Unit × FileStore :=
  match s.dir.steps (closeSteps number s.compress framed) with
  | (.ok (), dir) => (.ok (), { s with dir, opened := none })
  | (.error e, dir) => (.error e, { s with dir })

/-- Closes the open block. -/
def close (s : FileStore) : Except WriteError Unit × FileStore :=
  match s.opened with
  | none => (.error .noOpenBlock, s)
  | some (number, framed) =>
    let name := BlockFile.name number s.compress
    if s.dir.contains name then
      match BlockFile.read s.dir name with
      | .error e => (.error e, s)
      | .ok stored =>
        if stored = framed then (.ok (), { s with opened := none })
        else (.error (.conflict number), s)
    else s.writeFile number framed

/-- The answer to a call. -/
def perform (s : FileStore) : WriteCall → Except WriteError Unit × FileStore
  | .openBlock number =>
    match s.opened.start number with
    | .ok buffer => (.ok (), { s with opened := buffer })
    | .error e => (.error e, s)
  | .item bytes =>
    match s.opened.addItem bytes with
    | .ok buffer => (.ok (), { s with opened := buffer })
    | .error e => (.error e, s)
  | .items framed =>
    match s.opened.add framed with
    | .ok buffer => (.ok (), { s with opened := buffer })
    | .error e => (.error e, s)
  | .closeBlock => s.close

/-- Block files as a store to write to. -/
def writer : Writer FileStore := ⟨perform⟩

end FileStore

end RoundChain
