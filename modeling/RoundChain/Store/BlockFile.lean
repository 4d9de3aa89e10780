import RoundChain.Store.Compression
import RoundChain.Store.Directory
import RoundChain.Numeral

/-!
# Block files

Each block is one file, named by its number in twenty digits; `.blk` follows, and
`.blk.zst` if the content is compressed. A block is written under a temporary name
first, so a file with a block's name is always complete.

Reading is more liberal than writing: any numeral of a word before one of the two
endings names a block.
-/

namespace RoundChain.BlockFile

/-- The ending of a plain block file. -/
def plainEnding : List Char := ['.', 'b', 'l', 'k']

/-- The ending of a compressed block file. -/
def compressedEnding : List Char := ['.', 'b', 'l', 'k', '.', 'z', 's', 't']

/-- The ending of a file that is being written. -/
def temporaryEnding : List Char := ['.', 't', 'm', 'p']

/-- The digits that a block's file name begins with. -/
def stem (number : UInt64) : List Char := Numeral.padded 20 number.toNat

/-- The name of a block's file. -/
def name (number : UInt64) (compressed : Bool) : String :=
  String.ofList (stem number ++ if compressed then compressedEnding else plainEnding)

/-- The name a block is written under first: the last part of its ending gives way. -/
def temporaryName (number : UInt64) (compressed : Bool) : String :=
  String.ofList (stem number ++ (if compressed then plainEnding else []) ++ temporaryEnding)

/-- The path of a block's file in a directory. -/
def path (dir : String) (number : UInt64) (compressed : Bool) : String :=
  if dir = "" ∨ dir.endsWith "/" then dir ++ name number compressed
  else dir ++ "/" ++ name number compressed

/-- What stands before an ending. -/
def dropEnding? (ending name : List Char) : Option (List Char) :=
  if ending.isSuffixOf name then some (name.take (name.length - ending.length)) else none

/-- The number of the block whose file has this name. -/
def number? (name : String) : Option UInt64 := do
  let cs := name.toList
  let stem ← dropEnding? compressedEnding cs <|> dropEnding? plainEnding cs
  ((Numeral.read UInt64.size stem).map UInt64.ofNat).toOption

/-- Whether a file of this name holds compressed content. -/
def isCompressed (name : String) : Bool := compressedEnding.tail.isSuffixOf name.toList

/-- The framed content of a block file. -/
def read [Compression] (d : Directory) (name : String) : Except WriteError Bytes := do
  let raw ← d.contentOf name
  if isCompressed name then (Compression.decompress raw).mapError .io else return raw

/-- The content of a file that holds a framed block. -/
def fileContent [Compression] (compressed : Bool) (framed : Bytes) : Bytes :=
  if compressed then Compression.compress framed else framed

/-- The block files in a directory, by ascending number. Two files of one number, as a plain and a compressed one,
stand in the order of their names here; where the file system gives names in another order, they stand in that
one. -/
def list (d : Directory) : List (UInt64 × String) :=
  (d.names.filterMap fun name => (number? name).map fun n => (n, name)).mergeSort
    fun a b => decide (a.1 ≤ b.1)

end RoundChain.BlockFile
