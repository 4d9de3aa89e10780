/-!
# Standing files

The folders and files that stand on every machine, and what reading a path finds
where there is nothing else: the text of a file, or why there is none.

## The model

A path is walked name by name from the root, or from a working folder of which only
its own name `.` is known. A slash at its end asks for a folder, as a dot does.
-/

namespace RoundChain

/-- Why a path cannot be read as a file. -/
inductive PathError where
  | missing
  /-- A part of the path goes on below a file. -/
  | belowFile
  /-- The path leads to a folder. -/
  | folder
  /-- The path, or one of its names, is longer than the system allows. -/
  | tooLong
  deriving DecidableEq, Repr

namespace PathError

/-- What the system says of a cause. -/
def message : PathError → String
  | missing => "No such file or directory (os error 2)"
  | belowFile => "Not a directory (os error 20)"
  | folder => "Is a directory (os error 21)"
  | tooLong => "File name too long (os error 36)"

end PathError

namespace StandingFiles

/-- A place: the names on the way to it, the last one first. -/
abbrev Place := List String

/-- The folders of the root. -/
def rootFolders : List String :=
  ["bin", "boot", "dev", "etc", "home", "lib", "media", "mnt", "opt", "proc", "root", "run", "sbin",
    "srv", "sys", "tmp", "usr", "var"]

/-- The folders, apart from the root and its own: the working folder, and those within folders of the root. -/
def innerFolders : List Place :=
  [["."], ["shm", "dev"], ["pts", "dev"], ["fd", "dev"], ["self", "proc"], ["bin", "usr"],
    ["lib", "usr"], ["local", "usr"], ["share", "usr"], ["lib", "var"], ["log", "var"], ["tmp", "var"]]

/-- Whether a place is a folder. -/
def isFolder : Place → Bool
  | [] => true
  | [name] => name = "." || rootFolders.contains name
  | place => innerFolders.contains place

/-- The text of the file at a place: the one file whose text is known is empty. -/
def text? (place : Place) : Option String := if place = ["null", "dev"] then some "" else none

/-- Goes on from a place by a name. -/
def follow (place : Place) (name : String) : Except PathError Place :=
  if !isFolder place then .error .belowFile
  else if name = "" || name = "." then .ok place
  else if name = ".." then .ok place.tail
  else if 255 < name.utf8ByteSize then .error .tooLong
  else
    let next := name :: place
    if isFolder next || (text? next).isSome then .ok next else .error .missing

/-- The place that a path leads to. -/
def find (path : String) : Except PathError Place :=
  if path.isEmpty then .error .missing
  else if 4096 ≤ path.utf8ByteSize then .error .tooLong
  else
    let start := if path.startsWith "/" then [] else ["."]
    (path.splitOn "/").foldlM follow start

/-- The text of the file that a path leads to. -/
def read (path : String) : Except PathError String := do
  (text? (← find path)).elim (.error .folder) .ok

end StandingFiles

end RoundChain
