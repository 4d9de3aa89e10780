import RoundChain.Error
import RoundChain.Bytes

/-!
# A directory of files

The one directory that block files live in: files with their content and
sub-directories, by name. What a writer does to it is a list of `FileStep`s, each
of which happens or fails as a whole; a program cut off between two of them leaves
the directory as the steps before made it.
-/

namespace RoundChain

/-- What a name in a directory stands for. -/
inductive DirEntry where
  | file (content : Bytes)
  | folder
  deriving DecidableEq, Repr

/-- A directory's entries, each name once. -/
structure Directory where
  entries : List (String × DirEntry)
  deriving DecidableEq, Repr, Inhabited

/-- A change to a directory. -/
inductive FileStep where
  /-- Makes an empty file, in place of a file of that name. -/
  | create (name : String)
  /-- Writes a file's content. -/
  | write (name : String) (content : Bytes)
  /-- Waits until a file's content is safe. -/
  | sync (name : String)
  /-- Renames a file, in place of a file of the new name. -/
  | rename (name target : String)
  deriving DecidableEq, Repr

namespace Directory

/-- A directory without entries. -/
def empty : Directory := ⟨[]⟩

/-- What the system says of a directory where a file is asked for. -/
def isFolder : WriteError := .io "Is a directory (os error 21)"

/-- What the system says of a name without an entry. -/
def isMissing : WriteError := .io "No such file or directory (os error 2)"

/-- The entry of a name. -/
def find? (d : Directory) (name : String) : Option DirEntry := d.entries.lookup name

/-- Whether a name has an entry. -/
def contains (d : Directory) (name : String) : Bool := (d.find? name).isSome

/-- The directory without the entry of a name. -/
def remove (d : Directory) (name : String) : Directory :=
  ⟨d.entries.filter fun e => e.1 != name⟩

/-- The directory with the entry of a name set. -/
def set (d : Directory) (name : String) (entry : DirEntry) : Directory :=
  ⟨(name, entry) :: (d.remove name).entries⟩

/-- The directory with a file's content changed; a name without a file gets one. -/
def modify (d : Directory) (name : String) (f : Bytes → Bytes) : Directory :=
  match d.find? name with
  | some (.file content) => d.set name (.file (f content))
  | _ => d.set name (.file (f []))

/-- The names in a directory, sorted. -/
def names (d : Directory) : List String :=
  (d.entries.map (·.1)).mergeSort fun a b => decide (a ≤ b)

/-- The content of a file. -/
def contentOf (d : Directory) (name : String) : Except WriteError Bytes :=
  match d.find? name with
  | some (.file content) => .ok content
  | some .folder => .error isFolder
  | none => .error isMissing

/-- The directory after a step. -/
def step (d : Directory) : FileStep → Except WriteError Directory
  | .create name =>
    match d.find? name with
    | some .folder => .error isFolder
    | _ => .ok (d.set name (.file []))
  | .write name content =>
    match d.find? name with
    | some .folder => .error isFolder
    | some (.file _) => .ok (d.set name (.file content))
    | none => .error isMissing
  | .sync _ => .ok d
  | .rename name target =>
    match d.find? name, d.find? target with
    | none, _ => .error isMissing
    | some (.file _), some .folder => .error isFolder
    | some entry, _ => .ok ((d.remove name).set target entry)

/-- The directory after steps one after the other, up to the first that fails. -/
def steps (d : Directory) : List FileStep → Except WriteError Unit × Directory
  | [] => (.ok (), d)
  | s :: rest =>
    match d.step s with
    | .ok d => d.steps rest
    | .error e => (.error e, d)

end Directory

end RoundChain
