import RoundChain.Text.Blank

/-!
# Reading patterns

A pattern is a regular expression. It is read from left to right under flags that it
may change itself. No text is matched here: reading a pattern finds whether it is one,
and keeps of it only an outline.

## The model

A `Reader` fails where the text is no pattern. There are no tables of Unicode's
classes and of its pairs of letters, so whatever needs one of them is no pattern.
What would match text that is not well-formed is none either.
-/

namespace RoundChain

namespace Pattern

/-- The flags that decide what a pattern may hold. -/
structure Flags where
  /-- Letters stand for both their cases. -/
  ignoreCase : Bool := false
  /-- Classes and boundaries are those of Unicode, not of ASCII. -/
  unicode : Bool := true
  /-- Blanks and comments between the parts do not count. -/
  verbose : Bool := false
  deriving DecidableEq, Repr

/-- How far a pattern has been read. -/
structure Cursor where
  rest : List Char
  flags : Flags := {}
  /-- The names of groups so far. -/
  names : List (List Char) := []
  deriving DecidableEq, Repr

/-- A step of reading, which may fail. -/
abbrev Reader := StateT Cursor Option

/-- What is kept of a part of a pattern. -/
structure Outline where
  /-- How many parts lie in one another. -/
  height : Nat
  /-- Whether it asks for a boundary of words in Unicode's sense. -/
  boundary : Bool
  deriving DecidableEq, Repr

namespace Outline

/-- A part that holds no other. -/
def leaf : Outline := ⟨0, false⟩

/-- A part around another. -/
def around (o : Outline) : Outline := ⟨o.height + 1, o.boundary⟩

/-- Several parts as one; a single part stays as it is. -/
def join : List Outline → Outline
  | [] => leaf
  | [o] => o
  | os => ⟨(os.map height).foldl max 0 + 1, os.any boundary⟩

end Outline

/-- Drops blanks and comments; a comment lasts from a number sign to the end of its line. -/
def dropBlanks : (inComment : Bool) → List Char → List Char
  | _, [] => []
  | true, c :: rest => dropBlanks (c ≠ '\n') rest
  | false, c :: rest =>
    if Text.isBlank c then dropBlanks false rest
    else if c = '#' then dropBlanks true rest
    else c :: rest

namespace Reader

/-- The flags that hold. -/
def flags : Reader Flags := return (← get).flags

/-- Changes the flags that hold. -/
def setFlags (flags : Flags) : Reader Unit := modify fun c => { c with flags := flags }

/-- The next character, if there is one. -/
def next? : Reader (Option Char) := return (← get).rest.head?

/-- The next character. -/
def next : Reader Char := do (← next?).elim failure pure

/-- Goes on behind the next character. -/
def advance : Reader Unit := modify fun c => { c with rest := c.rest.tail }

/-- Goes on behind blanks and comments, if these do not count. -/
def skipBlanks : Reader Unit :=
  modify fun c => if c.flags.verbose then { c with rest := dropBlanks false c.rest } else c

/-- Goes on to the next character that counts. -/
def step : Reader Unit := advance *> skipBlanks

/-- Takes the next character. -/
def take : Reader Char := next <* advance

/-- Goes on behind some characters, if they are next. -/
def accept (word : String) : Reader Bool := do
  let c ← get
  let found := word.toList.isPrefixOf c.rest
  if found then set { c with rest := c.rest.drop word.length }
  return found

end Reader

end Pattern

end RoundChain
