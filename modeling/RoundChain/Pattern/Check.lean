import RoundChain.Pattern.CharClass
import RoundChain.Text.Alphanumeric

/-!
# Checking patterns

    pattern = branch {'|' branch}
    branch  = {part {('?' | '*' | '+') ['?']} | flags}
    part    = character | escape | class | '.' | '^' | '$' | group
    group   = '(' ['?<' name '>' | '?P<' name '>' | '?' switches ':'] pattern ')'
    flags   = '(?' switches ')'

`Pattern.check` says whether a text is a pattern that a deterministic automaton can
match. A count of repetitions in braces is not known here: a brace that opens must be
escaped.
-/

namespace RoundChain

/-- Why a text is no pattern to match with. -/
inductive PatternError where
  /-- The text is no pattern. -/
  | malformed
  /-- A boundary of words in Unicode's sense is asked for, which no automaton finds byte by byte. -/
  | boundary
  deriving DecidableEq, Repr

namespace PatternError

/-- The wording of a cause. -/
def message : PatternError → String
  | malformed => "error building NFA"
  | boundary =>
    "unsupported regex feature for DFAs: cannot build DFAs for regexes with Unicode word boundaries; " ++
      "switch to ASCII word boundaries, or heuristically enable Unicode word boundaries or use a " ++
      "different regex engine"

end PatternError

namespace Pattern

/-- How many parts may lie in one another. -/
def maxHeight : Nat := 250

/-- What a group begins with. -/
inductive Opening where
  /-- The flags from here on. -/
  | switch (flags : Flags)
  /-- A group under flags of its own. -/
  | group (flags : Flags)
  deriving DecidableEq, Repr

/-- Flags with one of them, named by a letter, set; none, if no flag has that name. -/
def Flags.with? (flags : Flags) (letter : Char) (value : Bool) : Option Flags :=
  match letter with
  | 'i' => some { flags with ignoreCase := value }
  | 'u' => some { flags with unicode := value }
  | 'x' => some { flags with verbose := value }
  | 'm' | 's' | 'U' | 'R' => some flags
  | _ => none

namespace Reader

/-- Reads the letters of switches up to a colon or a closing bracket, behind the signs that were read
before: a flag is named once, and a dash, behind which flags are switched off, stands once and not last. -/
def switches : Nat → (seen : List Char) → Flags → Reader Flags
  | 0, _, _ => failure
  | fuel + 1, seen, new => do
    let c ← next
    if c = ':' || c = ')' then
      if seen.head? = some '-' then failure else return new
    else if seen.contains c then failure
    else
      advance
      if c = '-' then switches fuel (c :: seen) new
      else switches fuel (c :: seen) (← StateT.lift (new.with? c (!seen.contains '-')))

/-- Takes the name of a group, which no other group has. -/
def groupName : Reader Unit := do
  let c ← get
  let name := c.rest.takeWhile (· ≠ '>')
  let isFirst := fun c => c = '_' || Text.isAlphabetic c
  let isFurther := fun c => c = '_' || ['.', '[', ']'].contains c || Text.isAlphanumeric c
  let sound := name.head?.any isFirst && name.tail.all isFurther && !c.names.contains name
  if sound && name.length < c.rest.length then
    set { c with rest := c.rest.drop (name.length + 1), names := name :: c.names }
  else failure

/-- Reads the beginning of a group, or all of a setting of flags. -/
def opening : Reader Opening := do
  step
  let flags ← flags
  if ← (accept "?P<" <||> accept "?<") then
    groupName
    return .group flags
  else if ← accept "?" then
    let start := (← get).rest
    let new ← switches (start.length + 1) [] flags
    if (← take) = ':' then return .group new
    else if start.head? = some ')' then failure
    else return .switch new
  else return .group flags

/-- Checks a single character. Without tables the case of Unicode's letters cannot be ignored, and a byte
alone must be one of ASCII. -/
def checkAtom : Atom → Reader Outline
  | .literal c asByte => do
    let flags ← flags
    if if flags.unicode then flags.ignoreCase else asByte && 127 < c.toNat then failure
    return .leaf
  | .boundary => return ⟨0, (← flags).unicode⟩
  | .charSet | .anchor => return .leaf

/-- Takes a part that is neither a group nor a class. -/
def single : Reader Outline := do
  match ← next with
  | '\\' => checkAtom (← escape)
  | '^' | '$' => advance *> checkAtom .anchor
  | '.' => if (← flags).unicode then advance *> checkAtom .charSet else failure
  | '{' => failure
  | c => advance *> checkAtom (.literal c false)

/-- Reads a pattern up to its end or to the bracket that closes its group, behind its earlier branches and the
parts of the present one, both last first. A setting of flags is a part that holds nothing and cannot be
repeated. -/
def parts : Nat → List Outline → List (Option Outline) → Reader Outline
  | 0, _, _ => failure
  | fuel + 1, branches, branch => do
    skipBlanks
    let branchDone := Outline.join (branch.map (·.getD .leaf))
    match ← next? with
    | none | some ')' => return .join (branchDone :: branches)
    | some '|' =>
      advance
      parts fuel (branchDone :: branches) []
    | some '(' =>
      match ← opening with
      | .switch flags =>
        setFlags flags
        parts fuel branches (none :: branch)
      | .group inner =>
        let outer ← flags
        setFlags inner
        let o ← parts fuel [] []
        if (← take) ≠ ')' then failure
        setFlags outer
        parts fuel branches (some o.around :: branch)
    | some '[' => parts fuel branches (some (← charClass) :: branch)
    | some c =>
      if c = '?' || c = '*' || c = '+' then
        advance
        let _ ← accept "?"
        match branch with
        | some o :: rest => parts fuel branches (some o.around :: rest)
        | _ => failure
      else parts fuel branches (some (← single) :: branch)

end Reader

/-- The outline of a text, if it is a pattern. -/
def outline? (text : List Char) : Option Outline := do
  let (o, c) ← (Reader.parts (text.length + 1) [] []).run ⟨text, {}, []⟩
  if c.rest.isEmpty && o.height ≤ maxHeight then return o else none

/-- Checks that a text is a pattern that an automaton can match. -/
def check (text : List Char) : Except PatternError Unit :=
  match outline? text with
  | none => .error .malformed
  | some o => if o.boundary then .error .boundary else .ok ()

end Pattern

end RoundChain
