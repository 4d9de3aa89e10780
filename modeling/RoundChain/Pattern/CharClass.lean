import RoundChain.Pattern.Escape

/-!
# Classes of characters in patterns

A class lists characters, ranges of characters and other classes in brackets, and
may intersect or subtract what it lists:

    class = '[' ['^'] {'-'} [']'] {item} {operator {item}} ']'
    item  = character ['-' character] | class | '[:' ['^'] name ':]'
    operator = '&&' | '--' | '~~'
-/

namespace RoundChain

namespace Pattern

/-- The named classes of ASCII. -/
def asciiNames : List String :=
  ["alnum", "alpha", "ascii", "blank", "cntrl", "digit", "graph", "lower", "print", "punct",
    "space", "upper", "word", "xdigit"]

/-- What follows a class of ASCII by name, and whether it is negated; none, if the text does not begin with
one. -/
def namedClass? (text : List Char) : Option (Bool × List Char) :=
  match text with
  | '[' :: ':' :: rest =>
    let (negated, rest) := match rest with
      | '^' :: rest => (true, rest)
      | _ => (false, rest)
    let name := rest.takeWhile (· ≠ ':')
    match rest.drop name.length with
    | ':' :: ']' :: rest =>
      if asciiNames.contains (String.ofList name) then some (negated, rest) else none
    | _ => none
  | _ => none

/-- The character that decides whether a dash makes a range, which is the next one behind the dash. Where
blanks do not count it is the next that is no blank, one number sign aside. -/
def afterDash (verbose : Bool) (text : List Char) : Option Char :=
  if !verbose then text.head?
  else
    let text' := text.dropWhile Text.isBlank
    let text' := match text' with
      | '#' :: rest => rest.dropWhile Text.isBlank
      | _ => text'
    text'.head? <|> text.head?

namespace Reader

/-- A negated class matches more than ASCII; if it is not one of Unicode, it is refused. -/
def checkNegation (negated : Bool) : Reader Unit := do
  if negated && !(← flags).unicode then failure

/-- Takes a character or an escape of a class. -/
def classAtom : Reader Atom := do
  if (← next) = '\\' then escape else return .literal (← take) false

/-- The character that an atom of a class stands for; outside Unicode it must be one of ASCII. -/
def classLiteral : Atom → Reader Char
  | .literal c _ => do if 127 < c.toNat && !(← flags).unicode then failure else return c
  | _ => failure

/-- Takes a character, a range of characters or a class by its letter. -/
def classRange : Reader Unit := do
  let first ← classAtom
  skipBlanks
  let dash := (← next) = '-'
  let after := afterDash (← flags).verbose (← get).rest.tail
  if dash && after ≠ some ']' && after ≠ some '-' then
    step
    let last ← classAtom
    if (← classLiteral first) ≤ (← classLiteral last) then return () else failure
  else if first ≠ .charSet then discard (classLiteral first)

/-- Takes the dashes with which a class begins, and adds them to its items. -/
def leadingDashes : Nat → List Outline → Reader (List Outline)
  | 0, items => return items
  | fuel + 1, items => do
    if (← next) = '-' then
      step
      leadingDashes fuel (.leaf :: items)
    else return items

/-- Takes the beginning of a class: its items so far. -/
def openClass : Reader (List Outline) := do
  step
  if (← next) = '^' then
    checkNegation true
    step
  let items ← leadingDashes (← get).rest.length []
  if items.isEmpty && (← next) = ']' then
    step
    return [.leaf]
  else return items

/-- What an operator has on its left, together with the items on its right. -/
def operand (left : Option Outline) (items : List Outline) : Outline :=
  match left with
  | none => .join items
  | some left => .join [left, .join items]

/-- Takes the operator of a class that is next, if one is. -/
def operator : Reader Bool := accept "&&" <||> accept "--" <||> accept "~~"

/-- Reads a class to its end, behind some items and what an operator has on its left. -/
def classItems : Nat → Option Outline → List Outline → Reader Outline
  | 0, _, _ => failure
  | fuel + 1, left, items => do
    skipBlanks
    match ← next with
    | ']' =>
      advance
      return (operand left items).around
    | '[' =>
      match namedClass? (← get).rest with
      | some (negated, rest) =>
        checkNegation negated
        modify fun c => { c with rest := rest }
        classItems fuel left (.leaf :: items)
      | none =>
        let inner ← classItems fuel none (← openClass)
        classItems fuel left (inner :: items)
    | _ =>
      if ← operator then classItems fuel (some (operand left items)) []
      else
        classRange
        classItems fuel left (.leaf :: items)

/-- Reads a class from its bracket on. No class ignores the case of Unicode's letters. -/
def charClass : Reader Outline := do
  let flags ← flags
  if flags.ignoreCase && flags.unicode then failure
  let items ← openClass
  classItems ((← get).rest.length + 1) none items

end Reader

end Pattern

end RoundChain
