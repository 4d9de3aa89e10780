import RoundChain.Numeral
import RoundChain.Pattern.Check

/-!
# Log filters

A log filter is a list of directives separated by commas:

    directive = level | target ['=' level] | [target] span ['=' level]
    span      = '[' [name] ['{' field '}'] ']'
    field     = name ['=' value]

`LogFilter.check` says whether a text is one. Messages are not part of the library;
a node only refuses to start on a filter that is none.

## The model

A directive is read character by character by a machine with seven states. Blanks
around a directive are not read, yet a level or a field is cut from the directive as
it stands, by the bytes at which the machine saw it begin and end; so blanks in front
of a directive shift what is cut, and blanks behind a level spoil it.
-/

namespace RoundChain

/-- Why a text is no log filter. -/
inductive LogFilterError where
  /-- A directive breaks the grammar. -/
  | directive
  /-- A level is none of those known. -/
  | level
  /-- The value of a field is neither a number nor a pattern. -/
  | field (cause : PatternError)
  deriving DecidableEq, Repr

namespace LogFilterError

/-- The wording of a cause. -/
def message : LogFilterError → String
  | directive => "invalid filter directive"
  | level =>
    "error parsing level filter: expected one of \"off\", \"error\", \"warn\", \"info\", " ++
      "\"debug\", \"trace\", or a number 0-5"
  | field cause => "invalid field filter: " ++ cause.message

end LogFilterError

namespace LogFilter

/-- Checks that a text names a level: by a word in letters of either case, by a number, or, if it is empty, the
default. -/
def checkLevel (text : List Char) : Except LogFilterError Unit :=
  let known : Bool := match Numeral.read UInt64.size text with
    | .ok n => n ≤ 5
    | .error _ =>
      ["", "off", "error", "warn", "info", "debug", "trace"].contains
        (String.ofList (text.map Char.toLower))
  if known then .ok () else .error .level

/-- Checks a field: what stands behind its first equals sign, up to the second, is the value that it is compared
with. -/
def checkField (text : List Char) : Except LogFilterError Unit :=
  if text.isEmpty then .error .directive
  else
    match text.splitOn '=' with
    | _ :: value :: _ =>
      if Numeral.isReal value then .ok () else (Pattern.check value).mapError .field
    | _ => .ok ()

/-- The characters that begin from one byte on and before another, where the first one begins at `place`. -/
def cut (first stop : Nat) (place : Nat) : List Char → List Char
  | [] => []
  | c :: rest =>
    let rest := cut first stop (place + c.utf8Size) rest
    if first ≤ place && place < stop then c :: rest else rest

/-- How far a directive has been read. -/
inductive State where
  | start
  /-- In a target, or in a level without one. -/
  | target
  /-- In a span's name. -/
  | span
  /-- In a field that begins at a byte. -/
  | field (first : Nat)
  /-- Behind the fields of a span. -/
  | fieldsEnd
  /-- Behind a span. -/
  | spanEnd
  /-- In a level that begins at a byte. -/
  | level (first : Nat)
  deriving DecidableEq, Repr

/-- Whether a directive may begin with a character other than a bracket. -/
def isTargetStart (c : Char) : Bool := ['-', ':', '_'].contains c || Text.isAlphanumeric c

/-- The state after the character at a byte of a directive. -/
def State.next (directive : List Char) (s : State) (place : Nat) (c : Char) :
    Except LogFilterError State :=
  match s with
  | start =>
    if c = '[' then .ok span else if isTargetStart c then .ok target else .error .directive
  | target => .ok (if c = '=' then level (place + 1) else if c = '[' then span else target)
  | span => .ok (if c = ']' then spanEnd else if c = '{' then field (place + 1) else span)
  | field first =>
    if c = '}' then (checkField (cut first place 0 directive)).map fun _ => fieldsEnd
    else .ok (field first)
  | fieldsEnd => if c = ']' then .ok spanEnd else .error .directive
  | spanEnd => if c = '=' then .ok (level (place + 1)) else .error .directive
  | level first => .ok (level first)

/-- The state after reading characters, the first of which is at a byte. -/
def State.run (directive : List Char) (s : State) (place : Nat) :
    List Char → Except LogFilterError State
  | [] => .ok s
  | c :: rest => do (← s.next directive place c).run directive (place + c.utf8Size) rest

/-- Checks one directive. -/
def checkDirective (text : List Char) : Except LogFilterError Unit := do
  match ← State.start.run text 0 (Text.trim text) with
  | .target | .spanEnd => .ok ()
  | .level first => checkLevel (cut first (String.ofList text).utf8ByteSize 0 text)
  | _ => .error .directive

/-- The directives of a filter; what is empty between commas is none. -/
def directives (text : String) : List (List Char) :=
  (text.toList.splitOn ',').filter (!·.isEmpty)

/-- Checks a filter; the first directive at fault is reported. -/
def check (text : String) : Except LogFilterError Unit := do
  let _ ← (directives text).mapM checkDirective
  return ()

end LogFilter

end RoundChain
