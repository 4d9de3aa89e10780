import RoundChain.Numeral

/-!
# Environment variables

The variables that a process is started with, as far as settings are taken from
them. A variable that is set to the empty text is set.
-/

namespace RoundChain

/-- Variables by name. -/
structure Environment where
  bindings : List (String × String)
  deriving DecidableEq, Repr, Inhabited

namespace Environment

/-- The value of a variable. -/
def find? (env : Environment) (name : String) : Option String := env.bindings.lookup name

/-- Whether a variable is set. -/
def contains (env : Environment) (name : String) : Bool := (env.find? name).isSome

/-- The values that switch a setting on, whatever the case of their letters; any other value switches it
off. No letter outside ASCII has one of these as its small letter. -/
def isOn (value : String) : Bool :=
  ["1", "true", "yes", "on"].contains (String.ofList (value.toList.map Char.toLower))

/-- A switch, if it is set. -/
def flag? (env : Environment) (name : String) : Option Bool := (env.find? name).map isOn

/-- The level that log messages are filtered by: the program's own variable goes before the common one. -/
def logLevel? (env : Environment) : Option String :=
  env.find? "BS_LOG_LEVEL" <|> env.find? "RUST_LOG"

end Environment

end RoundChain
