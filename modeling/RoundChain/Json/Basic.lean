import RoundChain.Json.Number

/-!
# JSON values

Settings are written in JSON. A `Json` keeps what its text says down to the order
and repetition of an object's members, and what a reader of settings must be able
to tell apart: an integer from any other number, a text that Unicode can hold from
one with half a surrogate pair.

## The model

`Json.parse?` accepts exactly the texts of the JSON grammar. Whether a value can be
*used* is a further question: `Json.usable` refuses half pairs, numbers out of the
range of binary floating point, and nesting too deep. A member that no setting asks
for is skipped without being used.
-/

namespace RoundChain

/-- A text as it is written. -/
inductive JsonText where
  | whole (text : String)
  /-- A text with an escape that is half of a surrogate pair. -/
  | broken
  deriving DecidableEq, Repr

/-- A JSON value. -/
inductive Json where
  | null
  | bool (value : Bool)
  | number (value : JsonNumber)
  | text (value : JsonText)
  | array (elements : List Json)
  | object (members : List (JsonText × Json))
  deriving Repr

namespace Json

/-! ### Texts -/

/-- The value of four hexadecimal digits at the front of a text, and what follows them. -/
def parseHex4? : List Char → Option (Nat × List Char)
  | a :: b :: c :: d :: rest => do
    let digit (c : Char) : Option Nat :=
      if c.isDigit then some (c.toNat - 48)
      else if 'a' ≤ c ∧ c ≤ 'f' then some (c.toNat - 87)
      else if 'A' ≤ c ∧ c ≤ 'F' then some (c.toNat - 55)
      else none
    return (4096 * (← digit a) + 256 * (← digit b) + 16 * (← digit c) + (← digit d), rest)
  | _ => none

/-- What a backslash and one letter stand for. -/
def escape? : Char → Option Char
  | '"' => some '"'
  | '\\' => some '\\'
  | '/' => some '/'
  | 'b' => some '\x08'
  | 'f' => some '\x0c'
  | 'n' => some '\n'
  | 'r' => some '\r'
  | 't' => some '\t'
  | _ => none

/-- The code units of a text: a character, or a unit written as an escape. -/
inductive Unit16 where
  | char (c : Char)
  | code (n : Nat)
  deriving DecidableEq, Repr

/-- The units of a text up to its closing quote, and what follows the quote. -/
def parseUnits? : List Char → Option (List Unit16 × List Char)
  | [] => none
  | '"' :: rest => some ([], rest)
  | '\\' :: 'u' :: a :: b :: c :: d :: rest => do
    let (n, _) ← parseHex4? [a, b, c, d]
    let (units, rest) ← parseUnits? rest
    return (.code n :: units, rest)
  | '\\' :: c :: rest => do
    let e ← escape? c
    let (units, rest) ← parseUnits? rest
    return (.char e :: units, rest)
  | c :: rest =>
    if c.toNat < 32 ∨ c = '\\' then none
    else do
      let (units, rest) ← parseUnits? rest
      return (.char c :: units, rest)

/-- The characters that units spell; a high surrogate needs a low one after it, and no low one stands
alone. -/
def joinUnits? : List Unit16 → Option (List Char)
  | [] => some []
  | .char c :: rest => (joinUnits? rest).map (c :: ·)
  | .code hi :: .code lo :: rest =>
    if 0xD800 ≤ hi ∧ hi < 0xDC00 then
      if 0xDC00 ≤ lo ∧ lo < 0xE000 then
        (joinUnits? rest).map (Char.ofNat (0x10000 + (hi - 0xD800) * 0x400 + (lo - 0xDC00)) :: ·)
      else none
    else if 0xDC00 ≤ hi ∧ hi < 0xE000 then none
    else (joinUnits? (.code lo :: rest)).map (Char.ofNat hi :: ·)
  | .code n :: rest =>
    if 0xD800 ≤ n ∧ n < 0xE000 then none else (joinUnits? rest).map (Char.ofNat n :: ·)

/-- A text after its opening quote, and what follows it. -/
def parseText? (cs : List Char) : Option (JsonText × List Char) := do
  let (units, rest) ← parseUnits? cs
  match joinUnits? units with
  | some chars => return (.whole (String.ofList chars), rest)
  | none => return (.broken, rest)

/-! ### Values -/

/-- Drops the blanks that may stand between tokens. -/
def skipBlanks (cs : List Char) : List Char :=
  cs.dropWhile fun c => c == ' ' || c == '\n' || c == '\t' || c == '\r'

/-- What follows a word at the front of a text. -/
def dropWord? (word : List Char) (cs : List Char) : Option (List Char) :=
  if word.isPrefixOf cs then some (cs.drop word.length) else none

mutual

/-- A value at the front of a text, and what follows it. The fuel bounds the tokens read. -/
def parseValue? : Nat → List Char → Option (Json × List Char)
  | 0, _ => none
  | fuel + 1, cs =>
    match skipBlanks cs with
    | '{' :: rest =>
      match skipBlanks rest with
      | '}' :: rest => some (.object [], rest)
      | rest => (parseMembers? fuel rest).map fun (ms, rest) => (.object ms, rest)
    | '[' :: rest =>
      match skipBlanks rest with
      | ']' :: rest => some (.array [], rest)
      | rest => (parseElements? fuel rest).map fun (es, rest) => (.array es, rest)
    | '"' :: rest => (parseText? rest).map fun (t, rest) => (.text t, rest)
    | '-' :: rest => (JsonNumber.parseUnsigned? true rest).map fun (n, rest) => (.number n, rest)
    | 'n' :: rest => (dropWord? ['u', 'l', 'l'] rest).map fun rest => (.null, rest)
    | 't' :: rest => (dropWord? ['r', 'u', 'e'] rest).map fun rest => (.bool true, rest)
    | 'f' :: rest => (dropWord? ['a', 'l', 's', 'e'] rest).map fun rest => (.bool false, rest)
    | rest => (JsonNumber.parseUnsigned? false rest).map fun (n, rest) => (.number n, rest)

/-- The elements of an array up to its closing bracket, at least one. -/
def parseElements? : Nat → List Char → Option (List Json × List Char)
  | 0, _ => none
  | fuel + 1, cs => do
    let (v, rest) ← parseValue? fuel cs
    match skipBlanks rest with
    | ']' :: rest => return ([v], rest)
    | ',' :: rest =>
      let (vs, rest) ← parseElements? fuel rest
      return (v :: vs, rest)
    | _ => none

/-- The members of an object up to its closing brace, at least one. -/
def parseMembers? : Nat → List Char → Option (List (JsonText × Json) × List Char)
  | 0, _ => none
  | fuel + 1, cs => do
    match skipBlanks cs with
    | '"' :: rest =>
      let (name, rest) ← parseText? rest
      match skipBlanks rest with
      | ':' :: rest =>
        let (v, rest) ← parseValue? fuel rest
        match skipBlanks rest with
        | '}' :: rest => return ([(name, v)], rest)
        | ',' :: rest =>
          let (ms, rest) ← parseMembers? fuel rest
          return ((name, v) :: ms, rest)
        | _ => none
      | _ => none
    | _ => none

end

/-- The value that a whole text spells. -/
def parse? (text : String) : Option Json := do
  let cs := text.toList
  let (v, rest) ← parseValue? (2 * cs.length + 2) cs
  if (skipBlanks rest).isEmpty then return v else none

/-! ### Use -/

mutual

/-- Whether a value can be used, with `room` levels of nesting left. -/
def usable (room : Nat) : Json → Bool
  | null | bool _ => true
  | number n => n.usable
  | text (.whole _) => true
  | text .broken => false
  | array es => 0 < room && usableElements (room - 1) es
  | object ms => 0 < room && usableMembers (room - 1) ms

/-- Whether all elements can be used. -/
def usableElements (room : Nat) : List Json → Bool
  | [] => true
  | e :: rest => usable room e && usableElements room rest

/-- Whether all members and their names can be used. -/
def usableMembers (room : Nat) : List (JsonText × Json) → Bool
  | [] => true
  | (name, v) :: rest => (name != .broken) && usable room v && usableMembers room rest

end

end Json

end RoundChain
