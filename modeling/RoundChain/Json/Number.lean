/-!
# JSON numbers

A number in JSON is written in decimals. An integer that a word can hold is kept as
it is. Of any other number a reader of settings has to know only whether it has a
size in the range of binary floating point.

## The model

Such a number is read as a word times a power of ten. The word takes digits as long
as it can hold them. A digit before the point that it cannot hold counts as a factor
of ten; so do all the digits after it up to the point. A digit after the point that
it cannot hold ends the reading of digits. Word and power are each rounded to 53
bits, and their product must not round past the greatest finite number.
-/

namespace RoundChain

/-- A number as it is written. -/
inductive JsonNumber where
  /-- Digits alone, other than a negative zero, whose value a word holds. -/
  | integer (value : Int)
  /-- Any other; `finite` if its size is in the range of binary floating point. -/
  | real (finite : Bool)
  deriving DecidableEq, Repr

namespace JsonNumber

/-! ### Range -/

/-- The nearest number to `n` with 53 significant bits; of two that are equally near, the even one. -/
def round53 (n : Nat) : Nat :=
  let dropped := n.log2 - 52
  let kept := n >>> dropped
  let rest := n - (kept <<< dropped)
  let half := (1 <<< dropped) / 2
  if dropped = 0 ∨ rest < half ∨ (rest = half ∧ kept % 2 = 0) then kept <<< dropped
  else (kept + 1) <<< dropped

/-- The least number that rounds past the greatest finite one. -/
def realBound : Nat := (1 <<< 1024) - (1 <<< 970)

/-- Whether `significand · 10 ^ exponent` is in the range of binary floating point. -/
def inRange (significand : Nat) (exponent : Int) : Bool :=
  if significand = 0 ∨ exponent < 0 then true
  else if 308 < exponent then false
  else round53 significand * round53 (Nat.pow 10 exponent.toNat) < realBound

/-! ### Digits -/

/-- A number with one more digit behind it, if a word can hold that. -/
def addDigit? (n : Nat) (digit : Char) : Option Nat :=
  let longer := 10 * n + (digit.toNat - 48)
  if longer < UInt64.size then some longer else none

/-- A word made longer by digits as far as it can hold them, and how many digits it took. -/
def takeDigits (n : Nat) : List Char → Nat × Nat
  | [] => (n, 0)
  | c :: rest =>
    match addDigit? n c with
    | some longer => let (m, taken) := takeDigits longer rest; (m, taken + 1)
    | none => (n, 0)

/-- The number that decimal digits spell. -/
def digitsValue (digits : List Char) : Nat :=
  digits.foldl (fun n c => 10 * n + (c.toNat - 48)) 0

/-- Whether a number is in range: its digits before the point, its digits after it, and its exponent. -/
def partsInRange (whole places : List Char) (exponent : Int) : Bool :=
  let (n, taken) := takeDigits 0 whole
  let (significand, takenPlaces) := takeDigits n places
  inRange significand (exponent + (whole.length - taken : Nat) - takenPlaces)

/-! ### Reading -/

/-- The digits at the front of a text, and what follows them. -/
def spanDigits (cs : List Char) : List Char × List Char := cs.span Char.isDigit

/-- The exponent at the front of a text: absent, or an `e` with a sign and at least one digit. -/
def parseExponent? (cs : List Char) : Option (Option Int × List Char) :=
  match cs with
  | c :: rest =>
    if c = 'e' ∨ c = 'E' then
      let (negative, rest) : Bool × List Char :=
        match rest with
        | '+' :: r => (false, r)
        | '-' :: r => (true, r)
        | r => (false, r)
      match spanDigits rest with
      | ([], _) => none
      | (ds, r) => some (some (if negative then -(digitsValue ds : Int) else digitsValue ds), r)
    else some (none, cs)
  | [] => some (none, [])

/-- The fraction at the front of a text: absent, or a point and at least one digit. -/
def parseFraction? (cs : List Char) : Option (Option (List Char) × List Char) :=
  match cs with
  | '.' :: rest =>
    match spanDigits rest with
    | ([], _) => none
    | (ds, r) => some (some ds, r)
  | cs => some (none, cs)

/-- The number that digits alone spell. -/
def ofDigits (negative : Bool) (digits : List Char) : JsonNumber :=
  let value := digitsValue digits
  if negative then
    if 0 < value ∧ value ≤ UInt64.size / 2 then .integer (-(value : Int))
    else .real (partsInRange digits [] 0)
  else if value < UInt64.size then .integer value
  else .real (partsInRange digits [] 0)

/-- A number without its sign, and what follows it. -/
def parseUnsigned? (negative : Bool) (cs : List Char) : Option (JsonNumber × List Char) :=
  match spanDigits cs with
  | ([], _) => none
  | ('0' :: _ :: _, _) => none
  | (whole, rest) => do
    let (fraction, rest) ← parseFraction? rest
    let (exponent, rest) ← parseExponent? rest
    match fraction, exponent with
    | none, none => return (ofDigits negative whole, rest)
    | fraction, exponent =>
      return (.real (partsInRange whole (fraction.getD []) (exponent.getD 0)), rest)

/-- Whether a number can be used. -/
def usable : JsonNumber → Bool
  | integer _ => true
  | real finite => finite

end JsonNumber

end RoundChain
