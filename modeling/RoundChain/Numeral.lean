/-!
# Decimal numerals

How a word is read from decimal digits: an optional plus sign, then at least one
digit. Reading goes from left to right and stops at the first character that is no
digit or at the first digit that takes the number past the range, whichever comes
first. Numerals of real numbers are only told from other texts.
-/

namespace RoundChain

/-- Why a text is no numeral of a word. -/
inductive NumeralError where
  | empty
  | invalidDigit
  | tooLarge
  deriving DecidableEq, Repr

namespace NumeralError

/-- The wording of a cause. -/
def message : NumeralError → String
  | empty => "cannot parse integer from empty string"
  | invalidDigit => "invalid digit found in string"
  | tooLarge => "number too large to fit in target type"

end NumeralError

namespace Numeral

/-- Reads digits behind those that `n` stands for. -/
def readDigits (bound : Nat) (n : Nat) : List Char → Except NumeralError Nat
  | [] => .ok n
  | c :: rest =>
    if !c.isDigit then .error .invalidDigit
    else
      let m := 10 * n + (c.toNat - 48)
      if m < bound then readDigits bound m rest else .error .tooLarge

/-- Reads a number below `bound`. -/
def read (bound : Nat) : List Char → Except NumeralError Nat
  | [] => .error .empty
  | ['+'] => .error .invalidDigit
  | '+' :: c :: rest => readDigits bound 0 (c :: rest)
  | c :: rest => readDigits bound 0 (c :: rest)

/-- Reads a 64-bit word. -/
def readWord (text : String) : Except NumeralError UInt64 :=
  (read UInt64.size text.toList).map UInt64.ofNat

/-- Whether a text is a number with an exponent behind it, where `digits` tells whether a digit was read. -/
def isMantissa (digits pointed : Bool) : List Char → Bool
  | [] => digits
  | c :: rest =>
    if c.isDigit then isMantissa true pointed rest
    else if c = '.' then !pointed && isMantissa digits true rest
    else if c = 'e' || c = 'E' then
      let rest := match rest with
        | '+' :: rest | '-' :: rest => rest
        | _ => rest
      digits && !rest.isEmpty && rest.all Char.isDigit
    else false

/-- Whether a text is a numeral of a real number: behind a sign, if there is one, digits that may hold a point
and may have an exponent, or a word for infinity or for what is no number. -/
def isReal (text : List Char) : Bool :=
  let body := match text with
    | '+' :: rest | '-' :: rest => rest
    | _ => text
  isMantissa false false body ||
    ["inf", "infinity", "nan"].contains (String.ofList (body.map Char.toLower))

/-- The decimal digits of a number, with zeros in front up to a width. -/
def padded (width n : Nat) : List Char :=
  let digits := Nat.toDigits 10 n
  List.replicate (width - digits.length) '0' ++ digits

end Numeral

end RoundChain
