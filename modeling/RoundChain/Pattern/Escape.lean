import RoundChain.Pattern.Reader

/-!
# Single characters of patterns

What a character stands for, alone or behind a backslash.
-/

namespace RoundChain

namespace Pattern

/-- What a character or an escape stands for. -/
inductive Atom where
  /-- A character, or the byte that it numbers. -/
  | literal (c : Char) (asByte : Bool)
  /-- One of several characters. -/
  | charSet
  /-- A place in a text or a line. -/
  | anchor
  /-- A boundary of words. -/
  | boundary
  deriving DecidableEq, Repr

namespace Reader

/-- The value of a hexadecimal digit. -/
def hexValue? (c : Char) : Option Nat :=
  if c.isDigit then some (c.toNat - 48)
  else if 'a' ≤ c && c ≤ 'f' then some (c.toNat - 87)
  else if 'A' ≤ c && c ≤ 'F' then some (c.toNat - 55)
  else none

/-- Reads hexadecimal digits behind those that `n` stands for. -/
def hexDigits : (count : Nat) → (n : Nat) → Reader Nat
  | 0, n => return n
  | count + 1, n => do
    let digit ← StateT.lift (hexValue? (← next))
    step
    hexDigits count (16 * n + digit)

/-- Reads the hexadecimal digits of a character. -/
def numbered (count : Nat) (asByte : Bool) : Reader Atom := do
  step
  let n ← hexDigits count 0
  if n.isValidChar then return .literal (Char.ofNat n) asByte else failure

/-- A class of ASCII. Unicode's classes need tables; what is outside a class of ASCII is no well-formed
text. -/
def asciiClass (negated : Bool) : Reader Atom := do
  if (← flags).unicode || negated then failure else return .charSet

/-- Reads an escape from its backslash on. Letters and digits without a meaning, and what is outside ASCII,
cannot be escaped. -/
def escape : Reader Atom := do
  advance
  let c ← next
  match c with
  | 'x' => numbered 2 true
  | 'u' => numbered 4 false
  | 'U' => numbered 8 false
  | 'd' | 's' | 'w' => advance *> asciiClass false
  | 'D' | 'S' | 'W' => advance *> asciiClass true
  | 'A' | 'z' => advance *> pure .anchor
  | 'b' | 'B' | '<' | '>' => advance *> pure .boundary
  | 'a' | 'f' | 't' | 'n' | 'r' | 'v' =>
    advance
    return .literal (Char.ofNat (match c with
      | 'a' => 7 | 't' => 9 | 'n' => 10 | 'v' => 11 | 'f' => 12 | _ => 13)) false
  | _ =>
    if c.isAlphanum || 127 < c.toNat then failure
    advance
    return .literal c false

end Reader

end Pattern

end RoundChain
